import Mathlib.Data.List.Basic
import StyleFlip.Flip.Shorthand

/-!
# Shorthands as rearranged slots

Flipping a shorthand writes to positions of a value that were found before the first write. What
that leaves behind is told without positions: a run of components stands in place of each slot, and
what is between the slots and behind them stays. The positions in front of a write keep their
meaning, so the groups of corners are told from the last to the first, as they are written.
-/

namespace StyleFlip

namespace Value

/-- The components from the first exclamation mark on. -/
def back (value : Value) : Value := value.dropWhile (!·.isDelim '!')

/-- The slots of a run of components. -/
def slotsOf (value : Value) : List Component := value.filter (!·.isTrivia)

/-- Puts a run of components in place of each slot, in order. -/
def fill : Value → List (List Component) → Value
  | [], _ => []
  | c :: rest, runs =>
    if c.isTrivia then c :: fill rest runs
    else
      match runs with
      | [] => c :: fill rest []
      | run :: more => run ++ fill rest more

/-- Rearranges the slots of a value. -/
def rearrange (f : List Component → List (List Component)) (value : Value) : Value :=
  fill (front value) (f (slots value)) ++ back value

theorem slotsOf_trivia {c : Component} (h : c.isTrivia = true) (value : Value) :
    slotsOf (c :: value) = slotsOf value := List.filter_cons_of_neg (by simp [h])

theorem slotsOf_slot {c : Component} (h : c.isTrivia = false) (value : Value) :
    slotsOf (c :: value) = c :: slotsOf value := List.filter_cons_of_pos (by simp [h])

theorem slotsOf_append (a b : Value) : slotsOf (a ++ b) = slotsOf a ++ slotsOf b :=
  List.filter_append a b

theorem front_append_back (value : Value) : front value ++ back value = value :=
  List.takeWhile_append_dropWhile

@[simp]
theorem fill_nil (value : Value) : fill value [] = value := by
  induction value with
  | nil => rfl
  | cons c value ih => cases hc : c.isTrivia <;> simp [fill, hc, ih]

theorem fill_append (a b : Value) (runs : List (List Component)) :
    fill (a ++ b) runs = fill a runs ++ fill b (runs.drop (slotsOf a).length) := by
  induction a generalizing runs with
  | nil => rfl
  | cons c a ih =>
      cases hc : c.isTrivia with
      | true => simp [fill, hc, slotsOf_trivia hc, ih]
      | false =>
          cases runs with
          | nil => simp
          | cons run runs => simp [fill, hc, slotsOf_slot hc, ih]

theorem fill_slotsOf (value : Value) : fill value ((slotsOf value).map ([·])) = value := by
  induction value with
  | nil => rfl
  | cons c value ih =>
      cases hc : c.isTrivia with
      | true => simpa [fill, hc, slotsOf_trivia hc] using ih
      | false => simpa [fill, hc, slotsOf_slot hc] using ih

/-- Runs beyond the slots are not used. -/
theorem fill_append_runs {value : Value} {runs : List (List Component)}
    (h : (slotsOf value).length ≤ runs.length) (more : List (List Component)) :
    fill value (runs ++ more) = fill value runs := by
  induction value generalizing runs with
  | nil => rfl
  | cons c value ih =>
      cases hc : c.isTrivia with
      | true =>
          rw [slotsOf_trivia hc] at h
          simp [fill, hc, ih h]
      | false =>
          rw [slotsOf_slot hc] at h
          cases runs with
          | nil => contradiction
          | cons run runs => simp [fill, hc, ih (Nat.le_of_succ_le_succ h)]

theorem rearrange_map_singleton (value : Value) :
    rearrange (List.map ([·])) value = value := by
  rw [rearrange, slots, ← slotsOf, fill_slotsOf, front_append_back]

end Value

open Value

/-! ### Slots between slashes -/

/-- The slash between horizontal and vertical radii. -/
def slash : Component := .leaf .delim ['/']

theorem eq_slash_of_isDelim {c : Component} (h : c.isDelim '/' = true) : c = slash := by
  cases c with
  | function => contradiction
  | leaf kind text =>
      cases kind <;> simp only [Component.isDelim, Bool.false_eq_true, beq_iff_eq] at h
      rw [h, slash]

/-- A list of slots has no slash, or is cut at its first slash. -/
@[elab_as_elim]
theorem slashInduction {motive : List Component → Prop}
    (plain : ∀ group, (∀ c ∈ group, c.isDelim '/' = false) → motive group)
    (cut : ∀ group rest, (∀ c ∈ group, c.isDelim '/' = false) → motive rest →
      motive (group ++ slash :: rest)) (slots : List Component) : motive slots := by
  suffices hfrom : ∀ group, (∀ c ∈ group, c.isDelim '/' = false) → motive (group ++ slots) by
    exact hfrom [] (by simp)
  induction slots with
  | nil =>
      intro group hgroup
      rw [List.append_nil]
      exact plain group hgroup
  | cons c slots ih =>
      intro group hgroup
      cases hc : c.isDelim '/' with
      | true =>
          rw [eq_slash_of_isDelim hc]
          exact cut group slots hgroup (by simpa using ih [] (by simp))
      | false =>
          rw [← List.singleton_append, ← List.append_assoc]
          refine ih _ fun d hd => ?_
          rcases List.mem_append.mp hd with hd | hd
          · exact hgroup d hd
          · rw [List.mem_singleton.mp hd, hc]

theorem groupsAt_of_plain {group : List Component} (h : ∀ c ∈ group, c.isDelim '/' = false) :
    groupsAt '/' group = [group] := by
  induction group with
  | nil => rfl
  | cons c group ih =>
      rw [groupsAt, if_neg (by simp [h c]), ih fun d hd => h d (List.mem_cons_of_mem c hd)]

theorem groupsAt_cut {group : List Component} (h : ∀ c ∈ group, c.isDelim '/' = false)
    (rest : List Component) : groupsAt '/' (group ++ slash :: rest) = group :: groupsAt '/' rest := by
  induction group with
  | nil => rfl
  | cons c group ih =>
      rw [List.cons_append, groupsAt, if_neg (by simp [h c]),
        ih fun d hd => h d (List.mem_cons_of_mem c hd)]

theorem groupsAt_ne_nil (slots : List Component) : groupsAt '/' slots ≠ [] := by
  cases slots using slashInduction with
  | plain group hgroup => simp [groupsAt_of_plain hgroup]
  | cut group rest hgroup _ => simp [groupsAt_cut hgroup]

theorem intercalate_cons_of_ne_nil {α : Type} (sep x : List α) {xs : List (List α)} (h : xs ≠ []) :
    List.intercalate sep (x :: xs) = x ++ (sep ++ List.intercalate sep xs) := by
  obtain ⟨y, ys, rfl⟩ := List.exists_cons_of_ne_nil h
  simp [List.intercalate]

/-- Rearranges the slots group by group. -/
def byGroups (f : List Component → List (List Component)) (slots : List Component) :
    List (List Component) :=
  List.intercalate [[slash]] ((groupsAt '/' slots).map f)

/-! ### The order of sides and corners -/

def boxOrder : List Component → List Component
  | [top, right, bottom, left] => [top, left, bottom, right]
  | slots => slots

theorem boxOrder_of_length_ne_four {slots : List Component} (h : slots.length ≠ 4) :
    boxOrder slots = slots := by
  unfold boxOrder
  split
  · simp at h
  · rfl

/-- What stands in place of each of four sides. -/
def flipBox (slots : List Component) : List (List Component) := (boxOrder slots).map ([·])

/-- What stands in place of each corner. It takes four corners to say what three said. -/
def flipCornerGroup : List Component → List (List Component)
  | [a, b] => [[b], [a]]
  | [a, b, c] => [[b], [a], [b, .leaf .whitespace [' '], c]]
  | [a, b, c, d] => [[b], [a], [d], [c]]
  | group => group.map ([·])

/-- Horizontal and vertical radii, which a slash divides. -/
def flipCorners : List Component → List (List Component) := byGroups flipCornerGroup

theorem length_flipCornerGroup (group : List Component) :
    (flipCornerGroup group).length = group.length := by
  unfold flipCornerGroup
  split <;> simp

section ByGroups

variable (f : List Component → List (List Component)) {group : List Component}
  (h : ∀ c ∈ group, c.isDelim '/' = false)

include h

theorem byGroups_of_plain : byGroups f group = f group := by
  rw [byGroups, groupsAt_of_plain h]
  simp [List.intercalate]

theorem byGroups_cut (rest : List Component) :
    byGroups f (group ++ slash :: rest) = f group ++ [slash] :: byGroups f rest := by
  rw [byGroups, groupsAt_cut h, List.map_cons,
    intercalate_cons_of_ne_nil _ _ (by simp [groupsAt_ne_nil])]
  rfl

theorem flipCorners_of_plain : flipCorners group = flipCornerGroup group :=
  byGroups_of_plain flipCornerGroup h

theorem flipCorners_cut (rest : List Component) :
    flipCorners (group ++ slash :: rest) = flipCornerGroup group ++ [slash] :: flipCorners rest :=
  byGroups_cut flipCornerGroup h rest

end ByGroups

namespace Value

/-! ### Reading and writing slots by their positions -/

/-- The positions of the slots of a run of components whose first one is at `k`. -/
def placesFrom (k : Nat) : Value → List Nat
  | [] => []
  | c :: rest => if c.isTrivia then placesFrom (k + 1) rest else k :: placesFrom (k + 1) rest

theorem placesFrom_trivia {c : Component} (h : c.isTrivia = true) (k : Nat) (value : Value) :
    placesFrom k (c :: value) = placesFrom (k + 1) value := if_pos h

theorem placesFrom_slot {c : Component} (h : c.isTrivia = false) (k : Nat) (value : Value) :
    placesFrom k (c :: value) = k :: placesFrom (k + 1) value := if_neg (by simp [h])

theorem slotPlaces_eq (value : Value) : slotPlaces value = placesFrom 0 (front value) := by
  suffices hfrom : ∀ k, (((value.zipIdx k).takeWhile fun entry => !entry.1.isDelim '!').filter
      fun entry => !entry.1.isTrivia).map (·.2) = placesFrom k (front value) from hfrom 0
  induction value with
  | nil => exact fun _ => rfl
  | cons c value ih =>
      intro k
      have hrest := ih (k + 1)
      cases hmark : c.isDelim '!' with
      | true => simp [front, hmark, placesFrom]
      | false =>
          cases hc : c.isTrivia with
          | true => simpa [front, hmark, hc, placesFrom] using hrest
          | false => simpa [front, hmark, hc, placesFrom] using hrest

theorem placesFrom_append (k : Nat) (a b : Value) :
    placesFrom k (a ++ b) = placesFrom k a ++ placesFrom (k + a.length) b := by
  induction a generalizing k with
  | nil => rfl
  | cons c a ih =>
      cases hc : c.isTrivia with
      | true => simp [placesFrom, hc, ih, Nat.add_assoc, Nat.add_comm 1]
      | false => simp [placesFrom, hc, ih, Nat.add_assoc, Nat.add_comm 1]

theorem length_placesFrom (k : Nat) (value : Value) :
    (placesFrom k value).length = (slotsOf value).length := by
  induction value generalizing k with
  | nil => rfl
  | cons c value ih => cases hc : c.isTrivia <;> simp [placesFrom, slotsOf, hc, ih]

theorem le_of_mem_placesFrom {k i : Nat} {value : Value} (h : i ∈ placesFrom k value) : k ≤ i := by
  induction value generalizing k with
  | nil => contradiction
  | cons c value ih =>
      cases hc : c.isTrivia with
      | true =>
          rw [placesFrom_trivia hc] at h
          exact Nat.le_of_succ_le (ih h)
      | false =>
          rw [placesFrom_slot hc, List.mem_cons] at h
          rcases h with rfl | h
          · exact Nat.le_refl _
          · exact Nat.le_of_succ_le (ih h)

theorem pairwise_placesFrom (k : Nat) (value : Value) : (placesFrom k value).Pairwise (· < ·) := by
  induction value generalizing k with
  | nil => exact .nil
  | cons c value ih =>
      cases hc : c.isTrivia with
      | true =>
          rw [placesFrom_trivia hc]
          exact ih (k + 1)
      | false =>
          rw [placesFrom_slot hc]
          exact .cons (fun i hi => le_of_mem_placesFrom hi) (ih (k + 1))

theorem map_placesFrom (pre value post : Value) :
    (placesFrom pre.length value).map ((pre ++ (value ++ post))[·]?) =
      (slotsOf value).map some := by
  induction value generalizing pre with
  | nil => rfl
  | cons c value ih =>
      have hrest := ih (pre ++ [c])
      cases hc : c.isTrivia with
      | true => simpa [placesFrom_trivia hc, slotsOf_trivia hc] using hrest
      | false => simpa [placesFrom_slot hc, slotsOf_slot hc] using hrest

theorem overwrite_placesFrom (pre value post : Value) (slots : List Component) :
    overwrite (pre ++ (value ++ post)) ((placesFrom pre.length value).zip slots) =
      pre ++ (fill value (slots.map ([·])) ++ post) := by
  induction value generalizing pre slots with
  | nil => rfl
  | cons c value ih =>
      cases hc : c.isTrivia with
      | true => simpa [placesFrom_trivia hc, fill, hc] using ih (pre ++ [c]) slots
      | false =>
          cases slots with
          | nil => simp [overwrite]
          | cons d slots =>
              simpa [placesFrom_slot hc, fill, hc, overwrite] using ih (pre ++ [d]) slots

/-! The positions of the slots of a value, which are those in front of the exclamation mark. -/

theorem map_slotPlaces (value : Value) :
    (slotPlaces value).map (value[·]?) = (slots value).map some := by
  have hread := map_placesFrom [] (front value) (back value)
  rwa [List.nil_append, front_append_back, List.length_nil, ← slotPlaces_eq] at hread

theorem overwrite_slotPlaces (value : Value) (slots : List Component) :
    overwrite value ((slotPlaces value).zip slots) =
      fill (front value) (slots.map ([·])) ++ back value := by
  have hwrite := overwrite_placesFrom [] (front value) (back value) slots
  rwa [List.nil_append, front_append_back, List.length_nil, ← slotPlaces_eq,
    List.nil_append] at hwrite

theorem length_slotPlaces (value : Value) : (slotPlaces value).length = (slots value).length := by
  rw [slotPlaces_eq, length_placesFrom]
  rfl

theorem pairwise_slotPlaces (value : Value) : (slotPlaces value).Pairwise (· < ·) := by
  rw [slotPlaces_eq]
  exact pairwise_placesFrom 0 (front value)

theorem insertIdx_length_append (pre post : Value) (c : Component) :
    (pre ++ post).insertIdx pre.length c = pre ++ c :: post := by
  induction pre with
  | nil => rfl
  | cons d pre ih => simpa using ih

/-- Components with a space in front of each. -/
def spaced (more : List Component) : Value := more.flatMap fun c => [.leaf .whitespace [' '], c]

theorem insertSpaced_append (pre post : Value) (more : List Component) :
    insertSpaced pre.length more (pre ++ post) = pre ++ (spaced more ++ post) := by
  induction more generalizing pre with
  | nil => rfl
  | cons c more ih =>
      have hnext := insertIdx_length_append (pre ++ [.leaf .whitespace [' ']]) post c
      have hrest := ih (pre ++ [.leaf .whitespace [' '], c])
      simp only [List.length_append, List.length_cons, List.length_nil, List.append_assoc,
        List.cons_append, List.nil_append] at hnext hrest
      rw [insertSpaced, insertIdx_length_append, hnext, hrest]
      rfl

/-- What is put in behind the last position joins the run of the last slot. -/
theorem insertSpaced_placesFrom (pre value post : Value) {runs : List Component}
    (h : (slotsOf value).length = runs.length + 1) (i : Nat) (c : Component)
    (more : List Component) :
    insertSpaced ((placesFrom pre.length value).getLastD i + 1) more
        (pre ++ (fill value (runs.map ([·]) ++ [[c]]) ++ post)) =
      pre ++ (fill value (runs.map ([·]) ++ [c :: spaced more]) ++ post) := by
  induction value generalizing pre runs i with
  | nil => contradiction
  | cons d value ih =>
      cases hd : d.isTrivia with
      | true =>
          rw [slotsOf_trivia hd] at h
          simpa [placesFrom_trivia hd, fill, hd] using ih (pre ++ [d]) h i
      | false =>
          rw [slotsOf_slot hd] at h
          rw [placesFrom_slot hd, List.getLastD_cons]
          cases runs with
          | cons run runs =>
              have hrest := ih (pre ++ [run]) (Nat.succ.inj h) pre.length
              simpa [fill, hd] using hrest
          | nil =>
              have hlast : placesFrom (pre.length + 1) value = [] := by
                rw [← List.length_eq_zero_iff, length_placesFrom]
                exact Nat.succ.inj h
              have hinsert := insertSpaced_append (pre ++ [c]) (value ++ post) more
              simpa [fill, hd, hlast] using hinsert

/-! ### Sides -/

theorem swap_eq_overwrite {value : Value} {a i b j : Nat} {top right bottom left : Component}
    (hi : i < b) (ha : value[a]? = some top) (hright : value[i]? = some right)
    (hb : value[b]? = some bottom) (hleft : value[j]? = some left) :
    swap i j value =
      overwrite value ([a, i, b, j].zip [top, left, bottom, right]) := by
  have hstay {k : Nat} {c : Component} (hk : value[k]? = some c) : value.set k c = value := by
    obtain ⟨hlt, rfl⟩ := List.getElem?_eq_some_iff.mp hk
    exact List.set_getElem_self hlt
  have hcomm : (value.set i left).set b bottom = value.set i left := by
    rw [List.set_comm _ _ (Nat.ne_of_lt hi), hstay hb]
  simp only [swap, hright, hleft, overwrite, List.zip_cons_cons, List.zip_nil_left,
    List.foldl_cons, List.foldl_nil, hstay ha, hcomm]

theorem rearrange_flipBox_of_eq {value : Value} (h : boxOrder (slots value) = slots value) :
    rearrange flipBox value = value := by
  have hflip : flipBox (slots value) = (slots value).map ([·]) := by rw [flipBox, h]
  rw [rearrange, hflip]
  exact rearrange_map_singleton value

theorem permuteBox_of_length_ne_four {value : Value} (h : (slots value).length ≠ 4) :
    permuteBox value = .start value := by
  unfold permuteBox
  split
  next hplaces => exact absurd (by rw [← length_slotPlaces, hplaces]; rfl) h
  next => rfl

theorem permuteBox_of_sides {value : Value} {top right bottom left : Component}
    (h : slots value = [top, right, bottom, left]) :
    permuteBox value =
      if right = left then .start value else ⟨rearrange flipBox value, true⟩ := by
  have hread := map_slotPlaces value
  simp only [h, List.map_cons, List.map_nil, List.map_eq_cons_iff, List.map_eq_nil_iff] at hread
  obtain ⟨a, _, hplaces, ha, i, _, rfl, hi, b, _, rfl, hb, j, _, rfl, hj, rfl⟩ := hread
  have hib : i < b := by
    have hsorted := pairwise_slotPlaces value
    rw [hplaces] at hsorted
    exact List.rel_of_pairwise_cons hsorted.of_cons (.head _)
  have hswap : swap i j value = rearrange flipBox value := by
    rw [swap_eq_overwrite hib ha hi hb hj, ← hplaces, overwrite_slotPlaces, rearrange, flipBox, h,
      boxOrder]
  simp only [permuteBox, hplaces, hi, hj, Option.some.injEq, hswap]

theorem permuteBox_eq (value : Value) :
    permuteBox value = ⟨rearrange flipBox value, boxOrder (slots value) ≠ slots value⟩ := by
  by_cases hlength : (slots value).length = 4
  · obtain ⟨top, right, bottom, left, hslots⟩ := List.length_eq_four.mp hlength
    rw [permuteBox_of_sides hslots, hslots, boxOrder]
    split
    next hsame =>
      rw [rearrange_flipBox_of_eq (by rw [hslots, hsame, boxOrder])]
      simp [Edit.start, hsame]
    next hother => simp [hother, eq_comm]
  · have horder := boxOrder_of_length_ne_four hlength
    rw [permuteBox_of_length_ne_four hlength, rearrange_flipBox_of_eq horder, horder]
    simp [Edit.start]

/-! ### Corners -/

theorem permuteGroup_placesFrom (pre value post : Value) :
    permuteGroup (placesFrom pre.length value) (pre ++ (value ++ post)) =
      pre ++ (fill value (flipCornerGroup (slotsOf value)) ++ post) := by
  have hread := congrArg (List.filterMap id) (map_placesFrom pre value post)
  simp only [List.filterMap_map, Function.comp_def, id, List.filterMap_some] at hread
  have hwrite := overwrite_placesFrom pre value post
  have hstay (h : cornerOrder (slotsOf value).length = none)
      (hflip : flipCornerGroup (slotsOf value) = (slotsOf value).map ([·])) :
      permuteGroup (placesFrom pre.length value) (pre ++ (value ++ post)) =
        pre ++ (fill value (flipCornerGroup (slotsOf value)) ++ post) := by
    rw [hflip, fill_slotsOf, permuteGroup, length_placesFrom, h]
  match hslots : slotsOf value with
  | [a, b] =>
      rw [permuteGroup, length_placesFrom, hread, hslots]
      exact hwrite [b, a]
  | [a, b, c, d] =>
      rw [permuteGroup, length_placesFrom, hread, hslots]
      exact hwrite [b, a, d, c]
  | [a, b, c] =>
      -- Of the four corners the first three are written, and the last is put in behind them.
      rw [permuteGroup, length_placesFrom, hread, hslots]
      have hunused : fill value ([[b], [a], [b]] ++ [[c]]) = fill value [[b], [a], [b]] :=
        fill_append_runs (by simp [hslots]) _
      have hthree : (slotsOf value).length = [b, a].length + 1 := by rw [hslots]; rfl
      show insertSpaced _ [c] (overwrite _ (List.zip _ [b, a, b, c])) = _
      rw [hwrite]
      show insertSpaced _ [c] (pre ++ (fill value ([[b], [a], [b]] ++ [[c]]) ++ post)) = _
      rw [hunused]
      exact insertSpaced_placesFrom pre value post hthree 0 b [c]
  | [] | [_] | _ :: _ :: _ :: _ :: _ :: _ =>
      rw [← hslots]
      exact hstay (by rw [hslots]; rfl) (by rw [hslots]; rfl)

theorem fill_flipCorners_cut {group : Value} (h : ∀ c ∈ group, c.isDelim '/' = false)
    (rest : Value) :
    fill (group ++ slash :: rest) (flipCorners (slotsOf (group ++ slash :: rest))) =
      fill group (flipCornerGroup (slotsOf group)) ++
        slash :: fill rest (flipCorners (slotsOf rest)) := by
  have hslash : slash.isTrivia = false := rfl
  have hslots : ∀ c ∈ slotsOf group, c.isDelim '/' = false :=
    fun c hc => h c (List.mem_filter.mp hc).1
  have hlength := length_flipCornerGroup (slotsOf group)
  rw [slotsOf_append, slotsOf_slot hslash, flipCorners_cut hslots, fill_append,
    fill_append_runs (Nat.le_of_eq hlength.symm), List.drop_left' hlength, fill,
    if_neg (by simp [hslash]), List.singleton_append]

theorem isDelim_of_mem_placesFrom {group : Value} (h : ∀ c ∈ group, c.isDelim '/' = false)
    (pre post : Value) (i : Nat) (hi : i ∈ placesFrom pre.length group) :
    (pre ++ (group ++ post))[i]?.any (·.isDelim '/') = false := by
  have hmem : (pre ++ (group ++ post))[i]? ∈ (slotsOf group).map some := by
    rw [← map_placesFrom pre group post]
    exact List.mem_map_of_mem hi
  obtain ⟨c, hc, hsome⟩ := List.mem_map.mp hmem
  rw [← hsome, Option.any_some, h c (List.mem_filter.mp hc).1]

/-- The groups are flipped from the last to the first. What the later ones leave behind is part of
`post` for the earlier ones. -/
theorem foldr_permuteGroup_placesFrom (pre value post : Value) :
    ((placesFrom pre.length value).splitOnP
        fun i => (pre ++ (value ++ post))[i]?.any (·.isDelim '/')).foldr permuteGroup
        (pre ++ (value ++ post)) =
      pre ++ (fill value (flipCorners (slotsOf value)) ++ post) := by
  induction value using slashInduction generalizing pre with
  | plain group hgroup =>
      have hslots : ∀ c ∈ slotsOf group, c.isDelim '/' = false :=
        fun c hc => hgroup c (List.mem_filter.mp hc).1
      rw [List.splitOnP_eq_singleton (isDelim_of_mem_placesFrom hgroup pre post),
        List.foldr_cons, List.foldr_nil, permuteGroup_placesFrom, flipCorners_of_plain hslots]
  | cut group rest hgroup ih =>
      have hslash : slash.isTrivia = false := rfl
      have hrest := ih (pre ++ (group ++ [slash]))
      have hplain := isDelim_of_mem_placesFrom hgroup pre (slash :: (rest ++ post))
      have hfirst := permuteGroup_placesFrom pre group
        (slash :: (fill rest (flipCorners (slotsOf rest)) ++ post))
      simp only [List.append_assoc, List.cons_append, List.nil_append, List.length_append,
        List.length_cons, List.length_nil] at hrest ⊢
      have hmark : (pre ++ (group ++ slash :: (rest ++ post)))[pre.length + group.length]?.any
          (·.isDelim '/') = true := by
        rw [← List.append_assoc, ← List.length_append, List.getElem?_append_right (Nat.le_refl _),
          Nat.sub_self]
        rfl
      rw [placesFrom_append, placesFrom_slot hslash,
        List.splitOnP_append_cons_of_forall_mem hplain _ hmark, List.foldr_cons, Nat.add_assoc,
        hrest, hfirst, fill_flipCorners_cut hgroup, List.append_assoc, List.cons_append]

theorem permuteCorners_eq (value : Value) :
    permuteCorners value =
      ⟨rearrange flipCorners value, rearrange flipCorners value ≠ value⟩ := by
  have hflip := foldr_permuteGroup_placesFrom [] (front value) (back value)
  rw [List.nil_append, front_append_back, List.length_nil, ← slotPlaces_eq, List.nil_append]
    at hflip
  rw [permuteCorners, hflip]
  rfl

end Value

namespace Shorthand

/-- What a flip puts in place of each slot. -/
def runs : Shorthand → List Component → List (List Component)
  | .box => flipBox
  | .corners => flipCorners

theorem flip_eq_rearrange (shorthand : Shorthand) (value : Value) :
    shorthand.flip value = rearrange shorthand.runs value := by
  cases shorthand with
  | box => rw [flip, edit, permuteBox_eq, runs]
  | corners => rw [flip, edit, permuteCorners_eq, runs]

end Shorthand

end StyleFlip
