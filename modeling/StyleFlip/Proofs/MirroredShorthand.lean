import Mathlib.Data.List.Basic
import StyleFlip.Proofs.MirroredValue
import StyleFlip.Proofs.RearrangedSlots

/-!
# Shorthands that flip back

Flipping a shorthand puts the components of a value in another order and leaves blanks, comments and
slashes in place. The order of four sides, and that of two or four corners, is restored by a second
flip. Three corners come back as four, because it takes four to say what three said.
-/

namespace StyleFlip

open Value

/-! ### The order of sides and corners -/

/-- The order of two or four corners. -/
def groupOrder : List Component → List Component
  | [a, b] => [b, a]
  | [a, b, c, d] => [b, a, d, c]
  | slots => slots

theorem boxOrder_boxOrder (slots : List Component) : boxOrder (boxOrder slots) = slots := by
  match slots with
  | [] => rfl
  | [_] => rfl
  | [_, _] => rfl
  | [_, _, _] => rfl
  | [_, _, _, _] => rfl
  | _ :: _ :: _ :: _ :: _ :: _ => rfl

theorem groupOrder_groupOrder (slots : List Component) : groupOrder (groupOrder slots) = slots := by
  match slots with
  | [] => rfl
  | [_] => rfl
  | [_, _] => rfl
  | [_, _, _] => rfl
  | [_, _, _, _] => rfl
  | _ :: _ :: _ :: _ :: _ :: _ => rfl

theorem flipCornerGroup_eq {group : List Component} (h : group.length ≠ 3) :
    flipCornerGroup group = (groupOrder group).map ([·]) := by
  match group with
  | [] => rfl
  | [_] => rfl
  | [_, _] => rfl
  | [_, _, _] => simp at h
  | [_, _, _, _] => rfl
  | _ :: _ :: _ :: _ :: _ :: _ => rfl

theorem boxOrder_perm (slots : List Component) : (boxOrder slots).Perm slots := by
  match slots with
  | [] => exact .refl _
  | [_] => exact .refl _
  | [_, _] => exact .refl _
  | [_, _, _] => exact .refl _
  | [a, b, c, d] =>
      show [a, d, c, b].Perm [a, b, c, d]
      exact ((List.Perm.swap c d [b]).trans ((List.Perm.swap b d []).cons c |>.trans
        (List.Perm.swap b c [d]))).cons a
  | _ :: _ :: _ :: _ :: _ :: _ => exact .refl _

theorem groupOrder_perm (slots : List Component) : (groupOrder slots).Perm slots := by
  match slots with
  | [] => exact .refl _
  | [_] => exact .refl _
  | [a, b] => exact .swap a b []
  | [_, _, _] => exact .refl _
  | [a, b, c, d] => exact (List.Perm.swap a b [d, c]).trans (((List.Perm.swap c d []).cons b).cons a)
  | _ :: _ :: _ :: _ :: _ :: _ => exact .refl _

/-! ### Components that can change places -/

/-- A leaf that is no square bracket. -/
def LeafKind.isUnbracketed (kind : LeafKind) (text : Text) : Bool :=
  kind != .delim || (text != ['['] && text != [']'])

/-- A component that can be moved: a name, a number, a hash, a url, or a function that is closed and
has no square bracket in it. -/
def Component.isMovable : Component → Bool
  | .leaf kind _ => kind = .ident ∨ kind = .number ∨ kind = .hash ∨ kind = .url
  | .function _ args closed =>
    closed && allLeavesAll (fun _ => true) LeafKind.isUnbracketed args

theorem Component.not_isDelim_of_isMovable {c : Component} (h : c.isMovable = true) (mark : Char) :
    c.isDelim mark = false := by
  cases c with
  | function => rfl
  | leaf kind text => cases kind <;> first | rfl | simp [isMovable] at h

theorem Component.not_isTrivia_of_isMovable {c : Component} (h : c.isMovable = true) :
    c.isTrivia = false := by
  cases c with
  | function => rfl
  | leaf kind text => cases kind <;> first | rfl | simp [isMovable] at h

/-- No two components stand side by side, unless one of them is a slash. -/
def Value.isSpaced : Value → Bool
  | a :: b :: rest =>
    (a.isTrivia || b.isTrivia || a.isDelim '/' || b.isDelim '/') && isSpaced (b :: rest)
  | _ => true

namespace Shorthand

/-- Whether a second flip of the shorthand restores a value. -/
def admits : Shorthand → Value → Bool
  | .box, value => (slots value).all Component.isMovable && isSpaced (front value)
  | .corners, value =>
    (slots value).all (fun c => c.isDelim '/' || c.isMovable) && isSpaced (front value) &&
      (groupsAt '/' (slots value)).all (·.length != 3)

/-- Whether the components of a value can be moved as the shorthand moves them. -/
def canMove : Shorthand → Value → Bool
  | .box, value => (slots value).all Component.isMovable && isSpaced (front value)
  | .corners, value =>
    (slots value).all (fun c => c.isDelim '/' || c.isMovable) && isSpaced (front value)

theorem canMove_of_admits {shorthand : Shorthand} {value : Value}
    (h : shorthand.admits value = true) : shorthand.canMove value = true := by
  cases shorthand with
  | box => exact h
  | corners =>
      rw [admits, Bool.and_eq_true] at h
      exact h.1

theorem isSpaced_of_canMove {shorthand : Shorthand} {value : Value}
    (h : shorthand.canMove value = true) : isSpaced (front value) = true := by
  cases shorthand <;>
  · rw [canMove, Bool.and_eq_true] at h
    exact h.2

end Shorthand

/-- What can be put in place of a slot: components from `pool`, with blanks between them. -/
inductive Filling (pool : List Component) : List Component → Prop
  | one {c : Component} (hc : c.isMovable = true) (hmem : c ∈ pool) : Filling pool [c]
  | cons {c : Component} {run : List Component} (hc : c.isMovable = true) (hmem : c ∈ pool)
      (h : Filling pool run) : Filling pool (c :: .leaf .whitespace [' '] :: run)

/-- Runs in place of slots: slashes in their places, and components from `pool` in all others. -/
inductive Reordered (pool : List Component) : List Component → List (List Component) → Prop
  | nil : Reordered pool [] []
  | slash {a : List Component} {b : List (List Component)} (h : Reordered pool a b) :
      Reordered pool (slash :: a) ([slash] :: b)
  | slot {c : Component} {run a : List Component} {b : List (List Component)}
      (hc : c.isMovable = true) (hrun : Filling pool run) (h : Reordered pool a b) :
      Reordered pool (c :: a) (run :: b)

namespace Reordered

variable {pool : List Component}

theorem append {a b : List Component} {a' b' : List (List Component)} (ha : Reordered pool a a')
    (hb : Reordered pool b b') : Reordered pool (a ++ b) (a' ++ b') := by
  induction ha with
  | nil => exact hb
  | slash _ ih => exact ih.slash
  | slot hc hrun _ ih => exact .slot hc hrun ih

theorem of_movable {a b : List Component} (hlength : a.length = b.length)
    (ha : ∀ c ∈ a, c.isMovable = true) (hb : ∀ c ∈ b, c.isMovable = true ∧ c ∈ pool) :
    Reordered pool a (b.map ([·])) := by
  induction a generalizing b with
  | nil =>
      obtain rfl := List.length_eq_zero_iff.mp hlength.symm
      exact .nil
  | cons c a ih =>
      cases b with
      | nil => contradiction
      | cons d b =>
          obtain ⟨hd, hmem⟩ := hb d (by simp)
          refine .slot (ha c (by simp)) (.one hd hmem) (ih (by simpa using hlength) ?_ ?_)
          · exact fun e he => ha e (by simp [he])
          · exact fun e he => hb e (by simp [he])

theorem of_perm {a b : List Component} (hperm : b.Perm a) (ha : ∀ c ∈ a, c.isMovable = true)
    (hpool : ∀ c ∈ a, c ∈ pool) : Reordered pool a (b.map ([·])) := by
  refine of_movable hperm.length_eq.symm ha fun c hc => ?_
  have hmem := hperm.mem_iff.mp hc
  exact ⟨ha c hmem, hpool c hmem⟩

/-- Three corners become four. -/
theorem flipCornerGroup {group : List Component} (h : ∀ c ∈ group, c.isMovable = true)
    (hpool : ∀ c ∈ group, c ∈ pool) : Reordered pool group (flipCornerGroup group) := by
  by_cases hthree : group.length = 3
  · obtain ⟨a, b, c, rfl⟩ := List.length_eq_three.mp hthree
    simp only [List.mem_cons, List.not_mem_nil, or_false, forall_eq_or_imp, forall_eq] at h hpool
    obtain ⟨ha, hb, hc⟩ := h
    obtain ⟨hain, hbin, hcin⟩ := hpool
    exact .slot ha (.one hb hbin) (.slot hb (.one ha hain)
      (.slot hc (.cons hb hbin (.one hc hcin)) .nil))
  · rw [flipCornerGroup_eq hthree]
    exact .of_perm (groupOrder_perm group) h hpool

theorem flipCorners {slots : List Component}
    (h : ∀ c ∈ slots, c.isDelim '/' = true ∨ c.isMovable = true) (hpool : ∀ c ∈ slots, c ∈ pool) :
    Reordered pool slots (flipCorners slots) := by
  have hgroup : ∀ group : List Component, (∀ c ∈ group, c.isDelim '/' = false) →
      (∀ c ∈ group, c.isDelim '/' = true ∨ c.isMovable = true) → (∀ c ∈ group, c ∈ pool) →
      Reordered pool group (StyleFlip.flipCornerGroup group) := by
    intro group hplain hmovable hmem
    refine flipCornerGroup (fun c hc => ?_) hmem
    exact (hmovable c hc).resolve_left (by simp [hplain c hc])
  induction slots using slashInduction with
  | plain group hplain =>
      rw [flipCorners_of_plain hplain]
      exact hgroup group hplain h hpool
  | cut group rest hplain ih =>
      rw [flipCorners_cut hplain]
      have hfirst := hgroup group hplain (fun c hc => h c (by simp [hc]))
        fun c hc => hpool c (by simp [hc])
      have hrest := ih (fun c hc => h c (by simp [hc])) fun c hc => hpool c (by simp [hc])
      exact hfirst.append (.slash hrest)

end Reordered

theorem Shorthand.reordered_runs {shorthand : Shorthand} {value : Value}
    (h : shorthand.canMove value = true) :
    Reordered (slots value) (slots value) (shorthand.runs (slots value)) := by
  cases shorthand with
  | box =>
      rw [canMove, Bool.and_eq_true] at h
      rw [runs, flipBox]
      exact .of_perm (boxOrder_perm _) (List.all_eq_true.mp h.1) fun _ hc => hc
  | corners =>
      rw [canMove, Bool.and_eq_true] at h
      refine .flipCorners (fun c hc => ?_) fun _ hc => hc
      simpa using List.all_eq_true.mp h.1 c hc

/-! ### Values with their slots filled anew -/

/-- Blanks and comments stay, and slots are filled as `Reordered` says. -/
inductive Refilled (pool : List Component) : Value → Value → Prop
  | nil : Refilled pool [] []
  | trivia {c : Component} {a b : Value} (hc : c.isTrivia = true) (h : Refilled pool a b) :
      Refilled pool (c :: a) (c :: b)
  | slash {a b : Value} (h : Refilled pool a b) : Refilled pool (slash :: a) (slash :: b)
  | slot {c : Component} {run : List Component} {a b : Value} (hc : c.isMovable = true)
      (hrun : Filling pool run) (h : Refilled pool a b) : Refilled pool (c :: a) (run ++ b)

theorem refilled_fill {pool : List Component} {value : Value} {runs : List (List Component)}
    (h : Reordered pool (slotsOf value) runs) : Refilled pool value (fill value runs) := by
  induction value generalizing runs with
  | nil => exact .nil
  | cons c value ih =>
      cases hc : c.isTrivia with
      | true =>
          rw [slotsOf_trivia hc] at h
          simp only [fill, hc, if_true]
          exact .trivia hc (ih h)
      | false =>
          rw [slotsOf_slot hc] at h
          cases h with
          | slash h => exact .slash (ih h)
          | slot hmovable hrun h =>
              simp only [fill, hc, Bool.false_eq_true, if_false]
              exact .slot hmovable hrun (ih h)

theorem Value.front_append {a b : Value} (ha : ∀ c ∈ a, c.isDelim '!' = false)
    (hb : front b = []) : front (a ++ b) = a ∧ back (a ++ b) = b := by
  have hpos : ∀ c ∈ a, (!c.isDelim '!') = true := fun c hc => by simp [ha c hc]
  have hback : back b = b := by
    have hsplit := front_append_back b
    rwa [hb, List.nil_append] at hsplit
  constructor
  · rw [front, List.takeWhile_append_of_pos hpos]
    rw [front] at hb
    rw [hb, List.append_nil]
  · rw [back, List.dropWhile_append_of_pos hpos]
    exact hback

theorem Value.front_back (value : Value) : front (back value) = [] := by
  rw [front, back]
  cases hdrop : value.dropWhile (!·.isDelim '!') with
  | nil => rfl
  | cons c rest =>
      have hstop := List.head?_dropWhile_not (!·.isDelim '!') value
      rw [hdrop] at hstop
      exact List.takeWhile_cons_of_neg (by simpa using hstop)

/-! ### Filling slots twice -/

/-- Puts a run of components in place of each slot of some runs. -/
def Value.fillRuns : List (List Component) → List (List Component) → List (List Component)
  | [], _ => []
  | run :: more, runs => fill run runs :: fillRuns more (runs.drop (slotsOf run).length)

theorem Value.fillRuns_append (a b runs : List (List Component)) :
    fillRuns (a ++ b) runs = fillRuns a runs ++ fillRuns b (runs.drop (slotsOf a.flatten).length) := by
  induction a generalizing runs with
  | nil => rfl
  | cons run a ih =>
      rw [List.cons_append, fillRuns, ih, fillRuns, List.flatten_cons, slotsOf_append,
        List.length_append, List.drop_drop, List.cons_append]

theorem Value.fill_fill {value : Value} {runs : List (List Component)}
    (h : (slotsOf value).length = runs.length) (new : List (List Component)) :
    fill (fill value runs) new = fill value (fillRuns runs new) := by
  induction value generalizing runs new with
  | nil => rfl
  | cons c value ih =>
      cases hc : c.isTrivia with
      | true =>
          rw [slotsOf_trivia hc] at h
          simp [fill, hc, ih h]
      | false =>
          rw [slotsOf_slot hc] at h
          cases runs with
          | nil => contradiction
          | cons run runs => simp [fill, hc, fillRuns, fill_append, ih (Nat.succ.inj h)]

theorem Value.slotsOf_fill {value : Value} {runs : List (List Component)}
    (h : (slotsOf value).length = runs.length) :
    slotsOf (fill value runs) = slotsOf runs.flatten := by
  induction value generalizing runs with
  | nil =>
      obtain rfl := List.length_eq_zero_iff.mp h.symm
      rfl
  | cons c value ih =>
      cases hc : c.isTrivia with
      | true =>
          rw [slotsOf_trivia hc] at h
          simp [fill, hc, slotsOf_trivia hc, ih h]
      | false =>
          rw [slotsOf_slot hc] at h
          cases runs with
          | nil => contradiction
          | cons run runs => simp [fill, hc, slotsOf_append, ih (Nat.succ.inj h)]

theorem Value.mem_fill {value : Value} {runs : List (List Component)} {c : Component}
    (h : c ∈ fill value runs) : c ∈ value ∨ c ∈ runs.flatten := by
  induction value generalizing runs with
  | nil => contradiction
  | cons d value ih =>
      cases hd : d.isTrivia with
      | true =>
          simp only [fill, hd, if_true, List.mem_cons] at h
          rcases h with rfl | h
          · exact Or.inl (by simp)
          · exact (ih h).imp_left (List.mem_cons_of_mem d)
      | false =>
          cases runs with
          | nil =>
              simp only [fill, hd, Bool.false_eq_true, if_false, List.mem_cons] at h
              rcases h with rfl | h
              · exact Or.inl (by simp)
              · exact (ih h).imp_left (List.mem_cons_of_mem d)
          | cons run runs =>
              simp only [fill, hd, Bool.false_eq_true, if_false, List.mem_append] at h
              rcases h with h | h
              · exact Or.inr (by simp [h])
              · exact (ih h).imp (List.mem_cons_of_mem d) fun hmem => by simp [List.mem_flatten.mp hmem]

/-- The slots of singletons are filled one by one. -/
theorem Value.fillRuns_map_singleton {slots : List Component} (h : ∀ c ∈ slots, c.isTrivia = false)
    {runs : List (List Component)} (hlength : runs.length = slots.length) :
    fillRuns (slots.map ([·])) runs = runs := by
  induction slots generalizing runs with
  | nil =>
      obtain rfl := List.length_eq_zero_iff.mp hlength
      rfl
  | cons c slots ih =>
      have hc := h c (by simp)
      cases runs with
      | nil => contradiction
      | cons run runs =>
          have htail := ih (fun d hd => h d (by simp [hd])) (Nat.succ.inj hlength)
          simpa [fillRuns, fill, hc, slotsOf] using htail

theorem Value.fillRuns_append_runs {a runs : List (List Component)}
    (h : (slotsOf a.flatten).length ≤ runs.length) (more : List (List Component)) :
    fillRuns a (runs ++ more) = fillRuns a runs := by
  induction a generalizing runs with
  | nil => rfl
  | cons run a ih =>
      rw [List.flatten_cons, slotsOf_append, List.length_append] at h
      have hdrop : (slotsOf a.flatten).length ≤ (runs.drop (slotsOf run).length).length := by
        rw [List.length_drop]
        omega
      rw [fillRuns, fill_append_runs (by omega), List.drop_append_of_le_length (by omega), ih hdrop,
        fillRuns]

theorem Value.fillRuns_slotsOf (runs : List (List Component)) :
    fillRuns runs ((slotsOf runs.flatten).map ([·])) = runs := by
  induction runs with
  | nil => rfl
  | cons run runs ih =>
      rw [fillRuns, List.flatten_cons, slotsOf_append, List.map_append, fill_append_runs (by simp),
        fill_slotsOf, List.drop_left' (by simp), ih]

/-- One run for each slot, made of the slots and of blanks. -/
structure Slotwise (slots : List Component) (runs : List (List Component)) : Prop where
  length : runs.length = slots.length
  mem : ∀ c ∈ runs.flatten, c ∈ slots ∨ c = .leaf .whitespace [' ']

/-- What was rearranged ends where it ended before. -/
theorem Value.front_rearrange {f : List Component → List (List Component)} {value : Value}
    (hf : Slotwise (slots value) (f (slots value))) :
    front (rearrange f value) = fill (front value) (f (slots value)) ∧
      back (rearrange f value) = back value := by
  have hmark : ∀ c ∈ front value, c.isDelim '!' = false := by
    intro c hc
    simpa using List.all_eq_true.mp List.all_takeWhile c hc
  have hnew : ∀ c ∈ fill (front value) (f (slots value)), c.isDelim '!' = false := by
    intro c hc
    rcases mem_fill hc with hc | hc
    · exact hmark c hc
    rcases hf.mem c hc with hc | rfl
    · exact hmark c (List.mem_filter.mp hc).1
    · rfl
  exact front_append hnew (front_back value)

theorem Value.slots_rearrange {f : List Component → List (List Component)} {value : Value}
    (hf : Slotwise (slots value) (f (slots value))) :
    slots (rearrange f value) = slotsOf (f (slots value)).flatten := by
  rw [slots, (front_rearrange hf).1]
  exact slotsOf_fill hf.length.symm

theorem Value.not_isTrivia_of_mem_slots {value : Value} :
    ∀ c ∈ slots value, c.isTrivia = false := by
  intro c hc
  simpa using (List.mem_filter.mp hc).2

/-- Rearranging twice is rearranging once, run by run. -/
theorem Value.rearrange_rearrange {f g h : List Component → List (List Component)}
    (hf : ∀ slots, Slotwise slots (f slots))
    (hfg : ∀ slots, (∀ c ∈ slots, c.isTrivia = false) →
      fillRuns (f slots) (g (slotsOf (f slots).flatten)) = h slots) (value : Value) :
    rearrange g (rearrange f value) = rearrange h value := by
  obtain ⟨hfront, hback⟩ := front_rearrange (hf (slots value))
  rw [rearrange, slots_rearrange (hf (slots value)), hfront, hback,
    fill_fill (hf (slots value)).length.symm, hfg _ not_isTrivia_of_mem_slots, rearrange]

/-! ### Flipping twice -/

theorem slotwise_of_perm {slots new : List Component} (h : new.Perm slots) :
    Slotwise slots (new.map ([·])) where
  length := by rw [List.length_map, h.length_eq]
  mem c hc := by
    rw [← List.flatMap_def, List.flatMap_singleton'] at hc
    exact Or.inl (h.mem_iff.mp hc)

/-- An order that is its own inverse is undone by a second rearrangement. -/
theorem fillRuns_of_involutive {order : List Component → List Component}
    (horder : ∀ slots, order (order slots) = slots) (hperm : ∀ slots, (order slots).Perm slots)
    {slots : List Component} (h : ∀ c ∈ slots, c.isTrivia = false) :
    slotsOf ((order slots).map ([·])).flatten = order slots ∧
      fillRuns ((order slots).map ([·])) ((order (order slots)).map ([·])) = slots.map ([·]) := by
  have hnew : ∀ c ∈ order slots, c.isTrivia = false :=
    fun c hc => h c ((hperm slots).mem_iff.mp hc)
  constructor
  · rw [← List.flatMap_def, List.flatMap_singleton', slotsOf]
    exact List.filter_eq_self.mpr fun c hc => by simp [hnew c hc]
  · rw [horder]
    exact fillRuns_map_singleton hnew (by simp [(hperm slots).length_eq])

theorem slotwise_flipBox (slots : List Component) : Slotwise slots (flipBox slots) :=
  slotwise_of_perm (boxOrder_perm slots)

theorem fillRuns_flipBox (slots : List Component) (h : ∀ c ∈ slots, c.isTrivia = false) :
    fillRuns (flipBox slots) (flipBox (slotsOf (flipBox slots).flatten)) = slots.map ([·]) := by
  obtain ⟨hslots, hback⟩ := fillRuns_of_involutive boxOrder_boxOrder boxOrder_perm h
  rw [flipBox, hslots, flipBox, hback]

/-- Three corners with the fourth that they leave out, which is as the second. -/
def completeGroup : List Component → List (List Component)
  | [a, b, c] => [[a], [b], [c, .leaf .whitespace [' '], b]]
  | group => group.map ([·])

theorem completeGroup_eq {group : List Component} (h : group.length ≠ 3) :
    completeGroup group = group.map ([·]) := by
  unfold completeGroup
  split
  · simp at h
  · rfl

theorem slotwise_flipCornerGroup (group : List Component) :
    Slotwise group (flipCornerGroup group) := by
  by_cases hthree : group.length = 3
  · obtain ⟨a, b, c, rfl⟩ := List.length_eq_three.mp hthree
    refine ⟨rfl, fun x hx => ?_⟩
    have hmem : x ∈ [b, a, b, .leaf .whitespace [' '], c] := hx
    simp only [List.mem_cons, List.not_mem_nil, or_false] at hmem ⊢
    grind
  · rw [flipCornerGroup_eq hthree]
    exact slotwise_of_perm (groupOrder_perm group)

theorem slotwise_completeGroup (group : List Component) : Slotwise group (completeGroup group) := by
  by_cases hthree : group.length = 3
  · obtain ⟨a, b, c, rfl⟩ := List.length_eq_three.mp hthree
    refine ⟨rfl, fun x hx => ?_⟩
    have hmem : x ∈ [a, b, c, .leaf .whitespace [' '], b] := hx
    simp only [List.mem_cons, List.not_mem_nil, or_false] at hmem ⊢
    grind
  · rw [completeGroup_eq hthree]
    exact slotwise_of_perm (.refl group)

theorem fillRuns_flipCornerGroup (group : List Component) (h : ∀ c ∈ group, c.isTrivia = false) :
    fillRuns (flipCornerGroup group) (flipCornerGroup (slotsOf (flipCornerGroup group).flatten)) =
        completeGroup group ∧
      fillRuns (flipCornerGroup group) (completeGroup (slotsOf (flipCornerGroup group).flatten)) =
        flipCornerGroup group := by
  by_cases hthree : group.length = 3
  · obtain ⟨a, b, c, rfl⟩ := List.length_eq_three.mp hthree
    obtain ⟨ha, hb, hc⟩ : a.isTrivia = false ∧ b.isTrivia = false ∧ c.isTrivia = false := by
      simpa using h
    have hblank : (Component.leaf .whitespace [' ']).isTrivia = true := rfl
    have hslots : slotsOf (flipCornerGroup [a, b, c]).flatten = [b, a, b, c] := by
      show slotsOf [b, a, b, .leaf .whitespace [' '], c] = _
      simp [slotsOf, ha, hb, hc, hblank]
    rw [hslots]
    constructor
    · show fillRuns [[b], [a], [b, .leaf .whitespace [' '], c]] [[a], [b], [c], [b]] = _
      simp [fillRuns, fill, slotsOf, ha, hb, hc, hblank, completeGroup]
    · show fillRuns [[b], [a], [b, .leaf .whitespace [' '], c]] [[b], [a], [b], [c]] =
        [[b], [a], [b, .leaf .whitespace [' '], c]]
      simp [fillRuns, fill, slotsOf, ha, hb, hc, hblank]
  · obtain ⟨hslots, hback⟩ := fillRuns_of_involutive groupOrder_groupOrder groupOrder_perm h
    have hlength : (groupOrder group).length ≠ 3 := by rwa [(groupOrder_perm group).length_eq]
    rw [flipCornerGroup_eq hthree]
    constructor
    · rw [hslots, flipCornerGroup_eq hlength, hback, completeGroup_eq hthree]
    · rw [hslots, completeGroup_eq hlength]
      conv => lhs; arg 2; rw [← hslots]
      exact fillRuns_slotsOf _

theorem slotwise_byGroups {f : List Component → List (List Component)}
    (hf : ∀ group, Slotwise group (f group)) (slots : List Component) :
    Slotwise slots (byGroups f slots) := by
  induction slots using slashInduction with
  | plain group hgroup =>
      rw [byGroups_of_plain f hgroup]
      exact hf group
  | cut group rest hgroup ih =>
      rw [byGroups_cut f hgroup]
      constructor
      · rw [List.length_append, List.length_cons, ih.length, (hf group).length, List.length_append,
          List.length_cons]
      · intro c hc
        rw [List.flatten_append, List.flatten_cons, List.mem_append, List.singleton_append,
          List.mem_cons] at hc
        rcases hc with hc | rfl | hc
        · exact ((hf group).mem c hc).imp_left (List.mem_append_left _)
        · exact Or.inl (by simp)
        · exact (ih.mem c hc).imp_left fun hmem => by simp [hmem]

/-- What two rearrangements do to every group, they do to all groups. -/
theorem fillRuns_byGroups {f g h : List Component → List (List Component)}
    (hf : ∀ group, Slotwise group (f group)) (hg : ∀ group, Slotwise group (g group))
    (hfg : ∀ group, (∀ c ∈ group, c.isTrivia = false) →
      fillRuns (f group) (g (slotsOf (f group).flatten)) = h group)
    (slots : List Component) (hslots : ∀ c ∈ slots, c.isTrivia = false) :
    fillRuns (byGroups f slots) (byGroups g (slotsOf (byGroups f slots).flatten)) =
      byGroups h slots := by
  have hplain : ∀ group : List Component, (∀ c ∈ group, c.isDelim '/' = false) →
      ∀ c ∈ slotsOf (f group).flatten, c.isDelim '/' = false := by
    intro group hgroup c hc
    rcases (hf group).mem c (List.mem_filter.mp hc).1 with hc | rfl
    · exact hgroup c hc
    · rfl
  induction slots using slashInduction with
  | plain group hgroup =>
      rw [byGroups_of_plain f hgroup, byGroups_of_plain g (hplain group hgroup),
        byGroups_of_plain h hgroup, hfg group hslots]
  | cut group rest hgroup ih =>
      have hrest := ih fun c hc => hslots c (by simp [hc])
      have hfirst := hfg group fun c hc => hslots c (by simp [hc])
      have hlength := (hg (slotsOf (f group).flatten)).length
      have hslash : slotsOf ([slash] : Value) = [slash] := rfl
      rw [byGroups_cut f hgroup, List.flatten_append, List.flatten_cons, slotsOf_append,
        slotsOf_append, hslash, List.singleton_append, byGroups_cut g (hplain group hgroup),
        byGroups_cut h hgroup, fillRuns_append, fillRuns_append_runs (Nat.le_of_eq hlength.symm),
        List.drop_left' hlength, hfirst, fillRuns, hslash, ← hrest]
      rfl

namespace Shorthand

/-- The value that two flips of a shorthand lead to: every list of three corners has a fourth. -/
def settle : Shorthand → Value → Value
  | .box => id
  | .corners => rearrange (byGroups completeGroup)

theorem flip_flip (shorthand : Shorthand) (value : Value) :
    shorthand.flip (shorthand.flip value) = shorthand.settle value := by
  rw [flip_eq_rearrange, flip_eq_rearrange]
  cases shorthand with
  | box =>
      exact (rearrange_rearrange slotwise_flipBox fillRuns_flipBox value).trans
        (rearrange_map_singleton value)
  | corners =>
      refine rearrange_rearrange (slotwise_byGroups slotwise_flipCornerGroup) ?_ value
      exact fillRuns_byGroups slotwise_flipCornerGroup slotwise_flipCornerGroup
        fun group hgroup => (fillRuns_flipCornerGroup group hgroup).1

theorem settle_flip (shorthand : Shorthand) (value : Value) :
    shorthand.settle (shorthand.flip value) = shorthand.flip value := by
  rw [flip_eq_rearrange]
  cases shorthand with
  | box => rfl
  | corners =>
      refine rearrange_rearrange (slotwise_byGroups slotwise_flipCornerGroup) ?_ value
      exact fillRuns_byGroups slotwise_flipCornerGroup slotwise_completeGroup
        fun group hgroup => (fillRuns_flipCornerGroup group hgroup).2

end Shorthand

/-- Slots stay as they are if each group of them does. -/
theorem byGroups_eq_map {f : List Component → List (List Component)} {slots : List Component}
    (h : ∀ group ∈ groupsAt '/' slots, f group = group.map ([·])) :
    byGroups f slots = slots.map ([·]) := by
  induction slots using slashInduction with
  | plain group hgroup =>
      rw [groupsAt_of_plain hgroup, List.forall_mem_singleton] at h
      rw [byGroups_of_plain _ hgroup, h]
  | cut group rest hgroup ih =>
      rw [groupsAt_cut hgroup, List.forall_mem_cons] at h
      rw [byGroups_cut _ hgroup, List.map_append, List.map_cons, ih h.2, h.1]

theorem Shorthand.settle_of_admits {shorthand : Shorthand} {value : Value}
    (h : shorthand.admits value = true) : shorthand.settle value = value := by
  cases shorthand with
  | box => rfl
  | corners =>
      rw [admits, Bool.and_eq_true, Bool.and_eq_true] at h
      have hgroups : ∀ group ∈ groupsAt '/' (slots value), completeGroup group = group.map ([·]) := by
        intro group hgroup
        apply completeGroup_eq
        simpa using List.all_eq_true.mp h.2 group hgroup
      rw [settle, rearrange, byGroups_eq_map hgroups]
      exact rearrange_map_singleton value

/-! ### Flipping a shorthand commutes with replacing leaves -/

/-- A replacement of components that leaves blanks, comments and delimiters alone. -/
structure Component.Keeps (g : Component → Component) : Prop where
  trivia (c : Component) : (g c).isTrivia = c.isTrivia
  delim (c : Component) (mark : Char) : (g c).isDelim mark = c.isDelim mark
  blank : g (.leaf .whitespace [' ']) = .leaf .whitespace [' ']

section Keeps

variable {g : Component → Component}

theorem Component.Keeps.slash (hg : Component.Keeps g) : g StyleFlip.slash = StyleFlip.slash :=
  eq_slash_of_isDelim (hg.delim _ _)

theorem flipBox_map (g : Component → Component) (slots : List Component) :
    flipBox (slots.map g) = (flipBox slots).map (List.map g) := by
  match slots with
  | [] => rfl
  | [_] => rfl
  | [_, _] => rfl
  | [_, _, _] => rfl
  | [_, _, _, _] => rfl
  | a :: b :: c :: d :: e :: rest => simp [flipBox, boxOrder]

theorem flipCornerGroup_map (hg : Component.Keeps g) (group : List Component) :
    flipCornerGroup (group.map g) = (flipCornerGroup group).map (List.map g) := by
  match group with
  | [] => rfl
  | [_] => rfl
  | [_, _] => rfl
  | [a, b, c] =>
      show [[g b], [g a], [g b, .leaf .whitespace [' '], g c]] =
        [[g b], [g a], [g b, g (.leaf .whitespace [' ']), g c]]
      rw [hg.blank]
  | [_, _, _, _] => rfl
  | a :: b :: c :: d :: e :: rest => simp [flipCornerGroup]

theorem flipCorners_map (hg : Component.Keeps g) (slots : List Component) :
    flipCorners (slots.map g) = (flipCorners slots).map (List.map g) := by
  have hplain : ∀ group : List Component, (∀ c ∈ group, c.isDelim '/' = false) →
      ∀ c ∈ group.map g, c.isDelim '/' = false := by
    intro group hgroup c hc
    obtain ⟨d, hd, rfl⟩ := List.mem_map.mp hc
    rw [hg.delim, hgroup d hd]
  induction slots using slashInduction with
  | plain group hgroup =>
      rw [flipCorners_of_plain hgroup, flipCorners_of_plain (hplain group hgroup),
        flipCornerGroup_map hg]
  | cut group rest hgroup ih =>
      rw [List.map_append, List.map_cons, hg.slash, flipCorners_cut hgroup,
        flipCorners_cut (hplain group hgroup), flipCornerGroup_map hg, ih, List.map_append,
        List.map_cons, List.map_singleton, hg.slash]

theorem Value.fill_map (hg : Component.Keeps g) (value : Value) (runs : List (List Component)) :
    fill (value.map g) (runs.map (List.map g)) = (fill value runs).map g := by
  induction value generalizing runs with
  | nil => rfl
  | cons c value ih =>
      cases hc : c.isTrivia with
      | true => simp [fill, hg.trivia, hc, ih]
      | false =>
          cases runs with
          | nil => simp
          | cons run runs => simp [fill, hg.trivia, hc, ih]

theorem Value.front_map (hg : Component.Keeps g) (value : Value) :
    front (value.map g) = (front value).map g := by
  have hmark : (fun c : Component => !c.isDelim '!') ∘ g = fun c => !c.isDelim '!' := by
    funext c
    simp [hg.delim]
  rw [front, List.takeWhile_map, hmark, front]

theorem Value.back_map (hg : Component.Keeps g) (value : Value) :
    back (value.map g) = (back value).map g := by
  have hmark : (fun c : Component => !c.isDelim '!') ∘ g = fun c => !c.isDelim '!' := by
    funext c
    simp [hg.delim]
  rw [back, List.dropWhile_map, hmark, back]

theorem Value.slots_map (hg : Component.Keeps g) (value : Value) :
    slots (value.map g) = (slots value).map g := by
  have htrivia : (fun c : Component => !c.isTrivia) ∘ g = fun c => !c.isTrivia := by
    funext c
    simp [hg.trivia]
  rw [slots, front_map hg, List.filter_map, htrivia, slots]

theorem Value.rearrange_map (hg : Component.Keeps g) {f : List Component → List (List Component)}
    (hf : ∀ slots, f (slots.map g) = (f slots).map (List.map g)) (value : Value) :
    rearrange f (value.map g) = (rearrange f value).map g := by
  rw [rearrange, front_map hg, back_map hg, slots_map hg, hf, fill_map hg, rearrange,
    List.map_append]

theorem Shorthand.flip_map (hg : Component.Keeps g) (shorthand : Shorthand) (value : Value) :
    shorthand.flip (value.map g) = (shorthand.flip value).map g := by
  rw [flip_eq_rearrange, flip_eq_rearrange]
  cases shorthand with
  | box => exact rearrange_map hg (flipBox_map g) value
  | corners => exact rearrange_map hg (flipCorners_map hg) value

end Keeps

theorem Component.keeps_mapLeaves (enter : Text → Bool) {f : LeafKind → Text → Text}
    (hf : ∀ kind text, kind = .whitespace ∨ kind = .delim → f kind text = text) :
    Component.Keeps (Component.mapLeaves enter f) where
  trivia c := by
    cases c with
    | function => rfl
    | leaf kind text => cases kind <;> rfl
  delim c mark := by
    cases c with
    | function => rfl
    | leaf kind text =>
        cases kind with
        | delim => rw [mapLeaves, hf _ _ (Or.inr rfl)]
        | _ => rfl
  blank := by rw [mapLeaves, hf _ _ (Or.inl rfl)]

theorem Shorthand.flip_flipUrls (shorthand : Shorthand) (value : Value) :
    shorthand.flip (Value.flipUrls value) = Value.flipUrls (shorthand.flip value) := by
  have hkeeps : Component.Keeps (Component.mapLeaves (fun _ => true)
      fun kind text => if kind = .url then flipUrl text else text) := by
    refine Component.keeps_mapLeaves _ fun kind text hkind => ?_
    rcases hkind with rfl | rfl <;> rfl
  rw [Value.flipUrls, Component.mapLeavesAll_eq_map, flip_map hkeeps,
    ← Component.mapLeavesAll_eq_map, Value.flipUrls]

end StyleFlip
