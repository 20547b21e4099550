import StyleFlip.Proofs.Frame

/-!
# Shorthands show a box from the other side

One to four components say what the four sides of a box show, or its four corners. Flipping a
shorthand exchanges left and right in what they say, list by list (`Shorthand.ofSlots?_order`). It
moves components between slots only: blanks and comments stay in their order, with one space more
for every list of three corners, which becomes a list of four, and nothing from the exclamation mark
on is touched.
-/

namespace StyleFlip

open Component Value

/-- What the sides of a box show, clockwise from the top, or its corners, clockwise from the top
left. -/
structure Around where
  first : Component
  second : Component
  third : Component
  fourth : Component
deriving DecidableEq

/-- What is left out is as what stands opposite to it. -/
def Around.ofSlots? : List Component → Option Around
  | [a] => some ⟨a, a, a, a⟩
  | [a, b] => some ⟨a, b, a, b⟩
  | [a, b, c] => some ⟨a, b, c, b⟩
  | [a, b, c, d] => some ⟨a, b, c, d⟩
  | _ => none

namespace Shorthand

def mirror : Shorthand → Around → Around
  | .box, ⟨top, right, bottom, left⟩ => ⟨top, left, bottom, right⟩
  | .corners, ⟨topLeft, topRight, bottomRight, bottomLeft⟩ =>
    ⟨topRight, topLeft, bottomLeft, bottomRight⟩

/-- The lists of sides or corners in a value. -/
def lists : Shorthand → Value → List (List Component)
  | .box, value => [slots value]
  | .corners, value => groupsAt '/' (slots value)

/-- Whether the flipped list has one component more. -/
def grows : Shorthand → List Component → Bool
  | .box, _ => false
  | .corners, list => list.length == 3

/-- The slots of a flipped list. -/
def order : Shorthand → List Component → List Component
  | .box, list => boxOrder list
  | .corners, [a, b, c] => [b, a, b, c]
  | .corners, list => groupOrder list

/-! ### One list -/

/-- The flipped list shows the box from the other side. -/
theorem ofSlots?_order (shorthand : Shorthand) (list : List Component) :
    Around.ofSlots? (shorthand.order list) = (Around.ofSlots? list).map shorthand.mirror := by
  cases shorthand <;>
  · match list with
    | [] => rfl
    | [_] => rfl
    | [_, _] => rfl
    | [_, _, _] => rfl
    | [_, _, _, _] => rfl
    | _ :: _ :: _ :: _ :: _ :: _ => rfl

theorem order_of_length (shorthand : Shorthand) {list : List Component}
    (h : list.length = 0 ∨ 4 < list.length) : shorthand.order list = list := by
  cases shorthand <;>
  · match list with
    | [] => rfl
    | [_] => simp at h
    | [_, _] => simp at h
    | [_, _, _] => simp at h
    | [_, _, _, _] => simp at h
    | _ :: _ :: _ :: _ :: _ :: _ => rfl

/-- A list is flipped to itself if it reads the same from the other side and does not grow. -/
theorem order_eq_self_iff (shorthand : Shorthand) (list : List Component) :
    shorthand.order list = list ↔ shorthand.grows list = false ∧
      ∀ around, Around.ofSlots? list = some around → shorthand.mirror around = around := by
  cases shorthand with
  | box =>
      match list with
      | [] => simp [order, boxOrder, grows, Around.ofSlots?]
      | [_] => simp [order, boxOrder, grows, Around.ofSlots?, mirror]
      | [_, _] => simp [order, boxOrder, grows, Around.ofSlots?, mirror]
      | [_, _, _] => simp [order, boxOrder, grows, Around.ofSlots?, mirror]
      | [_, _, _, _] => simp [order, boxOrder, grows, Around.ofSlots?, mirror]
      | _ :: _ :: _ :: _ :: _ :: _ => simp [order, boxOrder, grows, Around.ofSlots?]
  | corners =>
      match list with
      | [] => simp [order, groupOrder, grows, Around.ofSlots?]
      | [_] => simp [order, groupOrder, grows, Around.ofSlots?, mirror]
      | [a, b] => simp [order, groupOrder, grows, Around.ofSlots?, mirror, eq_comm (a := a)]
      | [_, _, _] => simp [order, grows]
      | [_, _, _, _] => simp [order, groupOrder, grows, Around.ofSlots?, mirror]
      | _ :: _ :: _ :: _ :: _ :: _ => simp [order, groupOrder, grows, Around.ofSlots?]

/-! ### All lists of a value -/

theorem slotsOf_flipBox {list : List Component} (h : ∀ c ∈ list, c.isTrivia = false) :
    slotsOf (flipBox list).flatten = order .box list :=
  (fillRuns_of_involutive boxOrder_boxOrder boxOrder_perm h).1

theorem order_corners_of_ne_three {group : List Component} (h : group.length ≠ 3) :
    order .corners group = groupOrder group := by
  rw [order]
  intro a b c heq
  simp [heq] at h

theorem slotsOf_flipCornerGroup {group : List Component} (h : ∀ c ∈ group, c.isTrivia = false) :
    slotsOf (flipCornerGroup group).flatten = order .corners group := by
  by_cases hthree : group.length = 3
  · obtain ⟨a, b, c, rfl⟩ := List.length_eq_three.mp hthree
    obtain ⟨ha, hb, hc⟩ : a.isTrivia = false ∧ b.isTrivia = false ∧ c.isTrivia = false := by
      simpa using h
    have hblank : isTrivia (.leaf .whitespace [' ']) = true := rfl
    show slotsOf [b, a, b, .leaf .whitespace [' '], c] = [b, a, b, c]
    simp [slotsOf, ha, hb, hc, hblank]
  · rw [flipCornerGroup_eq hthree, order_corners_of_ne_three hthree]
    exact (fillRuns_of_involutive groupOrder_groupOrder groupOrder_perm h).1

theorem groupsAt_flipCorners {slots : List Component} (h : ∀ c ∈ slots, c.isTrivia = false) :
    groupsAt '/' (slotsOf (flipCorners slots).flatten) =
      (groupsAt '/' slots).map (order .corners) := by
  have hplain : ∀ group : List Component, (∀ c ∈ group, c.isDelim '/' = false) →
      ∀ c ∈ slotsOf (flipCornerGroup group).flatten, c.isDelim '/' = false := by
    intro group hgroup c hc
    rcases (slotwise_flipCornerGroup group).mem c (List.mem_filter.mp hc).1 with hc | rfl
    · exact hgroup c hc
    · rfl
  induction slots using slashInduction with
  | plain group hgroup =>
      rw [flipCorners_of_plain hgroup, groupsAt_of_plain (hplain group hgroup),
        groupsAt_of_plain hgroup, slotsOf_flipCornerGroup h]
      rfl
  | cut group rest hgroup ih =>
      have hslash : slotsOf ([slash] : Value) = [slash] := rfl
      have hfirst : ∀ c ∈ group, c.isTrivia = false := fun c hc => h c (by simp [hc])
      rw [flipCorners_cut hgroup, List.flatten_append, List.flatten_cons, slotsOf_append,
        slotsOf_append, hslash, List.singleton_append, groupsAt_cut (hplain group hgroup),
        groupsAt_cut hgroup, ih fun c hc => h c (by simp [hc]),
        slotsOf_flipCornerGroup hfirst, List.map_cons]

theorem slotwise_runs (shorthand : Shorthand) (slots : List Component) :
    Slotwise slots (shorthand.runs slots) := by
  cases shorthand with
  | box => exact slotwise_flipBox slots
  | corners => exact slotwise_byGroups slotwise_flipCornerGroup slots

/-- A flip keeps the lists of a value and shows each of them in its new order. -/
theorem lists_flip (shorthand : Shorthand) (value : Value) :
    shorthand.lists (shorthand.flip value) = (shorthand.lists value).map shorthand.order := by
  have hslots := slots_rearrange (shorthand.slotwise_runs (slots value))
  rw [← flip_eq_rearrange] at hslots
  cases shorthand with
  | box =>
      rw [lists, hslots, runs, slotsOf_flipBox not_isTrivia_of_mem_slots]
      rfl
  | corners =>
      rw [lists, hslots]
      exact groupsAt_flipCorners not_isTrivia_of_mem_slots

theorem flip_eq_self_iff (shorthand : Shorthand) (value : Value) :
    shorthand.flip value = value ↔ ∀ list ∈ shorthand.lists value, shorthand.order list = list := by
  constructor
  · intro hsame
    have hlists := shorthand.lists_flip value
    rw [hsame] at hlists
    apply List.map_inj_left.mp
    rw [← hlists, List.map_id']
  · intro hlists
    have hruns : shorthand.runs (slots value) = (slots value).map ([·]) := by
      cases shorthand with
      | box =>
          rw [lists, List.forall_mem_singleton] at hlists
          rw [runs, flipBox]
          exact congrArg (List.map ([·])) hlists
      | corners =>
          apply byGroups_eq_map
          intro group hgroup
          have horder := hlists group hgroup
          have hthree : group.length ≠ 3 := by
            simpa [grows] using ((order_eq_self_iff .corners group).mp horder).1
          rw [flipCornerGroup_eq hthree, ← order_corners_of_ne_three hthree, horder]
    rw [flip_eq_rearrange, rearrange, hruns]
    exact rearrange_map_singleton value

end Shorthand

/-! ### Blanks and comments -/

/-- The blanks and comments of a value in front of the exclamation mark. -/
def Value.gaps (value : Value) : List Component := (front value).filter isTrivia

theorem Value.sublist_filter_fill (value : Value) (runs : List (List Component)) :
    (value.filter isTrivia).Sublist ((fill value runs).filter isTrivia) := by
  induction value generalizing runs with
  | nil => exact .slnil
  | cons c value ih =>
      cases hc : c.isTrivia with
      | true => simpa [fill, hc] using ih runs
      | false =>
          cases runs with
          | nil => simp
          | cons run runs =>
              rw [List.filter_cons_of_neg (by simp [hc])]
              simp only [fill, hc, Bool.false_eq_true, if_false, List.filter_append]
              exact (ih runs).trans (List.sublist_append_right _ _)

namespace Shorthand

theorem filter_isTrivia_flipCornerGroup {group : List Component}
    (h : ∀ c ∈ group, c.isTrivia = false) :
    (flipCornerGroup group).flatten.filter isTrivia =
      List.replicate ([group].countP (grows .corners)) (.leaf .whitespace [' ']) := by
  by_cases hthree : group.length = 3
  · obtain ⟨a, b, c, rfl⟩ := List.length_eq_three.mp hthree
    obtain ⟨ha, hb, hc⟩ : a.isTrivia = false ∧ b.isTrivia = false ∧ c.isTrivia = false := by
      simpa using h
    have hblank : isTrivia (.leaf .whitespace [' ']) = true := rfl
    show [b, a, b, .leaf .whitespace [' '], c].filter isTrivia = [.leaf .whitespace [' ']]
    simp [ha, hb, hc, hblank]
  · have hcount : [group].countP (grows .corners) = 0 := by simp [grows, hthree]
    rw [flipCornerGroup_eq hthree, ← List.flatMap_def, List.flatMap_singleton', hcount,
      List.replicate_zero, List.filter_eq_nil_iff]
    intro c hc
    simp [h c ((groupOrder_perm group).mem_iff.mp hc)]

theorem filter_isTrivia_flipCorners {slots : List Component} (h : ∀ c ∈ slots, c.isTrivia = false) :
    (flipCorners slots).flatten.filter isTrivia =
      List.replicate ((groupsAt '/' slots).countP (grows .corners)) (.leaf .whitespace [' ']) := by
  induction slots using slashInduction with
  | plain group hgroup =>
      rw [flipCorners_of_plain hgroup, groupsAt_of_plain hgroup]
      exact filter_isTrivia_flipCornerGroup h
  | cut group rest hgroup ih =>
      have hslash : ([slash] : Value).filter isTrivia = [] := rfl
      have hfirst : ∀ c ∈ group, c.isTrivia = false := fun c hc => h c (by simp [hc])
      have hcount : (group :: groupsAt '/' rest).countP (grows .corners) =
          [group].countP (grows .corners) + (groupsAt '/' rest).countP (grows .corners) := by
        rw [← List.countP_append, List.singleton_append]
      rw [flipCorners_cut hgroup, groupsAt_cut hgroup, hcount, List.replicate_add,
        List.flatten_append, List.flatten_cons, List.filter_append, List.filter_append, hslash,
        filter_isTrivia_flipCornerGroup hfirst, ih fun c hc => h c (by simp [hc])]
      rfl

theorem filter_isTrivia_runs (shorthand : Shorthand) (value : Value) :
    (shorthand.runs (slots value)).flatten.filter isTrivia =
      List.replicate ((shorthand.lists value).countP shorthand.grows)
        (.leaf .whitespace [' ']) := by
  have hslots : ∀ c ∈ slots value, c.isTrivia = false := not_isTrivia_of_mem_slots
  cases shorthand with
  | box =>
      have hcount : (lists .box value).countP (grows .box) = 0 := rfl
      rw [runs, flipBox, ← List.flatMap_def, List.flatMap_singleton', hcount,
        List.replicate_zero, List.filter_eq_nil_iff]
      intro c hc
      simp [hslots c ((boxOrder_perm (slots value)).mem_iff.mp hc)]
  | corners => exact filter_isTrivia_flipCorners hslots

/-- Blanks and comments keep their order, and a space is added for each list that grows. -/
theorem gaps_flip (shorthand : Shorthand) (value : Value) :
    (gaps value).Sublist (gaps (shorthand.flip value)) ∧
      (gaps (shorthand.flip value)).Perm
        (gaps value ++ List.replicate ((shorthand.lists value).countP shorthand.grows)
          (.leaf .whitespace [' '])) := by
  have hrun := shorthand.slotwise_runs (slots value)
  rw [flip_eq_rearrange, gaps, gaps, (front_rearrange hrun).1]
  constructor
  · exact sublist_filter_fill (front value) _
  · have hperm := (fill_perm (front value) hrun.length.symm).filter isTrivia
    simp only [List.filter_append, List.filter_filter, Bool.and_self, filter_isTrivia_runs] at hperm
    exact hperm

end Shorthand

/-! ### The whole value -/

/-- A list of sides or corners and the list that it is flipped to. -/
structure Shorthand.Mirrors (shorthand : Shorthand) (old new : List Component) : Prop where
  around : Around.ofSlots? new = (Around.ofSlots? old).map shorthand.mirror
  /-- A list that is empty or too long says nothing about the box. -/
  other : old.length = 0 ∨ 4 < old.length → new = old

/-- Flipping a shorthand shows the box from the other side: the value keeps its lists of sides or
corners, and each of them says of every side or corner what the old one said of its counterpart. A
box changes only if it has four slots. Blanks and comments keep their order, with a space more for
every list of three corners, and all from the exclamation mark on stays. A change is noted if there
is one, and there is none just if no list grows and each reads the same from the other side. -/
theorem Shorthand.flip_mirrors (shorthand : Shorthand) (value : Value) :
    List.Forall₂ shorthand.Mirrors (shorthand.lists value)
        (shorthand.lists (shorthand.flip value)) ∧
      (shorthand = .box → (slots value).length ≠ 4 → shorthand.flip value = value) ∧
      (gaps value).Sublist (gaps (shorthand.flip value)) ∧
      (gaps (shorthand.flip value)).Perm
        (gaps value ++ List.replicate ((shorthand.lists value).countP shorthand.grows)
          (.leaf .whitespace [' '])) ∧
      back (shorthand.flip value) = back value ∧
      (shorthand.moves value = false ↔ shorthand.flip value = value) ∧
      (shorthand.flip value = value ↔ ∀ list ∈ shorthand.lists value,
        shorthand.grows list = false ∧
          ∀ around, Around.ofSlots? list = some around → shorthand.mirror around = around) := by
  obtain ⟨horder, hadded⟩ := shorthand.gaps_flip value
  refine ⟨?_, ?_, horder, hadded, ?_, ?_, ?_⟩
  · rw [lists_flip, List.forall₂_map_right_iff, List.forall₂_same]
    intro list _
    exact ⟨shorthand.ofSlots?_order list, shorthand.order_of_length⟩
  · rintro rfl hlength
    rw [flip_eq_self_iff, lists, List.forall_mem_singleton, order]
    exact boxOrder_of_length_ne_four hlength
  · rw [flip_eq_rearrange]
    exact (front_rearrange (shorthand.slotwise_runs (slots value))).2
  · exact shorthand.tells_moves value
  · rw [flip_eq_self_iff]
    apply forall₂_congr
    intro list _
    exact shorthand.order_eq_self_iff list

/-- Three corners say the same from the other side if there are four of them. -/
example :
    Shorthand.flip .corners [.leaf .number ['1'], .leaf .whitespace ['\t'], .leaf .number ['2'],
      .leaf .whitespace ['\n'], .leaf .number ['3'], .leaf .delim ['!']] =
      [.leaf .number ['2'], .leaf .whitespace ['\t'], .leaf .number ['1'],
        .leaf .whitespace ['\n'], .leaf .number ['2'], .leaf .whitespace [' '],
        .leaf .number ['3'], .leaf .delim ['!']] := by
  decide

end StyleFlip
