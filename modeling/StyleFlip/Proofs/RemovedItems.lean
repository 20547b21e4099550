import StyleFlip.Proofs.Interchange

/-!
# What cleaning removes, position by position

Cleaning reads a list once and removes as it goes. What it removes can be told from the list as it
was: every direction marker that speaks about an item, the blanks between the two, and the item too
if the marker names the other direction (`strip_eq_dropAt`). Markers do not act on each other,
however they are stacked. So an item with a marker is kept for one direction and removed for the
other, and an item without one is kept for both.
-/

namespace StyleFlip

/-! ### Positions in a list -/

section Positions

variable {α : Type} (p : Nat → Prop) [DecidablePred p]

/-- The list without the members at some positions. -/
def dropAt (items : List α) : List α :=
  (items.zipIdx.filter fun entry => !decide (p entry.2)).map (·.1)

variable {p}

theorem dropAt_cons (a : α) (items : List α) :
    dropAt p (a :: items) =
      if p 0 then dropAt (fun j => p (j + 1)) items
      else a :: dropAt (fun j => p (j + 1)) items := by
  have hrest : (((items.zipIdx 1).filter fun entry => !decide (p entry.2)).map (·.1)) =
      dropAt (fun j => p (j + 1)) items := by
    rw [List.zipIdx_succ, List.filter_map, List.map_map]
    rfl
  by_cases hzero : p 0
  · simpa [dropAt, hzero] using hrest
  · simpa [dropAt, hzero] using hrest

theorem dropAt_of_forall_not (items : List α) (h : ∀ j, ¬ p j) : dropAt p items = items := by
  simp [dropAt, h]

theorem dropAt_sublist (items : List α) : (dropAt p items).Sublist items := by
  have hkept : (items.zipIdx.filter fun entry => !decide (p entry.2)).Sublist items.zipIdx :=
    List.filter_sublist
  simpa [dropAt] using hkept.map (·.1)

theorem length_dropAt_lt {items : List α} {j : Nat} (hj : j < items.length) (h : p j) :
    (dropAt p items).length < items.length := by
  have hmem : (items[j], j) ∈ items.zipIdx := by simp [List.mem_zipIdx_iff_getElem?]
  have hlt := List.length_filter_lt_length_iff_exists
    (l := items.zipIdx) (p := fun entry => !decide (p entry.2))
  simpa [dropAt] using hlt.mpr ⟨_, hmem, by simpa using h⟩

end Positions

/-! ### Markers and the positions they act on -/

/-- The direction marker at position `i` speaks about the item at position `t`, which is the next
after it that is no blank. -/
structure Speaks (roles : List Role) (i t : Nat) (marked : Direction) : Prop where
  marker : roles[i]? = some (.note (some (.only marked)))
  before : i < t
  blanks : ∀ j, j < t → i < j → roles[j]? = some .blank
  target : roles[t]? = some .target

instance (roles : List Role) (i t : Nat) (marked : Direction) :
    Decidable (Speaks roles i t marked) :=
  decidable_of_iff
    (roles[i]? = some (.note (some (.only marked))) ∧ i < t ∧
      (∀ j, j < t → i < j → roles[j]? = some .blank) ∧ roles[t]? = some .target)
    ⟨fun ⟨hmarker, hbefore, hblanks, htarget⟩ => ⟨hmarker, hbefore, hblanks, htarget⟩,
      fun h => ⟨h.marker, h.before, h.blanks, h.target⟩⟩

/-- Cleaning for a direction removes what is at position `j`: a marker that speaks about an item, a
blank between the two, or the item of a marker for the other direction. -/
def Removed (d : Direction) (roles : List Role) (j : Nat) : Prop :=
  ∃ i t marked, Speaks roles i t marked ∧ i ≤ j ∧ (j < t ∨ j = t ∧ marked = d.opposite)

/-- Nothing but blanks comes before position `t`, where there is an item. -/
structure TargetAt (roles : List Role) (t : Nat) : Prop where
  blanks : ∀ j, j < t → roles[j]? = some .blank
  target : roles[t]? = some .target

theorem targetAt_cons_target {roles : List Role} {t : Nat} :
    TargetAt (.target :: roles) t ↔ t = 0 := by
  constructor
  · intro h
    by_contra hpos
    have hblank := h.blanks 0 (by omega)
    simp at hblank
  · rintro rfl
    exact ⟨by simp, rfl⟩

theorem targetAt_cons_blank {roles : List Role} {t : Nat} :
    TargetAt (.blank :: roles) t ↔ ∃ s, t = s + 1 ∧ TargetAt roles s := by
  constructor
  · intro h
    cases t with
    | zero => simpa using h.target
    | succ s =>
        refine ⟨s, rfl, fun j hj => ?_, by simpa using h.target⟩
        simpa using h.blanks (j + 1) (by omega)
  · rintro ⟨s, rfl, h⟩
    refine ⟨fun j hj => ?_, by simpa using h.target⟩
    cases j with
    | zero => rfl
    | succ j => simpa using h.blanks j (by omega)

theorem not_targetAt_cons {r : Role} {roles : List Role} {t : Nat} (hblank : r ≠ .blank)
    (htarget : r ≠ .target) : ¬ TargetAt (r :: roles) t := by
  intro h
  cases t with
  | zero => exact htarget (by simpa using h.target)
  | succ t => exact hblank (by simpa using h.blanks 0 (by omega))

theorem speaks_cons_succ {r : Role} {roles : List Role} {i t : Nat} {marked : Direction} :
    Speaks (r :: roles) (i + 1) (t + 1) marked ↔ Speaks roles i t marked := by
  constructor
  · intro h
    refine ⟨by simpa using h.marker, by simpa using h.before, fun j hj hij => ?_,
      by simpa using h.target⟩
    simpa using h.blanks (j + 1) (by omega) (by omega)
  · intro h
    refine ⟨by simpa using h.marker, by simpa using h.before, fun j hj hij => ?_,
      by simpa using h.target⟩
    obtain ⟨j, rfl⟩ := Nat.exists_eq_add_one_of_ne_zero (show j ≠ 0 by omega)
    simpa using h.blanks j (by omega) (by omega)

theorem speaks_cons_zero {r : Role} {roles : List Role} {t : Nat} {marked : Direction} :
    Speaks (r :: roles) 0 (t + 1) marked ↔ r.only? = some marked ∧ TargetAt roles t := by
  constructor
  · intro h
    have hr : r = .note (some (.only marked)) := by simpa using h.marker
    refine ⟨by rw [hr]; rfl, fun j hj => ?_, by simpa using h.target⟩
    simpa using h.blanks (j + 1) (by omega) (by omega)
  · rintro ⟨honly, h⟩
    refine ⟨by simpa using eq_note_of_only? honly, by omega, fun j hj hpos => ?_,
      by simpa using h.target⟩
    obtain ⟨j, rfl⟩ := Nat.exists_eq_add_one_of_ne_zero (show j ≠ 0 by omega)
    simpa using h.blanks j (by omega)

theorem removed_cons_zero {d : Direction} {r : Role} {roles : List Role} :
    Removed d (r :: roles) 0 ↔ (∃ marked, r.only? = some marked) ∧ ∃ t, TargetAt roles t := by
  constructor
  · rintro ⟨i, t, marked, h, hi, -⟩
    obtain rfl : i = 0 := by omega
    obtain ⟨t, rfl⟩ := Nat.exists_eq_add_one_of_ne_zero (Nat.ne_zero_of_lt h.before)
    obtain ⟨honly, htarget⟩ := speaks_cons_zero.mp h
    exact ⟨⟨marked, honly⟩, t, htarget⟩
  · rintro ⟨⟨marked, honly⟩, t, htarget⟩
    exact ⟨0, t + 1, marked, speaks_cons_zero.mpr ⟨honly, htarget⟩, by omega, by omega⟩

theorem removed_cons_succ {d : Direction} {r : Role} {roles : List Role} {j : Nat} :
    Removed d (r :: roles) (j + 1) ↔
      (∃ marked t, r.only? = some marked ∧ TargetAt roles t ∧
        (j < t ∨ j = t ∧ marked = d.opposite)) ∨ Removed d roles j := by
  constructor
  · rintro ⟨i, t, marked, h, hi, hj⟩
    obtain ⟨t, rfl⟩ := Nat.exists_eq_add_one_of_ne_zero (Nat.ne_zero_of_lt h.before)
    rw [Nat.add_lt_add_iff_right, Nat.add_right_cancel_iff] at hj
    cases i with
    | zero =>
        obtain ⟨honly, htarget⟩ := speaks_cons_zero.mp h
        exact Or.inl ⟨marked, t, honly, htarget, hj⟩
    | succ i => exact Or.inr ⟨i, t, marked, speaks_cons_succ.mp h, by omega, hj⟩
  · rintro (⟨marked, t, honly, htarget, hj⟩ | ⟨i, t, marked, h, hi, hj⟩)
    · refine ⟨0, t + 1, marked, speaks_cons_zero.mpr ⟨honly, htarget⟩, by omega, ?_⟩
      rwa [Nat.add_lt_add_iff_right, Nat.add_right_cancel_iff]
    · refine ⟨i + 1, t + 1, marked, speaks_cons_succ.mpr h, by omega, ?_⟩
      rwa [Nat.add_lt_add_iff_right, Nat.add_right_cancel_iff]

theorem Speaks.lt_length {roles : List Role} {i t : Nat} {marked : Direction}
    (h : Speaks roles i t marked) : t < roles.length := by
  obtain ⟨hlength, -⟩ := List.getElem?_eq_some_iff.mp h.target
  exact hlength

theorem Removed.lt_length {d : Direction} {roles : List Role} {j : Nat} (h : Removed d roles j) :
    j < roles.length := by
  obtain ⟨i, t, marked, hspeaks, -, hj⟩ := h
  have hlength := hspeaks.lt_length
  omega

instance (d : Direction) (roles : List Role) : DecidablePred (Removed d roles) := fun j =>
  decidable_of_iff
    (∃ i < j + 1, ∃ t < roles.length, ∃ marked ∈ [Direction.ltr, .rtl],
      Speaks roles i t marked ∧ (j < t ∨ j = t ∧ marked = d.opposite))
    ⟨fun ⟨i, hi, t, _, marked, _, h, hj⟩ => ⟨i, t, marked, h, by omega, hj⟩,
      fun ⟨i, t, marked, h, hi, hj⟩ =>
        ⟨i, by omega, t, h.lt_length, marked, by cases marked <;> simp, h, hj⟩⟩

section Lists

variable {α : Type} {role : α → Role} {d : Direction}

theorem targetAhead_iff {items : List α} :
    targetAhead role items = true ↔ ∃ t, TargetAt (items.map role) t := by
  induction items with
  | nil =>
      have hnone : ∀ t, ¬ TargetAt [] t := fun t h => by simpa using h.target
      simp [targetAhead, hnone]
  | cons a items ih =>
      rw [List.map_cons]
      by_cases hblank : role a = .blank
      · rw [targetAhead_cons_of_blank hblank, ih, hblank]
        simp only [targetAt_cons_blank]
        constructor
        · rintro ⟨t, h⟩
          exact ⟨t + 1, t, rfl, h⟩
        · rintro ⟨t, s, rfl, h⟩
          exact ⟨s, h⟩
      by_cases htarget : role a = .target
      · simp [targetAhead_cons_of_target htarget, htarget, targetAt_cons_target]
      · have hother : targetAhead role (a :: items) = false := by
          simp [targetAhead, hblank, htarget]
        simp [hother, not_targetAt_cons hblank htarget]

/-- Position `j` goes away because of a marker in front of the list, whose item is kept or not. -/
def Passed (keep : Bool) (roles : List Role) (j : Nat) : Prop :=
  ∃ t, TargetAt roles t ∧ (j < t ∨ j = t ∧ keep = false)

theorem passed_cons_target_zero {keep : Bool} {roles : List Role} :
    Passed keep (.target :: roles) 0 ↔ keep = false := by
  simp [Passed, targetAt_cons_target]

theorem not_passed_cons_target_succ {keep : Bool} {roles : List Role} {j : Nat} :
    ¬ Passed keep (.target :: roles) (j + 1) := by
  simp [Passed, targetAt_cons_target]

theorem passed_cons_blank_zero {keep : Bool} {roles : List Role} :
    Passed keep (.blank :: roles) 0 ↔ ∃ t, TargetAt roles t := by
  simp [Passed, targetAt_cons_blank]

theorem passed_cons_blank_succ {keep : Bool} {roles : List Role} {j : Nat} :
    Passed keep (.blank :: roles) (j + 1) ↔ Passed keep roles j := by
  simp [Passed, targetAt_cons_blank]

theorem removed_cons_succ_of_marker {r : Role} {roles : List Role} {j : Nat} {marked : Direction}
    (h : r.only? = some marked) :
    Removed d (r :: roles) (j + 1) ↔ Passed (decide (marked = d)) roles j ∨ Removed d roles j := by
  have hother : marked = d.opposite ↔ marked ≠ d := by cases marked <;> cases d <;> decide
  simp [removed_cons_succ, h, Passed, hother]

theorem strip_eq_dropAt_of_iff {skipping : Option Bool} {items : List α}
    (hskip : skipping.isSome = true → targetAhead role items = true) (p : Nat → Prop)
    [DecidablePred p]
    (hp : ∀ j, p j ↔ (∃ keep, skipping = some keep ∧ Passed keep (items.map role) j) ∨
      Removed d (items.map role) j) :
    strip role d skipping items = dropAt p items := by
  -- By the recursion of `strip`, where `p` moves along with the list.
  fun_induction strip role d skipping items generalizing p with
  | case1 => rfl
  | case2 a rest htarget ih =>
      simp only [List.map_cons, htarget] at hp
      have hzero : ¬ p 0 := by
        simp [hp, passed_cons_target_zero, removed_cons_zero, Role.only?]
      rw [dropAt_cons, if_neg hzero, ← ih (by simp) _ fun j => ?_]
      simp [hp, not_passed_cons_target_succ, removed_cons_succ, Role.only?]
  | case3 a rest keep htarget hkeep ih =>
      simp only [List.map_cons, htarget] at hp
      have hzero : p 0 := by
        simpa [hp, passed_cons_target_zero, removed_cons_zero, Role.only?] using hkeep
      rw [dropAt_cons, if_pos hzero, ← ih (by simp) _ fun j => ?_]
      simp [hp, not_passed_cons_target_succ, removed_cons_succ, Role.only?]
  | case4 a rest keep htarget ih =>
      have hblank := blank_of_targetAhead (hskip rfl) htarget
      have hahead : targetAhead role rest = true := by
        rw [← targetAhead_cons_of_blank hblank]
        exact hskip rfl
      simp only [List.map_cons, hblank] at hp
      have hzero : p 0 := by
        simpa [hp, passed_cons_blank_zero, removed_cons_zero, Role.only?] using
          targetAhead_iff.mp hahead
      rw [dropAt_cons, if_pos hzero, ← ih (fun _ => hahead) _ fun j => ?_]
      simp [hp, passed_cons_blank_succ, removed_cons_succ, Role.only?]
  | case5 a rest marked honly hahead ih =>
      simp only [List.map_cons] at hp
      have hzero : p 0 := by
        simpa [hp, removed_cons_zero, honly] using targetAhead_iff.mp hahead
      rw [dropAt_cons, if_pos hzero, ← ih (fun _ => hahead) _ fun j => ?_]
      simp [hp, removed_cons_succ_of_marker honly]
  | case6 a rest marked honly hahead ih =>
      have hnone : ∀ t, ¬ TargetAt (rest.map role) t := fun t ht =>
        hahead (targetAhead_iff.mpr ⟨t, ht⟩)
      simp only [List.map_cons] at hp
      have hzero : ¬ p 0 := by simp [hp, removed_cons_zero, hnone]
      rw [dropAt_cons, if_neg hzero, ← ih (by simp) _ fun j => ?_]
      simp [hp, removed_cons_succ, hnone]
  | case7 a rest honly ih =>
      simp only [List.map_cons] at hp
      have hzero : ¬ p 0 := by simp [hp, removed_cons_zero, honly]
      rw [dropAt_cons, if_neg hzero, ← ih (by simp) _ fun j => ?_]
      simp [hp, removed_cons_succ, honly]

/-- Cleaning a list removes exactly the positions that its markers act on. -/
theorem strip_eq_dropAt (role : α → Role) (d : Direction) (items : List α) :
    strip role d none items = dropAt (Removed d (items.map role)) items :=
  strip_eq_dropAt_of_iff (by simp) _ (by simp)

theorem strip_ne_self_iff (role : α → Role) (d : Direction) (items : List α) :
    strip role d none items ≠ items ↔ ∃ j, Removed d (items.map role) j := by
  rw [strip_eq_dropAt]
  constructor
  · intro hne
    by_contra hnone
    exact hne (dropAt_of_forall_not items (not_exists.mp hnone))
  · rintro ⟨j, hj⟩ heq
    have hlength : j < items.length := by simpa using hj.lt_length
    have hlt := length_dropAt_lt hlength hj
    rw [heq] at hlt
    omega

/-- A change is noted just if there is a position to remove. -/
theorem changed_stripMarked_iff (role : α → Role) (d : Direction) (items : List α) :
    (stripMarked role d items).changed = true ↔ ∃ j, Removed d (items.map role) j := by
  rw [← strip_ne_self_iff, ne_eq, ← tells_stripMarked, Bool.not_eq_false]

end Lists

/-! ### Items with and without a marker -/

theorem Speaks.unique {roles : List Role} {i i' t : Nat} {marked marked' : Direction}
    (h : Speaks roles i t marked) (h' : Speaks roles i' t marked') : marked = marked' := by
  have hmarker := h.marker
  have hmarker' := h'.marker
  rcases Nat.lt_trichotomy i i' with hlt | rfl | hlt
  · rw [h.blanks i' h'.before hlt] at hmarker'
    simp at hmarker'
  · rw [hmarker] at hmarker'
    simpa using hmarker'
  · rw [h'.blanks i h.before hlt] at hmarker
    simp at hmarker

/-- An item goes away only because of a marker that speaks about it. -/
theorem removed_target_iff {d : Direction} {roles : List Role} {t : Nat}
    (htarget : roles[t]? = some .target) :
    Removed d roles t ↔ ∃ i, Speaks roles i t d.opposite := by
  constructor
  · rintro ⟨i, t', marked, h, hi, hlt | ⟨rfl, rfl⟩⟩
    · have hmarker := h.marker
      rcases Nat.eq_or_lt_of_le hi with rfl | hi
      · rw [htarget] at hmarker
        simp at hmarker
      · rw [h.blanks t hlt hi] at htarget
        simp at htarget
    · exact ⟨i, h⟩
  · rintro ⟨i, h⟩
    exact ⟨i, t, d.opposite, h, Nat.le_of_lt h.before, Or.inr ⟨rfl, rfl⟩⟩

theorem Speaks.kept_once {roles : List Role} {i t : Nat} {marked : Direction}
    (h : Speaks roles i t marked) :
    ¬ Removed marked roles t ∧ Removed marked.opposite roles t := by
  rw [removed_target_iff h.target, removed_target_iff h.target, Direction.opposite_opposite]
  refine ⟨?_, i, h⟩
  rintro ⟨i', h'⟩
  have hsame := h.unique h'
  cases marked <;> contradiction

/-! ### Stylesheets -/

/-- How a rule is cleaned. It is printed from its parts if its body loses something. -/
structure Rule.Cleaned (d : Direction) (r r' : Rule) : Prop where
  selector : r'.selector = r.selector
  body : r'.body = dropAt (Removed d (r.body.map BodyItem.role)) r.body
  span : r'.span = r.span
  touched : (∃ j, Removed d (r.body.map BodyItem.role) j) → r'.source = none
  untouched : (¬ ∃ j, Removed d (r.body.map BodyItem.role) j) → r'.source = r.source

theorem Rule.cleaned_clean (d : Direction) (r : Rule) : r.Cleaned d (r.clean d) where
  selector := rfl
  body := (value_stripMarked d r.body).trans (strip_eq_dropAt BodyItem.role d r.body)
  span := rfl
  touched := by
    intro hremoved
    have hchanged := (changed_stripMarked_iff BodyItem.role d r.body).mpr hremoved
    simp [Rule.clean, hchanged]
  untouched := by
    intro hkept
    rw [← changed_stripMarked_iff, Bool.not_eq_true] at hkept
    simp [Rule.clean, hkept]

namespace Item

/-- How each item of a list is cleaned, at every level: rules lose what is marked in their bodies,
and groups lose what is marked among their items. -/
inductive Cleaned (d : Direction) : List Item → List Item → Prop
  | nil : Cleaned d [] []
  | rule {r r' : Rule} {rest rest' : List Item} (hrule : r.Cleaned d r')
      (hrest : Cleaned d rest rest') : Cleaned d (.rule r :: rest) (.rule r' :: rest')
  | group (head : AtHead) {items items' rest rest' : List Item}
      (hitems : Cleaned d (dropAt (Removed d (items.map role)) items) items')
      (hrest : Cleaned d rest rest') :
      Cleaned d (.group head items :: rest) (.group head items' :: rest')
  | plain {item : Item} {rest rest' : List Item} (hplain : item.isPlain = true)
      (hrest : Cleaned d rest rest') : Cleaned d (item :: rest) (item :: rest')

theorem cleanEach_eq_map (d : Direction) (items : List Item) :
    cleanEach d items = items.map (clean d) := by
  induction items with
  | nil => rfl
  | cons item items ih => rw [cleanEach, ih, List.map_cons]

/-- It makes no difference whether a list or its items are cleaned first. -/
theorem cleanAll_eq_map (d : Direction) (items : List Item) :
    cleanAll d items = (dropAt (Removed d (items.map role)) items).map (clean d) := by
  rw [cleanAll_eq_strip, cleanEach_eq_map, strip_map, funext (role_clean d), strip_eq_dropAt]

theorem cleaned_map_clean (d : Direction) {items kept : List Item} (h : kept.Sublist items) :
    Cleaned d kept (kept.map (clean d)) := by
  induction items using listInduction generalizing kept with
  | nil =>
      rw [List.sublist_nil.mp h]
      exact .nil
  | rule r rest ih =>
      rcases List.sublist_cons_iff.mp h with hrest | ⟨kept, rfl, hrest⟩
      · exact ih hrest
      · exact .rule (r.cleaned_clean d) (ih hrest)
  | group head items rest ihitems ih =>
      rcases List.sublist_cons_iff.mp h with hrest | ⟨kept, rfl, hrest⟩
      · exact ih hrest
      · have hitems := ihitems (dropAt_sublist (p := Removed d (items.map role)) items)
        rw [← cleanAll_eq_map] at hitems
        exact .group head hitems (ih hrest)
  | plain item rest hplain ih =>
      rcases List.sublist_cons_iff.mp h with hrest | ⟨kept, rfl, hrest⟩
      · exact ih hrest
      · rw [List.map_cons, clean_of_isPlain hplain]
        exact .plain hplain (ih hrest)

end Item

/-- Cleaning removes from a list the positions that its markers act on and no others. It notes a
change just if the list changes, which it does if there are such positions. This is done to the
items of a stylesheet, at every level of groups, and to the bodies of the rules that are left. An
item with a marker is kept for the direction of the marker and removed for the other; one without a
marker is kept for both. -/
theorem clean_removes_marked (d : Direction) :
    (∀ {α : Type} (role : α → Role) (items : List α),
        (stripMarked role d items).value = dropAt (Removed d (items.map role)) items ∧
          (stripMarked role d items).value.Sublist items ∧
          ((stripMarked role d items).changed = true ↔ (stripMarked role d items).value ≠ items) ∧
          ((stripMarked role d items).changed = true ↔ ∃ j, Removed d (items.map role) j)) ∧
      (∀ items : List Item,
        Item.Cleaned d (dropAt (Removed d (items.map Item.role)) items) (Item.cleanAll d items)) ∧
      ∀ (roles : List Role) (t : Nat), roles[t]? = some .target →
        (∀ i marked, Speaks roles i t marked →
          ¬ Removed marked roles t ∧ Removed marked.opposite roles t) ∧
        ((∀ i marked, ¬ Speaks roles i t marked) → ¬ Removed d roles t) := by
  refine ⟨?_, ?_, ?_⟩
  · intro α role items
    have hchanged := changed_stripMarked_iff role d items
    rw [value_stripMarked, strip_ne_self_iff]
    exact ⟨strip_eq_dropAt role d items, strip_sublist role d none items, hchanged, hchanged⟩
  · intro items
    rw [Item.cleanAll_eq_map]
    exact Item.cleaned_map_clean d (dropAt_sublist items)
  · intro roles t htarget
    refine ⟨fun i marked h => h.kept_once, ?_⟩
    intro hnone hremoved
    obtain ⟨i, h⟩ := (removed_target_iff htarget).mp hremoved
    exact hnone i _ h

/-- The first marker stands in front of another one and stays; the second takes its item along. -/
example :
    (List.range 7).filter (Removed .rtl [.note (some (.only .rtl)), .blank,
      .note (some (.only .ltr)), .blank, .target, .blank, .target]) = [2, 3, 4] := by
  decide

end StyleFlip
