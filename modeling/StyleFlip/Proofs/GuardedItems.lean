import StyleFlip.Proofs.RemovedItems

/-!
# What `@noflip` guards, position by position

A flip carries one flag along a list: whether the item that comes next is guarded. The flag can be
told from the list alone. An item is guarded when the nearest item before it that is no blank is a
`@noflip` comment (`withGuards_eq_map`). So each item of a list stays as it is or is flipped as if
it stood alone, and the advice about a list is the advice about its unguarded items.
-/

namespace StyleFlip

/-- The nearest item before position `i` that is no blank is a `@noflip` comment. -/
def Guarded (roles : List Role) (i : Nat) : Prop :=
  ∃ k < i, roles[k]? = some (.note (some .noFlip)) ∧ ∀ j < i, k < j → roles[j]? = some .blank

instance (roles : List Role) : DecidablePred (Guarded roles) := fun i =>
  inferInstanceAs (Decidable (∃ k < i, roles[k]? = some (.note (some .noFlip)) ∧
    ∀ j < i, k < j → roles[j]? = some .blank))

/-- Position `i` is guarded in a list that stands behind a guard or not. -/
def GuardedFrom (guarded : Bool) (roles : List Role) (i : Nat) : Prop :=
  (guarded = true ∧ ∀ j < i, roles[j]? = some .blank) ∨ Guarded roles i

theorem not_guarded_zero (roles : List Role) : ¬ Guarded roles 0 := by
  rintro ⟨k, hk, -⟩
  omega

theorem guarded_cons_succ {r : Role} {roles : List Role} {i : Nat} :
    Guarded (r :: roles) (i + 1) ↔ GuardedFrom (decide (r = .note (some .noFlip))) roles i := by
  constructor
  · rintro ⟨k, hk, hmarker, hblanks⟩
    have hshift : ∀ j < i, k < j + 1 → roles[j]? = some .blank := by
      intro j hj hkj
      simpa using hblanks (j + 1) (by omega) hkj
    cases k with
    | zero =>
        left
        refine ⟨by simpa using hmarker, fun j hj => ?_⟩
        exact hshift j hj (by omega)
    | succ k =>
        right
        refine ⟨k, by omega, by simpa using hmarker, fun j hj hkj => ?_⟩
        exact hshift j hj (by omega)
  · rintro (⟨hr, hblanks⟩ | ⟨k, hk, hmarker, hblanks⟩)
    · refine ⟨0, by omega, by simpa using hr, fun j hj hpos => ?_⟩
      obtain ⟨j, rfl⟩ := Nat.exists_eq_add_one_of_ne_zero (show j ≠ 0 by omega)
      simpa using hblanks j (by omega)
    · refine ⟨k + 1, by omega, by simpa using hmarker, fun j hj hkj => ?_⟩
      obtain ⟨j, rfl⟩ := Nat.exists_eq_add_one_of_ne_zero (show j ≠ 0 by omega)
      simpa using hblanks j (by omega) (by omega)

theorem guardedFrom_zero {guarded : Bool} {roles : List Role} :
    GuardedFrom guarded roles 0 ↔ guarded = true := by
  simp [GuardedFrom, not_guarded_zero]

/-- The flag that a flip carries past an item tells what it told before. -/
theorem guardedFrom_cons_succ {guarded : Bool} {r : Role} {roles : List Role} {i : Nat} :
    GuardedFrom guarded (r :: roles) (i + 1) ↔ GuardedFrom (r.guardNext guarded) roles i := by
  have hfirst : (∀ j < i + 1, (r :: roles)[j]? = some .blank) ↔
      r = .blank ∧ ∀ j < i, roles[j]? = some .blank := by
    constructor
    · intro h
      refine ⟨by simpa using h 0 (by omega), fun j hj => ?_⟩
      simpa using h (j + 1) (by omega)
    · rintro ⟨rfl, h⟩ j hj
      cases j with
      | zero => rfl
      | succ j => simpa using h j (by omega)
  rw [GuardedFrom, guarded_cons_succ, GuardedFrom, hfirst]
  cases r with
  | blank => simp [GuardedFrom, Role.guardNext]
  | note marker => simp [GuardedFrom, Role.guardNext]
  | target => simp [GuardedFrom, Role.guardNext]
  | other => simp [GuardedFrom, Role.guardNext]

section Lists

variable {α : Type} (role : α → Role)

theorem withGuards_getElem? {guarded : Bool} {items : List α} {i : Nat} (p : Prop) [Decidable p]
    (hp : p ↔ GuardedFrom guarded (items.map role) i) :
    (withGuards role guarded items)[i]? = items[i]?.map fun a => (a, decide p) := by
  induction items generalizing guarded i with
  | nil => rfl
  | cons a items ih =>
      cases i with
      | zero =>
          rw [guardedFrom_zero] at hp
          simp [withGuards, hp]
      | succ i =>
          rw [List.map_cons, guardedFrom_cons_succ] at hp
          simpa [withGuards] using ih hp

/-- Whether an item is guarded can be told from its place in the list. -/
theorem withGuards_eq_map (items : List α) :
    withGuards role false items =
      items.zipIdx.map fun p => (p.1, decide (Guarded (items.map role) p.2)) := by
  apply List.ext_getElem?
  intro i
  rw [withGuards_getElem? role (Guarded (items.map role) i) (by simp [GuardedFrom]),
    List.getElem?_map, List.getElem?_zipIdx, Option.map_map]
  simp [Function.comp_def]

/-- A list is rewritten position by position: guarded items stay, and each other item is rewritten
as if it stood alone. -/
structure SparesGuarded (rewrite : List α → List α) (items : List α) : Prop where
  length : (rewrite items).length = items.length
  kept : ∀ i, Guarded (items.map role) i → (rewrite items)[i]? = items[i]?
  rewritten : ∀ i a, ¬ Guarded (items.map role) i → items[i]? = some a →
    (rewrite items)[i]? = (rewrite [a]).head?

variable {role}

theorem sparesGuarded_of_eq {rewrite : List α → List α} {f : α → α}
    (h : ∀ items, rewrite items =
      (withGuards role false items).map fun p => if p.2 then p.1 else f p.1) (items : List α) :
    SparesGuarded role rewrite items where
  length := by simp [h, withGuards_eq_map]
  kept := by
    intro i hguarded
    simp [h, withGuards_eq_map, Function.comp_def, hguarded]
  rewritten := by
    intro i a hfree ha
    simp [h, withGuards, withGuards_eq_map role items, hfree, ha]

end Lists

/-! ### Advice -/

namespace Item

theorem gatherAll_eq_flatMap {β : Type} (f : Bool → Rule → List β) (guarded : Bool)
    (items : List Item) :
    gatherAll f guarded items =
      (withGuards role guarded items).flatMap fun p => gather f p.2 p.1 := by
  induction items generalizing guarded with
  | nil => rfl
  | cons item items ih => rw [gatherAll, ih, withGuards, List.flatMap_cons]

theorem gather_of_guarded {β : Type} {f : Bool → Rule → List β} (hf : ∀ r, f true r = [])
    (item : Item) : gather f true item = [] := by
  cases item with
  | rule r => exact hf r
  | _ => rfl

end Item

/-- Guarded items get no advice, and each other item gets the advice it would get alone. -/
theorem Stylesheet.advice_eq_flatMap (options : FlipOptions) (sheet : Stylesheet) :
    advice options sheet =
      sheet.zipIdx.flatMap fun p =>
        if Guarded (sheet.map Item.role) p.2 then [] else advice options [p.1] := by
  unfold advice
  cases options.warnings with
  | false => simp
  | true =>
      rw [if_pos rfl, Item.gatherAll_eq_flatMap, withGuards_eq_map, List.flatMap_map]
      congr 1
      funext p
      by_cases hguarded : Guarded (sheet.map Item.role) p.2
      · simp [hguarded, Item.gather_of_guarded]
      · simp [hguarded, Item.gatherAll]

/-! ### Stylesheets -/

theorem BodyItem.value_flip (options : FlipOptions) (guarded : Bool) (item : BodyItem) :
    (item.flip options guarded).value =
      if guarded then item else (item.flip options false).value := by
  cases item <;> cases guarded <;> rfl

/-- `@noflip` guards exactly the item after it: at each position of a list of items there is the item
as it was, if it is guarded, and else the item flipped alone, and only unguarded items get advice.
An item that is a group is flipped alone by flipping its items, and one that is a rule by flipping
its unguarded declarations. -/
theorem flip_spares_guarded (options : FlipOptions) :
    (∀ sheet : Stylesheet,
      SparesGuarded Item.role (Stylesheet.flip options) sheet ∧
        Stylesheet.advice options sheet =
          sheet.zipIdx.flatMap fun p =>
            if Guarded (sheet.map Item.role) p.2 then [] else Stylesheet.advice options [p.1]) ∧
      (∀ head items,
        Stylesheet.flip options [.group head items] =
            [.group head (Stylesheet.flip options items)] ∧
          Stylesheet.advice options [.group head items] = Stylesheet.advice options items) ∧
      ∀ r : Rule,
        Stylesheet.flip options [.rule r] = [.rule (r.flip options)] ∧
          SparesGuarded BodyItem.role (fun body => (Body.flip options body).value) r.body ∧
          ∀ (j : Nat) (d : Declaration), r.body[j]? = some (.declaration d) →
            (r.flip options).body[j]? =
              some (.declaration
                (if Guarded (r.body.map BodyItem.role) j then d else (d.flip options).value)) := by
  have hbodies : ∀ body : Body,
      SparesGuarded BodyItem.role (fun body => (Body.flip options body).value) body := by
    apply sparesGuarded_of_eq (f := fun item => (item.flip options false).value)
    intro body
    rw [Body.value_flip_eq_map]
    congr 1
    funext p
    exact BodyItem.value_flip options p.2 p.1
  refine ⟨fun sheet => ⟨?_, Stylesheet.advice_eq_flatMap options sheet⟩, ?_, ?_⟩
  · exact sparesGuarded_of_eq (Item.flipAll_eq_map options false) sheet
  · intro head items
    refine ⟨rfl, ?_⟩
    unfold Stylesheet.advice
    simp [Item.gatherAll, Item.gather]
  · intro r
    refine ⟨rfl, hbodies r.body, ?_⟩
    intro j d hd
    by_cases hguarded : Guarded (r.body.map BodyItem.role) j
    · rw [if_pos hguarded, ← hd]
      exact (hbodies r.body).kept j hguarded
    · rw [if_neg hguarded]
      exact (hbodies r.body).rewritten j _ hguarded hd

/-- A comment between `@noflip` and an item takes the guard away, and a blank does not. -/
example :
    (List.range 7).filter (Guarded [.note (some .noFlip), .blank, .target, .note (some .noFlip),
      .note none, .blank, .target]) = [1, 2, 4] := by
  decide

end StyleFlip
