import StyleFlip.Proofs.MarkedItems
import StyleFlip.Proofs.OneParse

/-!
# Cleaning and flipping in either order

Cleaning removes items, and with them neighbours that a guard is passed on to; flipping rewrites
items that cleaning may remove later. The two meet in the markers only. Flipping keeps all roles, so
it changes nothing about what cleaning removes. Cleaning keeps the guards of what is left, unless
`@noflip` stands right in front of a direction marker that goes away. Where it never does, the two
passes can be exchanged.
-/

namespace StyleFlip

/-! ### Guards in a list that loses members -/

/-- No direction marker comes right after `@noflip`, where `guarded` tells whether the first item
does. -/
def guardsApart (guarded : Bool) : List Role → Bool
  | [] => true
  | r :: rest => !(guarded && r.only?.isSome) && guardsApart (r.guardNext guarded) rest

section Lists

variable {α β : Type}

theorem targetAhead_map (role : β → Role) (f : α → β) (items : List α) :
    targetAhead role (items.map f) = targetAhead (fun a => role (f a)) items := by
  unfold targetAhead
  rw [List.dropWhile_map, Function.comp_def]
  cases items.dropWhile fun a => decide (role (f a) = .blank) <;> rfl

/-- What is removed depends on the roles only. -/
theorem strip_map (role : β → Role) (f : α → β) (d : Direction) (skipping : Option Bool)
    (items : List α) :
    strip role d skipping (items.map f) =
      (strip (fun a => role (f a)) d skipping items).map f := by
  fun_induction strip (fun a => role (f a)) d skipping items with
  | case1 => rfl
  | case2 a rest htarget ih => simp [strip, htarget, ih]
  | case3 a rest keep htarget hkeep ih => simp [strip, htarget, hkeep, ih]
  | case4 a rest keep htarget ih => simp [strip, htarget, ih]
  | case5 a rest marked honly hahead ih => simp [strip, honly, targetAhead_map, hahead, ih]
  | case6 a rest marked honly hahead ih => simp [strip, honly, targetAhead_map, hahead, ih]
  | case7 a rest honly ih => simp [strip, honly, ih]

variable {role : α → Role}

theorem targetAhead_withGuards (guarded : Bool) (items : List α) :
    targetAhead (fun p : α × Bool => role p.1) (withGuards role guarded items) =
      targetAhead role items := by
  conv => rhs; rw [← withGuards_map_fst role guarded items]
  rw [targetAhead_map]

theorem strip_withGuards (d : Direction) {skipping : Option Bool} {guarded : Bool} {items : List α}
    (hapart : guardsApart guarded (items.map role) = true)
    (hskip : skipping.isSome = true → guarded = false ∧ targetAhead role items = true) :
    strip (fun p : α × Bool => role p.1) d skipping (withGuards role guarded items) =
      withGuards role guarded (strip role d skipping items) := by
  -- By the recursion of `strip`. While a marker is in force nothing is guarded: the marker itself
  -- came after no `@noflip`, and only blanks stand between it and its item.
  fun_induction strip role d skipping items generalizing guarded with
  | case1 => rfl
  | case2 a rest htarget ih =>
      obtain ⟨rfl, -⟩ := hskip rfl
      rw [List.map_cons, guardsApart, Bool.and_eq_true, htarget] at hapart
      have hrest := ih hapart.2 (by simp)
      simpa [withGuards, strip, htarget, Role.guardNext] using hrest
  | case3 a rest keep htarget hkeep ih =>
      obtain ⟨rfl, -⟩ := hskip rfl
      rw [List.map_cons, guardsApart, Bool.and_eq_true, htarget] at hapart
      have hrest := ih hapart.2 (by simp)
      simpa [withGuards, strip, htarget, hkeep, Role.guardNext] using hrest
  | case4 a rest keep htarget ih =>
      obtain ⟨rfl, hahead⟩ := hskip rfl
      have hblank := blank_of_targetAhead hahead htarget
      rw [targetAhead_cons_of_blank hblank] at hahead
      rw [List.map_cons, guardsApart, Bool.and_eq_true, hblank] at hapart
      have hrest := ih hapart.2 fun _ => ⟨rfl, hahead⟩
      simpa [withGuards, strip, hblank, Role.guardNext] using hrest
  | case5 a rest marked honly hahead ih =>
      have hrole := eq_note_of_only? honly
      rw [List.map_cons, guardsApart, Bool.and_eq_true, hrole] at hapart
      obtain rfl : guarded = false := by simpa [Role.only?] using hapart.1
      have hrest := ih hapart.2 fun _ => ⟨rfl, hahead⟩
      rw [withGuards, strip]
      simp only [honly, targetAhead_withGuards, hahead, if_true]
      simpa [hrole, Role.guardNext] using hrest
  | case6 a rest marked honly hahead ih =>
      rw [List.map_cons, guardsApart, Bool.and_eq_true] at hapart
      have hrest := ih hapart.2 (by simp)
      rw [withGuards, strip]
      simp only [honly, targetAhead_withGuards, hahead, withGuards, hrest]
      rfl
  | case7 a rest honly ih =>
      rw [List.map_cons, guardsApart, Bool.and_eq_true] at hapart
      have hrest := ih hapart.2 (by simp)
      rw [withGuards, strip]
      simp only [honly, withGuards, hrest]

/-- A rewriting that depends on the guard and keeps the roles can be done before or after. -/
theorem strip_map_withGuards {f : α × Bool → α} (hf : ∀ p, role (f p) = role p.1) (d : Direction)
    {guarded : Bool} {items : List α} (hapart : guardsApart guarded (items.map role) = true) :
    strip role d none ((withGuards role guarded items).map f) =
      (withGuards role guarded (strip role d none items)).map f := by
  rw [strip_map, funext hf, strip_withGuards d hapart (by simp)]

end Lists

/-! ### Rules -/

theorem BodyItem.role_flip (options : FlipOptions) (guarded : Bool) (item : BodyItem) :
    (item.flip options guarded).value.role = item.role := by
  cases item with
  | declaration d => cases guarded <;> rfl
  | _ => rfl

theorem Body.value_flip_eq_map (options : FlipOptions) (body : Body) :
    (Body.flip options body).value =
      (withGuards BodyItem.role false body).map fun p => (p.1.flip options p.2).value := by
  rw [Body.flip, Edit.all, List.map_map]
  rfl

theorem Body.length_flip (options : FlipOptions) (body : Body) :
    (Body.flip options body).value.length = body.length := by
  rw [Body.value_flip_eq_map, List.length_map, ← List.length_map (·.1), withGuards_map_fst]

theorem Body.strip_flip (options : FlipOptions) (d : Direction) {body : Body}
    (hapart : guardsApart false (body.map BodyItem.role) = true) :
    strip BodyItem.role d none (Body.flip options body).value =
      (Body.flip options (strip BodyItem.role d none body)).value := by
  rw [Body.value_flip_eq_map, Body.value_flip_eq_map]
  exact strip_map_withGuards (fun p => BodyItem.role_flip options p.2 p.1) d hapart

/-- A body that loses something is printed from its parts in either order; one that loses nothing is
flipped as it stands. -/
theorem Rule.clean_flip (options : FlipOptions) (d : Direction) {r : Rule}
    (hapart : guardsApart false (r.body.map BodyItem.role) = true) :
    (r.flip options).clean d = (r.clean d).flip options := by
  have hbody := Body.strip_flip options d hapart
  rw [Rule.clean_eq, Rule.clean_eq]
  by_cases hkept : strip BodyItem.role d none r.body = r.body
  · rw [hkept] at hbody
    simp [Rule.flip, hkept, hbody]
  · have hlost : strip BodyItem.role d none (Body.flip options r.body).value ≠
        (Body.flip options r.body).value := by
      intro heq
      have hlength := congrArg List.length heq
      rw [hbody, Body.length_flip, Body.length_flip] at hlength
      exact hkept ((strip_sublist _ _ _ _).eq_of_length hlength)
    rw [Rule.flip, Rule.flip, Rule.mk.injEq]
    refine ⟨rfl, hbody, rfl, ?_⟩
    simp [hkept, hlost]

/-! ### Stylesheets -/

namespace Item

mutual

/-- The roles that stand side by side inside an item, level by level. -/
def levels : Item → List (List Role)
  | .rule r => [r.body.map BodyItem.role]
  | .group _ items => items.map role :: levelsEach items
  | _ => []

def levelsEach : List Item → List (List Role)
  | [] => []
  | item :: rest => levels item ++ levelsEach rest

end

theorem role_flip (options : FlipOptions) (item : Item) : (flip options item).role = item.role := by
  cases item <;> rfl

theorem map_role_cleanEach (d : Direction) (items : List Item) :
    (cleanEach d items).map role = items.map role := by
  induction items with
  | nil => rfl
  | cons item items ih => rw [cleanEach, List.map_cons, ih, role_clean, List.map_cons]

theorem flipAll_eq_map (options : FlipOptions) (guarded : Bool) (items : List Item) :
    flipAll options guarded items =
      (withGuards role guarded items).map fun p => if p.2 then p.1 else flip options p.1 := by
  induction items generalizing guarded with
  | nil => rfl
  | cons item items ih => rw [flipAll, ih, withGuards, List.map_cons]

theorem strip_flipAll (options : FlipOptions) (d : Direction) {guarded : Bool} {items : List Item}
    (hapart : guardsApart guarded (items.map role) = true) :
    strip role d none (flipAll options guarded items) =
      flipAll options guarded (strip role d none items) := by
  rw [flipAll_eq_map, flipAll_eq_map]
  apply strip_map_withGuards ?_ d hapart
  intro p
  split
  · rfl
  · exact role_flip options p.1

theorem cleanEach_flipAll (options : FlipOptions) (d : Direction) {items : List Item}
    (hapart : (levelsEach items).all (guardsApart false) = true) (guarded : Bool) :
    cleanEach d (flipAll options guarded items) = flipAll options guarded (cleanEach d items) := by
  induction items using listInduction generalizing guarded with
  | nil => rfl
  | rule r rest ih =>
      simp only [levelsEach, levels, List.all_append, List.all_cons, List.all_nil, Bool.and_true,
        Bool.and_eq_true] at hapart
      rw [flipAll, cleanEach, ih hapart.2, cleanEach, flipAll, role_clean]
      congr 1
      cases guarded with
      | true => rfl
      | false => exact congrArg Item.rule (Rule.clean_flip options d hapart.1)
  | group head items rest ihitems ih =>
      simp only [levelsEach, levels, List.all_append, List.all_cons, Bool.and_eq_true] at hapart
      obtain ⟨⟨hlist, hinner⟩, hrest⟩ := hapart
      rw [flipAll, cleanEach, ih hrest, cleanEach, flipAll, role_clean]
      congr 1
      cases guarded with
      | true => rfl
      | false =>
          rw [← map_role_cleanEach d] at hlist
          simp only [flip, clean_group, Bool.false_eq_true, if_false]
          rw [ihitems hinner, strip_flipAll options d hlist]
  | plain item rest hplain ih =>
      simp only [levelsEach, List.all_append, Bool.and_eq_true] at hapart
      rw [flipAll, cleanEach, ih hapart.2, cleanEach, flipAll, role_clean, flip_of_isPlain hplain,
        clean_of_isPlain hplain, flip_of_isPlain hplain, ite_self, clean_of_isPlain hplain]

theorem isLeading_flip (options : FlipOptions) (item : Item) :
    (flip options item).isLeading = item.isLeading := by
  cases item <;> rfl

theorem isTrivia_flip (options : FlipOptions) (item : Item) :
    (flip options item).isTrivia = item.isTrivia := by
  cases item <;> rfl

/-- The preface goes to the same place. A guard in front of it is passed on only if it is a guard of
the whole list, because a leading statement ends it. -/
theorem splitLeading_flipAll (options : FlipOptions) (guarded : Bool) (items : List Item) :
    splitLeading (flipAll options guarded items) =
      ((splitLeading items).1,
        flipAll options (guarded && (splitLeading items).1.isEmpty) (splitLeading items).2) := by
  induction items generalizing guarded with
  | nil => rfl
  | cons item rest ih =>
      by_cases hfirst : item.goesFirst = true
      · have hplain := flip_of_isPlain (isPlain_of_goesFirst hfirst) options
        rw [flipAll, hplain, ite_self, splitLeading, splitLeading, ih]
        by_cases hleading : item.isLeading = true
        · have hnext : item.role.guardNext guarded = false := by
            cases item <;> first | rfl | contradiction
          simp [hleading, hnext]
        · have htrivia : item.isTrivia = true := by simpa [goesFirst, hleading] using hfirst
          rcases hsplit : splitLeading rest with ⟨leading, after⟩
          cases leading <;> simp [hleading, htrivia, flipAll, hplain]
      · have hother : item.isLeading = false ∧ item.isTrivia = false := by
          simpa [goesFirst] using hfirst
        have hflipped : (if guarded then item else flip options item).isLeading = false ∧
            (if guarded then item else flip options item).isTrivia = false := by
          cases guarded <;> simp [isLeading_flip, isTrivia_flip, hother]
        rw [flipAll, splitLeading, splitLeading]
        simp [hflipped, hother, flipAll]

end Item

/-- Flipping passes the preface by. -/
theorem Stylesheet.addPreface_flip (options : FlipOptions) (d : Direction) (sheet : Stylesheet) :
    addPreface d (flip options sheet) = flip options (addPreface d sheet) := by
  have hplain : ∀ item ∈ (Item.splitLeading sheet).1, item.isPlain = true := fun item hitem =>
    Item.isPlain_of_goesFirst (Item.goesFirst_of_mem_splitLeading hitem)
  obtain ⟨guarded, hflip, -⟩ := Item.flipAll_append_of_isPlain options hplain false
    (.rule (.preface d) :: (Item.splitLeading sheet).2)
  calc addPreface d (flip options sheet)
      = (Item.splitLeading sheet).1 ++ .rule (.preface d) ::
          Item.flipAll options false (Item.splitLeading sheet).2 := by
        rw [addPreface, flip, Item.splitLeading_flipAll, Bool.false_and]
    _ = (Item.splitLeading sheet).1 ++
          Item.flipAll options guarded (.rule (.preface d) :: (Item.splitLeading sheet).2) := by
        rw [Item.flipAll, Item.flip, Rule.flip_preface, ite_self]
        rfl
    _ = flip options (addPreface d sheet) := hflip.symm

namespace Stylesheet

/-- The roles that stand side by side, at the top and then at every level below it. -/
def levels (sheet : Stylesheet) : List (List Role) := sheet.map Item.role :: Item.levelsEach sheet

/-- If no direction marker comes right after `@noflip`, at no level, then it makes no difference
whether a stylesheet is cleaned or flipped first. -/
theorem flip_clean_eq_clean_flip (sheet : Stylesheet) (d : Direction) (options : FlipOptions)
    (hapart : (levels sheet).all (guardsApart false) = true) :
    flip options (clean d sheet) = clean d (flip options sheet) := by
  rw [levels, List.all_cons, Bool.and_eq_true, ← Item.map_role_cleanEach d] at hapart
  calc flip options (clean d sheet)
      = addPreface d (flip options (Item.cleanAll d sheet)) := by
        rw [clean, addPreface_flip]
    _ = addPreface d
          (strip Item.role d none (Item.flipAll options false (Item.cleanEach d sheet))) := by
        rw [Item.strip_flipAll options d hapart.1, flip, Item.cleanAll_eq_strip]
    _ = clean d (flip options sheet) := by
        rw [← Item.cleanEach_flipAll options d hapart.2, clean, Item.cleanAll_eq_strip, flip]

theorem flip_clean_eq_clean_flip_media :
    let sheet := parse ("@import url(x);/*@noflip*/ .a\x7bleft:0\x7d @media print\x7b" ++
      "/*@rtl-only*/ .b\x7bleft:0\x7d /*@ltr-only*/ .c\x7b/*@rtl-only*/ top:0;left:1px\x7d\x7d"
      ).toList
    (levels sheet).all (guardsApart false) = true ∧
      flip {} (clean .ltr sheet) = clean .ltr (flip {} sheet) := by
  intro sheet
  have hapart : (levels sheet).all (guardsApart false) = true := by decide +kernel
  exact ⟨hapart, flip_clean_eq_clean_flip sheet .ltr {} hapart⟩

/-- A guard in front of a direction marker goes over to the item that comes next. -/
example :
    let sheet := parse "/*@noflip*/ /*@rtl-only*/ .a\x7b\x7d.b\x7bleft:0\x7d".toList
    render (flip {} (clean .ltr sheet)) ≠ render (clean .ltr (flip {} sheet)) := by
  decide +kernel

end Stylesheet

end StyleFlip
