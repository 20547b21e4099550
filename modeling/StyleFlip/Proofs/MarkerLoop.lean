import StyleFlip.Clean

/-!
# Markers in one pass

Cleaning goes through a list by position, removes what a marker asks for and looks at the same
position again. What stands before the position is done with, and what stands from it on is as it
was in the list at first. So the loop does with the rest of the list what one pass over it does that
drops and keeps items (`stripFrom_eq`). All that is said about cleaning is proved of this pass.
-/

namespace StyleFlip

section Lists

variable {α : Type} {role : α → Role}

theorem targetAhead_cons_of_target {a : α} {rest : List α} (h : role a = .target) :
    targetAhead role (a :: rest) = true := by
  simp [targetAhead, h]

theorem targetAhead_cons_of_blank {a : α} {rest : List α} (h : role a = .blank) :
    targetAhead role (a :: rest) = targetAhead role rest := by
  simp [targetAhead, h]

theorem blank_of_targetAhead {a : α} {rest : List α} (h : targetAhead role (a :: rest) = true)
    (ha : role a ≠ .target) : role a = .blank := by
  by_cases hblank : role a = .blank
  · exact hblank
  · simp [targetAhead, hblank, ha] at h

variable (role)

/-- Drops every marker that speaks about an item, together with the blanks after it, and the item
too when the marker names the other direction. While a marker is in force, `skipping` tells whether
its item is kept. -/
def strip (d : Direction) (skipping : Option Bool) : List α → List α
  | [] => []
  | a :: rest =>
    match skipping with
    | some keep =>
      if role a = .target then
        if keep then a :: strip d none rest else strip d none rest
      else strip d (some keep) rest
    | none =>
      match (role a).only? with
      | some marked =>
        if targetAhead role rest then strip d (some (marked = d)) rest
        else a :: strip d none rest
      | none => a :: strip d none rest

theorem strip_sublist (d : Direction) (skipping : Option Bool) (items : List α) :
    (strip role d skipping items).Sublist items := by
  fun_induction strip role d skipping items with
  | case1 => exact .slnil
  | case2 a rest htarget ih => exact ih.cons_cons a
  | case3 a rest keep htarget hdrop ih => exact ih.cons a
  | case4 a rest keep htarget ih => exact ih.cons a
  | case5 a rest marked hmarker hahead ih => exact ih.cons a
  | case6 a rest marked hmarker hahead ih => exact ih.cons_cons a
  | case7 a rest hmarker ih => exact ih.cons_cons a

/-- A list loses something just if a marker of it speaks about an item. -/
theorem liveMarkers_isEmpty_iff (d : Direction) (items : List α) :
    (liveMarkers role items).isEmpty = true ↔ strip role d none items = items := by
  induction items with
  | nil => simp [liveMarkers, strip]
  | cons a rest ih =>
      rw [liveMarkers, strip]
      cases (role a).only? with
      | none => simpa using ih
      | some marked =>
          dsimp only
          cases hahead : targetAhead role rest with
          | false => simpa using ih
          | true =>
              have hlength := (strip_sublist role d (some (decide (marked = d))) rest).length_le
              have hshorter : strip role d (some (decide (marked = d))) rest ≠ a :: rest := by
                intro heq
                rw [heq, List.length_cons] at hlength
                omega
              simpa using hshorter

/-! ### The loop -/

theorem drop_pastBlanks (items : List α) (i : Nat) :
    items.drop (pastBlanks role items i) = (items.drop i).dropWhile (role · = .blank) := by
  have hsplit := List.takeWhile_append_dropWhile
    (p := fun a => decide (role a = .blank)) (l := items.drop i)
  rw [pastBlanks, ← List.drop_drop]
  conv => lhs; rhs; rw [← hsplit]
  exact List.drop_left

/-- The item after the blanks is one that a marker can speak about just if such an item is ahead. -/
theorem any_getElem?_pastBlanks (items : List α) (i : Nat) :
    items[pastBlanks role items i]?.any (role · = .target) = targetAhead role (items.drop i) := by
  rw [← Nat.add_zero (pastBlanks role items i), ← List.getElem?_drop, drop_pastBlanks, targetAhead]
  cases (items.drop i).dropWhile (role · = .blank) <;> rfl

variable {role}

/-- The item that a marker speaks about comes after the blanks. -/
theorem strip_some_of_targetAhead {rest : List α} (h : targetAhead role rest = true)
    (d : Direction) (keep : Bool) :
    strip role d (some keep) rest =
      strip role d none ((rest.dropWhile (role · = .blank)).drop (if keep then 0 else 1)) := by
  induction rest with
  | nil => simp [targetAhead] at h
  | cons a rest ih =>
      by_cases htarget : role a = .target
      · cases keep <;> simp [strip, htarget, Role.only?]
      · have hblank := blank_of_targetAhead h htarget
        rw [targetAhead_cons_of_blank hblank] at h
        rw [strip, if_neg htarget, ih h, List.dropWhile_cons_of_pos (by simpa using hblank)]

theorem take_drain {items : List α} {i : Nat} (hi : i < items.length) (j : Nat) :
    (drain items i j).take i = items.take i :=
  List.take_left' (List.length_take_of_le (Nat.le_of_lt hi))

theorem drop_drain {items : List α} {i : Nat} (hi : i < items.length) (j : Nat) :
    (drain items i j).drop i = items.drop j :=
  List.drop_left' (List.length_take_of_le (Nat.le_of_lt hi))

/-- What stands before position `i` is kept, and from there on the loop does what one pass does. -/
theorem stripFrom_eq (d : Direction) (i : Nat) (changed : Bool) (items : List α) :
    stripFrom role d i changed items =
      ⟨items.take i ++ strip role d none (items.drop i),
        changed || !(liveMarkers role (items.drop i)).isEmpty⟩ := by
  fun_induction stripFrom role d i changed items with
  | case1 i changed items hi marked honly target hahead ih =>
      rw [any_getElem?_pastBlanks] at hahead
      have hstop : items.drop (if marked = d then target else target + 1) =
          ((items.drop (i + 1)).dropWhile (role · = .blank)).drop
            (if decide (marked = d) then 0 else 1) := by
        rw [← drop_pastBlanks, List.drop_drop]
        by_cases hmarked : marked = d
        · simp [hmarked, target]
        · simp [hmarked, target]
      simp only [dite_eq_ite] at ih
      rw [ih, take_drain hi, drop_drain hi, List.drop_eq_getElem_cons hi, strip, liveMarkers, honly]
      dsimp only
      rw [if_pos hahead, if_pos hahead, strip_some_of_targetAhead hahead, hstop]
      simp
  | case2 i changed items hi marked honly target hahead ih =>
      rw [any_getElem?_pastBlanks] at hahead
      rw [ih, List.drop_eq_getElem_cons hi, strip, liveMarkers, honly]
      dsimp only
      rw [if_neg hahead, if_neg hahead, List.take_succ_eq_append_getElem hi, List.append_assoc,
        List.singleton_append]
  | case3 i changed items hi honly ih =>
      rw [ih, List.drop_eq_getElem_cons hi, strip, liveMarkers, honly]
      dsimp only
      rw [List.take_succ_eq_append_getElem hi, List.append_assoc, List.singleton_append]
  | case4 i changed items hi =>
      rw [List.take_of_length_le (by omega), List.drop_eq_nil_of_le (by omega), strip, liveMarkers]
      simp

theorem value_stripMarked (d : Direction) (items : List α) :
    (stripMarked role d items).value = strip role d none items := by
  rw [stripMarked, stripFrom_eq]
  rfl

theorem changed_stripMarked (d : Direction) (items : List α) :
    (stripMarked role d items).changed = !(liveMarkers role items).isEmpty := by
  rw [stripMarked, stripFrom_eq]
  rfl

/-- A change is noted just if something was removed. -/
theorem tells_stripMarked (d : Direction) (items : List α) :
    (stripMarked role d items).changed = false ↔ strip role d none items = items := by
  rw [changed_stripMarked, Bool.not_eq_false', liveMarkers_isEmpty_iff]

end Lists

/-! ### Rules and items -/

theorem Rule.clean_eq (d : Direction) (r : Rule) :
    r.clean d =
      { r with
        body := strip BodyItem.role d none r.body
        source := if strip BodyItem.role d none r.body = r.body then r.source else none } := by
  rw [Rule.clean, value_stripMarked]
  by_cases hkept : strip BodyItem.role d none r.body = r.body
  · rw [(tells_stripMarked d r.body).mpr hkept, if_pos hkept]
    rfl
  · rw [Bool.of_not_eq_false (mt (tells_stripMarked d r.body).mp hkept), if_neg hkept]
    rfl

namespace Item

theorem clean_group (d : Direction) (head : AtHead) (items : List Item) :
    clean d (.group head items) = .group head (strip role d none (cleanEach d items)) := by
  rw [clean, value_stripMarked]

theorem cleanAll_eq_strip (d : Direction) (items : List Item) :
    cleanAll d items = strip role d none (cleanEach d items) := by
  rw [cleanAll, value_stripMarked]

end Item

end StyleFlip
