import StyleFlip.Flip.Edit
import StyleFlip.Sheet.Basic

/-!
# Markers and the items they speak about

A marker speaks about the item after it, with nothing but whitespace between. Marker handling sees
an item only through its role, so the same rules serve stylesheets and rule bodies.
-/

namespace StyleFlip

inductive Role
  | blank
  | note (marker : Option Marker)
  /-- An item that direction markers can speak about. -/
  | target
  | other
deriving DecidableEq, Repr

def Item.role : Item → Role
  | .rule _ => .target
  | .statement _ _ => .target
  | .verbatim _ _ => .target
  | .group _ _ => .target
  | .comment c => .note c.marker
  | .whitespace _ => .blank
  | .raw _ => .other

def BodyItem.role : BodyItem → Role
  | .declaration _ => .target
  | .comment c => .note c.marker
  | .whitespace _ => .blank
  | .raw _ => .other

/-- Whether an item after this one is guarded by `@noflip`, given whether this one is. -/
def Role.guardNext (guarded : Bool) : Role → Bool
  | .blank => guarded
  | .note marker => marker = some .noFlip
  | _ => false

/-- The direction that a marker keeps its item for. -/
def Role.only? : Role → Option Direction
  | .note (some (.only d)) => some d
  | _ => none

section Lists

variable {α : Type} (role : α → Role)

def withGuards (guarded : Bool) : List α → List (α × Bool)
  | [] => []
  | a :: rest => (a, guarded) :: withGuards ((role a).guardNext guarded) rest

/-- Whether the next item that is not blank is one that a direction marker can speak about. -/
def targetAhead (rest : List α) : Bool :=
  match rest.dropWhile (role · = .blank) with
  | a :: _ => role a = .target
  | [] => false

/-- The directions of the markers that speak about an item, in order. -/
def liveMarkers : List α → List Direction
  | [] => []
  | a :: rest =>
    match (role a).only? with
    | some d => if targetAhead role rest then d :: liveMarkers rest else liveMarkers rest
    | none => liveMarkers rest

def pastBlanks (items : List α) (i : Nat) : Nat :=
  i + ((items.drop i).takeWhile (role · = .blank)).length

theorem le_pastBlanks (items : List α) (i : Nat) : i ≤ pastBlanks role items i :=
  Nat.le_add_right _ _

def drain (items : List α) (i j : Nat) : List α := items.take i ++ items.drop j

theorem length_drain_sub_lt {items : List α} {i j : Nat} (hi : i < items.length) (hij : i < j) :
    (drain items i j).length - i < items.length - i := by
  rw [drain, List.length_append, List.length_take, List.length_drop]
  omega

/-- Applies the direction markers of a list from position `i` on, where `changed` tells whether
anything was removed before. A marker that speaks about an item is removed with the blanks after it,
and with the item if it names the other direction. What came after them stands at position `i` then,
which is looked at again. -/
def stripFrom (d : Direction) (i : Nat) (changed : Bool) (items : List α) : Edit (List α) :=
  if h : i < items.length then
    match (role items[i]).only? with
    | some marked =>
      let target := pastBlanks role items (i + 1)
      if items[target]?.any (role · = .target) then
        stripFrom d i true (drain items i (if marked = d then target else target + 1))
      else stripFrom d (i + 1) changed items
    | none => stripFrom d (i + 1) changed items
  else ⟨items, changed⟩
termination_by items.length - i
decreasing_by
  · apply length_drain_sub_lt h
    have htarget := le_pastBlanks role items (i + 1)
    split <;> omega
  · omega
  · omega

def stripMarked (d : Direction) (items : List α) : Edit (List α) := stripFrom role d 0 false items

end Lists

end StyleFlip
