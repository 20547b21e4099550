import StyleFlip.Text.Blank

/-!
# Writing directions
-/

namespace StyleFlip

inductive Direction
  | ltr
  | rtl
deriving DecidableEq, Repr

namespace Direction

def name : Direction → Text
  | .ltr => "ltr".toList
  | .rtl => "rtl".toList

def opposite : Direction → Direction
  | .ltr => .rtl
  | .rtl => .ltr

@[simp]
theorem opposite_opposite (d : Direction) : d.opposite.opposite = d := by
  cases d <;> rfl

def ofName? (name : Text) : Option Direction :=
  if name = "ltr".toList then some .ltr
  else if name = "rtl".toList then some .rtl
  else none

@[simp]
theorem ofName?_name (d : Direction) : ofName? d.name = some d := by
  cases d <;> rfl

/-- Why a text names no direction: the text, trimmed and in lower case, is not one of the names. -/
structure UnknownName where
  name : Text
deriving DecidableEq, Repr

def UnknownName.message (e : UnknownName) : Text :=
  "unknown direction '".toList ++ e.name ++ "', expected ltr or rtl".toList

/-- Reads a name, in any case and with blanks around it. -/
def read (text : Text) : Except UnknownName Direction :=
  let name := Text.lower (Text.trim text)
  match ofName? name with
  | some d => .ok d
  | none => .error ⟨name⟩

end Direction

end StyleFlip
