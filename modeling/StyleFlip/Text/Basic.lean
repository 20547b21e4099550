/-!
# Text

A text is a list of characters. Case is ASCII case throughout: the names of the format are ASCII,
and every other character stands for itself.
-/

namespace StyleFlip

abbrev Text := List Char

namespace Text

def lower (text : Text) : Text := text.map Char.toLower

def upper (text : Text) : Text := text.map Char.toUpper

def sameIgnoringCase (a b : Text) : Bool := lower a == lower b

/-- Length of the UTF-8 encoding. -/
def byteSize : Text → Nat
  | [] => 0
  | c :: rest => c.utf8Size + byteSize rest

@[simp]
theorem byteSize_append (a b : Text) : byteSize (a ++ b) = byteSize a + byteSize b := by
  induction a with
  | nil => simp [byteSize]
  | cons c rest ih => simp [byteSize, ih, Nat.add_assoc]

def ofNat (n : Nat) : Text := Nat.toDigits 10 n

end Text

end StyleFlip
