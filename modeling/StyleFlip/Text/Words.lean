import StyleFlip.Text.Basic

/-!
# Words in a text

A word is a longest run of ASCII letters and digits; every other character stands alone. A text is
the concatenation of its pieces (`flatMap_text_pieces`).
-/

namespace StyleFlip.Text

inductive Piece
  | word (letters : Text)
  | other (char : Char)
deriving DecidableEq, Repr

def Piece.text : Piece → Text
  | .word letters => letters
  | .other c => [c]

/-- Puts a letter in front: it joins the word that follows it, or is a word of its own. -/
def pushLetter (c : Char) : List Piece → List Piece
  | .word letters :: more => .word (c :: letters) :: more
  | more => .word [c] :: more

def pieces : Text → List Piece
  | [] => []
  | c :: rest => if c.isAlphanum then pushLetter c (pieces rest) else .other c :: pieces rest

theorem flatMap_text_pushLetter (c : Char) (ps : List Piece) :
    (pushLetter c ps).flatMap Piece.text = c :: ps.flatMap Piece.text := by
  unfold pushLetter
  split <;> rfl

theorem flatMap_text_pieces (text : Text) : (pieces text).flatMap Piece.text = text := by
  induction text with
  | nil => rfl
  | cons c rest ih =>
    unfold pieces
    split
    · rw [flatMap_text_pushLetter, ih]
    · rw [List.flatMap_cons, ih]
      rfl

def mapWords (f : Text → Text) (text : Text) : Text :=
  (pieces text).flatMap fun
    | .word letters => f letters
    | .other c => [c]

def anyWord (p : Text → Bool) (text : Text) : Bool :=
  (pieces text).any fun
    | .word letters => p letters
    | .other _ => false

/-- A text in the letter case of a model: lower, UPPER or Capitalized. -/
def inCaseOf (model text : Text) : Text :=
  if !model.any Char.isUpper then text
  else if !model.any Char.isLower then upper text
  else
    match model, text with
    | m :: _, c :: rest => if m.isUpper then c.toUpper :: rest else text
    | _, _ => text

end StyleFlip.Text
