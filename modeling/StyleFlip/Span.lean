import StyleFlip.Text.Basic

/-!
# Places in a source text

A place is told by its byte offset, line and column. Only a line feed starts a new
line, and columns count characters.
-/

namespace StyleFlip

structure Position where
  offset : Nat
  line : Nat
  column : Nat
deriving DecidableEq, Repr

namespace Position

def origin : Position := ⟨0, 1, 1⟩

def advance (p : Position) (c : Char) : Position :=
  if c = '\n' then ⟨p.offset + c.utf8Size, p.line + 1, 1⟩
  else ⟨p.offset + c.utf8Size, p.line, p.column + 1⟩

def after (p : Position) (text : Text) : Position := text.foldl advance p

@[simp]
theorem after_nil (p : Position) : p.after [] = p := rfl

@[simp]
theorem after_append (p : Position) (a b : Text) : p.after (a ++ b) = (p.after a).after b := by
  simp [after]

theorem offset_advance (p : Position) (c : Char) :
    (p.advance c).offset = p.offset + c.utf8Size := by
  unfold advance
  split <;> rfl

theorem offset_after (p : Position) (text : Text) :
    (p.after text).offset = p.offset + Text.byteSize text := by
  induction text generalizing p with
  | nil => simp [Text.byteSize]
  | cons c rest ih =>
    have hstep : p.after (c :: rest) = (p.advance c).after rest := rfl
    rw [hstep, ih, offset_advance, Text.byteSize, Nat.add_assoc]

end Position

/-- A range of bytes with the line and column of its start. -/
structure Span where
  start : Nat
  stop : Nat
  line : Nat
  column : Nat
deriving DecidableEq, Repr

namespace Span

/-- The span of content that stands in no source text. -/
def unknown : Span := ⟨0, 0, 0, 0⟩

def ofText (p : Position) (text : Text) : Span :=
  ⟨p.offset, (p.after text).offset, p.line, p.column⟩

def isUnknown (s : Span) : Bool := s.line == 0 && s.column == 0

/-- The smallest span that covers both; an unknown span adds nothing. -/
def join (a b : Span) : Span :=
  if a.isUnknown then b
  else if b.isUnknown then a
  else
    let first := if a.start ≤ b.start then a else b
    ⟨min a.start b.start, max a.stop b.stop, first.line, first.column⟩

def size (s : Span) : Nat := s.stop - s.start

def isEmpty (s : Span) : Bool := s.start == s.stop

def display (s : Span) : Text :=
  if s.isUnknown then "<unknown>".toList
  else Text.ofNat s.line ++ ':' :: Text.ofNat s.column

end Span

end StyleFlip
