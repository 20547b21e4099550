import StyleFlip.Span

/-!
# Lexemes and tokens

Lexemes, the smallest meaningful pieces of a stylesheet, and tokens, which are lexemes with their
place in the source.
-/

namespace StyleFlip

/-- The kind of a lexeme. A `function` includes its opening parenthesis, a `url` is the whole
`url(...)` literal, and a `number` includes its unit or percent sign. -/
inductive Kind
  | whitespace
  | comment
  | ident
  | function
  | atKeyword
  | hash
  | string
  | url
  | number
  | colon
  | semicolon
  | comma
  | openBrace
  | closeBrace
  | openBracket
  | closeBracket
  | openParen
  | closeParen
  | delim
deriving DecidableEq, Repr

structure Lexeme where
  kind : Kind
  text : Text
deriving DecidableEq, Repr

structure Token extends Lexeme where
  span : Span
deriving DecidableEq, Repr

namespace Token

def isTrivia (t : Token) : Bool := t.kind == .whitespace || t.kind == .comment

def isDelim (c : Char) (t : Token) : Bool := t.kind == .delim && t.text == [c]

end Token

def textOf (tokens : List Token) : Text := tokens.flatMap (·.text)

@[simp]
theorem textOf_nil : textOf [] = [] := rfl

@[simp]
theorem textOf_cons (t : Token) (rest : List Token) : textOf (t :: rest) = t.text ++ textOf rest :=
  rfl

@[simp]
theorem textOf_append (a b : List Token) : textOf (a ++ b) = textOf a ++ textOf b := by
  simp [textOf]

def spanOf (tokens : List Token) : Span :=
  match tokens.head?, tokens.getLast? with
  | some first, some last => first.span.join last.span
  | _, _ => .unknown

end StyleFlip
