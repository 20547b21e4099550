import StyleFlip.Token.Basic

/-!
# Cutting a run of tokens in two

Each function here returns the tokens before a stopping point and the tokens from there on, so the
two parts make up the run.
-/

namespace StyleFlip

/-- The depth of parentheses and square brackets after a token of this kind; a closing one without
its opening one leaves the depth at zero. -/
def Kind.nest (depth : Nat) : Kind → Nat
  | .function => depth + 1
  | .openParen => depth + 1
  | .openBracket => depth + 1
  | .closeParen => depth - 1
  | .closeBracket => depth - 1
  | _ => depth

/-- What stands before a block ends at a `{` or `;` outside parentheses and brackets, and in any
case before a `}`. -/
def endsPrelude (depth : Nat) (kind : Kind) : Bool :=
  kind == .closeBrace || (depth == 0 && (kind == .openBrace || kind == .semicolon))

def splitPrelude (depth : Nat) : List Token → List Token × List Token
  | [] => ([], [])
  | t :: rest =>
    if endsPrelude depth t.kind then ([], t :: rest)
    else Prod.map (t :: ·) id (splitPrelude (t.kind.nest depth) rest)

theorem splitPrelude_append (depth : Nat) (tokens : List Token) :
    (splitPrelude depth tokens).1 ++ (splitPrelude depth tokens).2 = tokens := by
  fun_induction splitPrelude depth tokens <;> simp_all

/-- A pair of brackets that is matched by counting. -/
inductive Bracket
  | brace
  | paren
deriving DecidableEq, Repr

def Bracket.opens : Bracket → Kind → Bool
  | .brace, kind => kind == .openBrace
  | .paren, kind => kind == .function || kind == .openParen

def Bracket.closes : Bracket → Kind → Bool
  | .brace, kind => kind == .closeBrace
  | .paren, kind => kind == .closeParen

/-- Splits in front of the token that closes a bracket, with `depth` further ones open inside it. If
there is no such token, the second part is empty. -/
def splitClosing (bracket : Bracket) (depth : Nat) : List Token → List Token × List Token
  | [] => ([], [])
  | t :: rest =>
    if bracket.closes t.kind then
      match depth with
      | 0 => ([], t :: rest)
      | depth + 1 => Prod.map (t :: ·) id (splitClosing bracket depth rest)
    else if bracket.opens t.kind then
      Prod.map (t :: ·) id (splitClosing bracket (depth + 1) rest)
    else Prod.map (t :: ·) id (splitClosing bracket depth rest)

theorem splitClosing_append (bracket : Bracket) (depth : Nat) (tokens : List Token) :
    (splitClosing bracket depth tokens).1 ++ (splitClosing bracket depth tokens).2 = tokens := by
  fun_induction splitClosing bracket depth tokens <;> simp_all

theorem length_splitClosing (bracket : Bracket) (depth : Nat) (tokens : List Token) :
    (splitClosing bracket depth tokens).1.length + (splitClosing bracket depth tokens).2.length =
      tokens.length := by
  rw [← List.length_append, splitClosing_append]

/-- Splits off one segment of a rule body: up to a `;` outside all brackets, or through the `}` that
closes the first block in it. -/
def splitSegment (depth braces : Nat) : List Token → List Token × List Token
  | [] => ([], [])
  | t :: rest =>
    if t.kind = .semicolon ∧ depth = 0 ∧ braces = 0 then ([], t :: rest)
    else if t.kind = .closeBrace then
      if braces ≤ 1 then ([t], rest)
      else Prod.map (t :: ·) id (splitSegment depth (braces - 1) rest)
    else if t.kind = .openBrace then
      Prod.map (t :: ·) id (splitSegment depth (braces + 1) rest)
    else Prod.map (t :: ·) id (splitSegment (t.kind.nest depth) braces rest)

theorem splitSegment_append (depth braces : Nat) (tokens : List Token) :
    (splitSegment depth braces tokens).1 ++ (splitSegment depth braces tokens).2 = tokens := by
  fun_induction splitSegment depth braces tokens <;> simp_all

theorem splitSegment_ne_nil {t : Token} (depth braces : Nat) (ts : List Token)
    (h : t.kind ≠ .semicolon) : (splitSegment depth braces (t :: ts)).1 ≠ [] := by
  unfold splitSegment
  repeat' split
  all_goals simp_all

end StyleFlip
