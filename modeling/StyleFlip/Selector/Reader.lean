import StyleFlip.Selector.Basic
import StyleFlip.Token.Split

/-!
# Reading selectors

`part` cuts one part off a run of tokens and `Selector.read` goes on until none are left.
-/

namespace StyleFlip

/-- The delimiters that may stand before the `=` of an attribute matcher. -/
def isMatcherMark (t : Token) : Bool :=
  ["~", "|", "^", "$", "*"].any fun mark => t.text == mark.toList

/-- Cuts the mark off the end of the tokens before an `=`. -/
def splitMatcherMark (tokens : List Token) : List Token × List Token :=
  match tokens.getLast? with
  | some mark => if isMatcherMark mark then (tokens.dropLast, [mark]) else (tokens, [])
  | none => ([], [])

/-- Reads what stands between square brackets: a name and, when there is an `=`, the matcher with
the blanks after it, one token of value, and flags. -/
def Attribute.read (tokens : List Token) : Attribute :=
  match tokens.dropWhile (!·.isDelim '=') with
  | [] => ⟨textOf tokens, [], [], []⟩
  | equals :: after =>
    let before := splitMatcherMark (tokens.takeWhile (!·.isDelim '='))
    let rest := after.dropWhile (·.isTrivia)
    { name := textOf before.1
      matcher := textOf (before.2 ++ equals :: after.takeWhile (·.isTrivia))
      value := textOf (rest.take 1)
      flags := textOf (rest.drop 1) }

def pseudoPart (colons rest : List Token) : SelectorPart × List Token :=
  match rest with
  | [] => (.other (textOf colons), [])
  | t :: after =>
    match t.kind with
    | .ident => (.pseudo (textOf (colons ++ [t])), after)
    | .function =>
      let split := splitClosing .paren 0 after
      (.pseudoFunction (textOf (colons ++ t :: (split.1 ++ split.2.take 1))), split.2.drop 1)
    | _ => (.other (textOf colons), rest)

def attributePart (opening : Token) (rest : List Token) : SelectorPart × List Token :=
  match rest.dropWhile (·.kind != .closeBracket) with
  | [] => (.other (textOf (opening :: rest)), [])
  | _ :: after => (.attr (Attribute.read (rest.takeWhile (·.kind != .closeBracket))), after)

def isCombinator (t : Token) : Bool := t.isDelim '>' || t.isDelim '+' || t.isDelim '~'

def selectorPart (t : Token) (rest : List Token) : SelectorPart × List Token :=
  match t.kind with
  | .whitespace => (.whitespace t.text, rest)
  | .comment => (.comment t.text, rest)
  | .ident => (.element t.text, rest)
  | .hash => (.idName (t.text.drop 1), rest)
  | .comma => (.comma, rest)
  | .colon =>
    match rest with
    | second :: after =>
      if second.kind == .colon then pseudoPart [t, second] after else pseudoPart [t] rest
    | [] => pseudoPart [t] []
  | .openBracket => attributePart t rest
  | .delim =>
    match rest with
    | name :: after =>
      if t.isDelim '.' && name.kind == .ident then (.className name.text, after)
      else if isCombinator t then (.combinator t.text, rest)
      else (.other t.text, rest)
    | [] => (if isCombinator t then .combinator t.text else .other t.text, [])
  | _ => (.other t.text, rest)

theorem pseudoPart_length (colons rest : List Token) :
    (pseudoPart colons rest).2.length ≤ rest.length := by
  unfold pseudoPart
  split
  · simp
  rename_i after
  have hlength := length_splitClosing .paren 0 after
  split
  · simp
  · simp
    omega
  · simp

theorem attributePart_length (opening : Token) (rest : List Token) :
    (attributePart opening rest).2.length ≤ rest.length := by
  unfold attributePart
  split
  · simp
  · rename_i heq
    have hlength := (List.dropWhile_suffix (l := rest) (·.kind != .closeBracket)).length_le
    rw [heq] at hlength
    exact Nat.le_of_succ_le hlength

theorem selectorPart_length (t : Token) (rest : List Token) :
    (selectorPart t rest).2.length ≤ rest.length := by
  unfold selectorPart
  split
  all_goals try exact Nat.le_refl _
  · split
    · split
      · exact Nat.le_succ_of_le (pseudoPart_length _ _)
      · exact pseudoPart_length _ _
    · exact pseudoPart_length _ _
  · exact attributePart_length t rest
  · split
    · split
      · exact Nat.le_succ _
      split <;> exact Nat.le_refl _
    · exact Nat.le_refl _

def Selector.read (tokens : List Token) : Selector :=
  match tokens with
  | [] => []
  | t :: rest =>
    let next := selectorPart t rest
    next.1 :: Selector.read next.2
termination_by tokens.length
decreasing_by exact Nat.lt_succ_of_le (selectorPart_length t rest)

end StyleFlip
