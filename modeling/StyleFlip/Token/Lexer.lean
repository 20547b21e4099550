import StyleFlip.Token.Basic
import StyleFlip.Token.Scan

/-!
# From text to tokens

One scanner per class of lexeme, chosen by the first few characters; the whole
text is cut, so the lexemes concatenate to it (`flatMap_text_lexemes`).
-/

namespace StyleFlip

namespace Lexer

def isSpace (c : Char) : Bool :=
  c == ' ' || c == '\t' || c == '\n' || c == '\r' || c == '\x0c'

def isNameStart (c : Char) : Bool := c.isAlpha || c == '_' || 128 ≤ c.toNat

def isNameChar (c : Char) : Bool := isNameStart c || c.isDigit || c == '-'

def isQuote (c : Char) : Bool := c == '"' || c == '\''

def isSign (c : Char) : Bool := c == '+' || c == '-'

def isExponentMark (c : Char) : Bool := c == 'e' || c == 'E'

def startsWith (p : Char → Bool) : Text → Bool
  | c :: _ => p c
  | [] => false

def startsComment : Text → Bool
  | '/' :: '*' :: _ => true
  | _ => false

def startsDigit : Text → Bool := startsWith Char.isDigit

def startsFraction : Text → Bool
  | '.' :: rest => startsDigit rest
  | _ => false

def startsExponent : Text → Bool
  | c :: rest => isExponentMark c && startsDigit rest
  | [] => false

/-- A digit, or a fraction, either of them after an optional sign. -/
def startsNumber : Text → Bool
  | [] => false
  | c :: rest =>
    startsDigit (c :: rest) || startsFraction (c :: rest) ||
      (isSign c && (startsDigit rest || startsFraction rest))

def startsIdent : Text → Bool
  | [] => false
  | ['\\'] => false
  | '\\' :: c :: _ => c != '\n'
  | ['-'] => false
  | '-' :: c :: _ => isNameStart c || c == '-' || c == '\\'
  | c :: _ => isNameStart c

def startsHashName : Text → Bool := startsWith fun c => isNameChar c || c == '\\'

def nameVerdict (c : Char) : Scan.Verdict :=
  if isNameChar c || c == '\\' then .take else .stop

def quotedVerdict (quote c : Char) : Scan.Verdict :=
  if c == quote then .last else if c == '\n' then .stop else .take

def urlVerdict (c : Char) : Scan.Verdict := if c == ')' then .last else .take

def name : Scan := Scan.units nameVerdict

/-- A string after its opening quote: through the closing quote, or up to a line feed. -/
def quotedBody (quote : Char) : Scan := Scan.units (quotedVerdict quote)

def quoted : Scan
  | c :: rest =>
    if isQuote c then Prod.map (c :: ·) id (quotedBody c rest) else ([], c :: rest)
  | [] => ([], [])

/-- A url after its opening parenthesis: blanks, perhaps a string, then through the closing
parenthesis. -/
def urlBody : Scan := ((Scan.many isSpace).andThen quoted).andThen (Scan.units urlVerdict)

def number : Scan :=
  (Scan.one.when (startsWith isSign)).andThen <|
    (Scan.many Char.isDigit).andThen <|
      ((Scan.one.andThen (Scan.many Char.isDigit)).when startsFraction).andThen <|
        ((Scan.one.andThen (Scan.many Char.isDigit)).when startsExponent).andThen fun text =>
          if startsWith (· == '%') text then Scan.one text else name.when startsIdent text

def punctuation : Char → Kind
  | ':' => .colon
  | ';' => .semicolon
  | ',' => .comma
  | '{' => .openBrace
  | '}' => .closeBrace
  | '[' => .openBracket
  | ']' => .closeBracket
  | '(' => .openParen
  | ')' => .closeParen
  | _ => .delim

def named (text : Text) : Kind × Text × Text :=
  match name text with
  | (taken, '(' :: rest) =>
    if Text.sameIgnoringCase taken "url".toList then
      (.url, Prod.map (taken ++ '(' :: ·) id (urlBody rest))
    else (.function, taken ++ ['('], rest)
  | (taken, rest) => (.ident, taken, rest)

def lexeme (c : Char) (rest : Text) : Kind × Text × Text :=
  if isSpace c then (.whitespace, Scan.many isSpace (c :: rest))
  else if startsComment (c :: rest) then
    (.comment, (Scan.one.andThen (Scan.one.andThen Scan.throughCommentEnd)) (c :: rest))
  else if isQuote c then (.string, quoted (c :: rest))
  else if startsNumber (c :: rest) then (.number, number (c :: rest))
  else if startsIdent (c :: rest) then named (c :: rest)
  else if c == '@' && startsIdent rest then (.atKeyword, (Scan.one.andThen name) (c :: rest))
  else if c == '#' && startsHashName rest then (.hash, (Scan.one.andThen name) (c :: rest))
  else (punctuation c, [c], rest)

theorem name_lossless : Scan.Lossless name := Scan.units_lossless _

theorem quoted_lossless : Scan.Lossless quoted := by
  intro text
  fun_cases quoted text
  · simpa [quotedBody] using Scan.units_lossless _ _
  · rfl
  · rfl

theorem urlBody_lossless : Scan.Lossless urlBody :=
  Scan.andThen_lossless (Scan.andThen_lossless (Scan.many_lossless _) quoted_lossless)
    (Scan.units_lossless _)

theorem number_lossless : Scan.Lossless number := by
  refine Scan.andThen_lossless (Scan.when_lossless Scan.one_lossless) ?_
  refine Scan.andThen_lossless (Scan.many_lossless _) ?_
  have hdigits := Scan.andThen_lossless Scan.one_lossless (Scan.many_lossless Char.isDigit)
  refine Scan.andThen_lossless (Scan.when_lossless hdigits) ?_
  refine Scan.andThen_lossless (Scan.when_lossless hdigits) ?_
  intro text
  dsimp only
  split
  · exact Scan.one_lossless text
  · exact Scan.when_lossless name_lossless text

theorem named_lossless (text : Text) : (named text).2.1 ++ (named text).2.2 = text := by
  have hname := name_lossless text
  unfold named
  split
  · rename_i taken rest heq
    rw [heq] at hname
    split
    · simpa [urlBody_lossless rest] using hname
    · simpa using hname
  · rename_i taken rest _ heq
    rw [heq] at hname
    exact hname

/-- A lexeme and the text after it make up the text. -/
theorem lexeme_lossless (c : Char) (rest : Text) :
    (lexeme c rest).2.1 ++ (lexeme c rest).2.2 = c :: rest := by
  have hone := Scan.one_lossless
  unfold lexeme
  split
  · exact Scan.many_lossless _ _
  split
  · exact Scan.andThen_lossless hone
      (Scan.andThen_lossless hone Scan.throughCommentEnd_lossless) _
  split
  · exact quoted_lossless _
  split
  · exact number_lossless _
  split
  · exact named_lossless _
  split
  · exact Scan.andThen_lossless hone name_lossless _
  split
  · exact Scan.andThen_lossless hone name_lossless _
  · rfl

theorem nameVerdict_ne_stop {c : Char} {rest : Text} (h : startsIdent (c :: rest) = true) :
    nameVerdict c ≠ .stop := by
  have hname : isNameChar c = true ∨ c = '\\' := by
    unfold startsIdent at h
    unfold isNameChar
    split at h <;> simp_all
  rcases hname with hname | rfl <;> simp [nameVerdict, *]

theorem name_ne_nil {c : Char} {rest : Text} (h : startsIdent (c :: rest) = true) :
    (name (c :: rest)).1 ≠ [] :=
  Scan.units_ne_nil rest (nameVerdict_ne_stop h)

theorem number_ne_nil {c : Char} {rest : Text} (h : startsNumber (c :: rest) = true) :
    (number (c :: rest)).1 ≠ [] := by
  by_cases hsign : isSign c = true
  · exact Scan.andThen_ne_nil_left (by simp [Scan.when, startsWith, hsign, Scan.one])
  refine Scan.andThen_ne_nil_right (by simp [Scan.when, startsWith, hsign]) ?_
  by_cases hdigit : c.isDigit = true
  · exact Scan.andThen_ne_nil_left (by simp [Scan.many, hdigit])
  refine Scan.andThen_ne_nil_right (by simp [Scan.many, hdigit]) ?_
  have hfraction : startsFraction (c :: rest) = true := by
    simpa [startsNumber, startsDigit, startsWith, hsign, hdigit] using h
  exact Scan.andThen_ne_nil_left (by simp [Scan.when, hfraction, Scan.andThen_apply, Scan.one])

theorem named_ne_nil {c : Char} {rest : Text} (h : startsIdent (c :: rest) = true) :
    (named (c :: rest)).2.1 ≠ [] := by
  have hname := name_ne_nil h
  unfold named
  split
  · split <;> simp
  · rename_i heq
    rwa [heq] at hname

/-- A lexeme is never empty. -/
theorem lexeme_ne_nil (c : Char) (rest : Text) : (lexeme c rest).2.1 ≠ [] := by
  unfold lexeme
  split
  · simp [Scan.many, *]
  split
  · simp [Scan.andThen_apply, Scan.one]
  split
  · simp [quoted, *]
  split
  · exact number_ne_nil ‹_›
  split
  · exact named_ne_nil ‹_›
  split
  · simp [Scan.andThen_apply, Scan.one]
  split
  · simp [Scan.andThen_apply, Scan.one]
  · simp

theorem lexeme_rest_length (c : Char) (rest : Text) :
    (lexeme c rest).2.2.length < (c :: rest).length := by
  have hlossless := congrArg List.length (lexeme_lossless c rest)
  have hpos := List.length_pos_iff.mpr (lexeme_ne_nil c rest)
  rw [List.length_append] at hlossless
  omega

end Lexer

def lexemes (text : Text) : List Lexeme :=
  match text with
  | [] => []
  | c :: rest =>
    let next := Lexer.lexeme c rest
    ⟨next.1, next.2.1⟩ :: lexemes next.2.2
termination_by text.length
decreasing_by exact Lexer.lexeme_rest_length c rest

/-- Nothing of the text is lost. -/
theorem flatMap_text_lexemes (text : Text) : (lexemes text).flatMap (·.text) = text := by
  fun_induction lexemes text with
  | case1 => rfl
  | case2 c rest next ih => rw [List.flatMap_cons, ih, Lexer.lexeme_lossless]

def place (start : Position) : List Lexeme → List Token
  | [] => []
  | l :: rest => { l with span := .ofText start l.text } :: place (start.after l.text) rest

theorem map_toLexeme_place (start : Position) (ls : List Lexeme) :
    (place start ls).map (·.toLexeme) = ls := by
  induction ls generalizing start with
  | nil => rfl
  | cons l rest ih => simp [place, ih]

def tokenize (css : Text) : List Token := place .origin (lexemes css)

/-- The tokens of a text print back to it. -/
theorem textOf_tokenize (css : Text) : textOf (tokenize css) = css := by
  have htext : textOf (tokenize css) = ((tokenize css).map (·.toLexeme)).flatMap (·.text) := by
    simp [textOf, List.flatMap_map]
  rw [htext, tokenize, map_toLexeme_place, flatMap_text_lexemes]

end StyleFlip
