import StyleFlip.Token.Lexer
import StyleFlip.Token.Split

/-!
# How lexemes are spelled

The kind of a lexeme says how its text begins or ends, and for punctuation it says the whole text.
The readers drop those characters and the printers put them back, so every round trip rests on the
fact that all lexemes of a text are spelled as their kinds say (`spelledAll_tokenize`).
-/

namespace StyleFlip

/-- What the kind of a lexeme says about its text. -/
def Kind.Spells (kind : Kind) (text : Text) : Prop :=
  match kind with
  | .whitespace => text ≠ [] ∧ ∀ c ∈ text, Lexer.isSpace c = true
  | .comment => ∃ body, text = '/' :: '*' :: body
  | .string => ∃ quote body, Lexer.isQuote quote = true ∧ text = quote :: body
  | .atKeyword => ∃ c name, text = '@' :: c :: name
  | .hash => ∃ c name, text = '#' :: c :: name
  | .function => ∃ name, name ≠ [] ∧ text = name ++ ['(']
  | .ident => text ≠ []
  | .url => text ≠ []
  | .number => text ≠ []
  | kind => ∃ c, text = [c] ∧ Lexer.punctuation c = kind

def Lexeme.Spelled (l : Lexeme) : Prop := l.kind.Spells l.text

/-- The character of a kind that has only one spelling. -/
def Kind.sign? : Kind → Option Char
  | .colon => some ':'
  | .semicolon => some ';'
  | .comma => some ','
  | .openBrace => some '{'
  | .closeBrace => some '}'
  | .openBracket => some '['
  | .closeBracket => some ']'
  | .openParen => some '('
  | .closeParen => some ')'
  | _ => none

theorem eq_of_sign?_punctuation {c d : Char} (h : (Lexer.punctuation c).sign? = some d) : c = d := by
  unfold Lexer.punctuation at h
  split at h <;> first | exact Option.some.inj h | contradiction

theorem Kind.Spells.text_eq {kind : Kind} {text : Text} {c : Char} (h : kind.Spells text)
    (hsign : kind.sign? = some c) : text = [c] := by
  have hsingle : ∃ d, text = [d] ∧ Lexer.punctuation d = kind := by
    unfold Kind.sign? at hsign
    split at hsign <;> first | exact h | contradiction
  obtain ⟨d, rfl, rfl⟩ := hsingle
  rw [eq_of_sign?_punctuation hsign]

namespace Lexer

/-- Punctuation takes a single character. -/
theorem spells_punctuation (c : Char) : (punctuation c).Spells [c] := by
  unfold punctuation
  split <;> exact ⟨_, rfl, by simp [punctuation]⟩

theorem named_spells {c : Char} {rest : Text} (h : startsIdent (c :: rest) = true) :
    (named (c :: rest)).1.Spells (named (c :: rest)).2.1 := by
  have hname := name_ne_nil h
  unfold named
  split <;> rename_i heq <;> rw [heq] at hname
  · split
    · simp [Kind.Spells]
    · exact ⟨_, hname, rfl⟩
  · exact hname

theorem one_andThen_name_spells {c : Char} {rest : Text} (h : startsWith
    (fun c => isNameChar c || c == '\\') rest = true) :
    ∃ d name', ((Scan.one.andThen name) (c :: rest)).1 = c :: d :: name' := by
  cases rest with
  | nil => simp [startsWith] at h
  | cons d rest =>
      have hne : (name (d :: rest)).1 ≠ [] :=
        Scan.units_ne_nil rest (by
          rw [startsWith] at h
          rw [nameVerdict, if_pos h]
          simp)
      cases htaken : (name (d :: rest)).1 with
      | nil => exact absurd htaken hne
      | cons e name' => exact ⟨e, name', by simp [Scan.andThen_apply, Scan.one, htaken]⟩

theorem startsWith_nameChar_of_startsIdent {rest : Text} (h : startsIdent rest = true) :
    startsWith (fun c => isNameChar c || c == '\\') rest = true := by
  cases rest with
  | nil => simp [startsIdent] at h
  | cons c rest =>
      have hne := nameVerdict_ne_stop h
      unfold nameVerdict at hne
      split at hne
      · assumption
      · contradiction

/-- Every lexeme is spelled as its kind says. -/
theorem lexeme_spells (c : Char) (rest : Text) :
    (lexeme c rest).1.Spells (lexeme c rest).2.1 := by
  unfold lexeme
  split
  · refine ⟨by simp [Scan.many, *], fun d hd => ?_⟩
    exact List.all_eq_true.mp List.all_takeWhile d hd
  split
  · rename_i hcomment
    unfold startsComment at hcomment
    split at hcomment
    · rename_i body heq
      obtain ⟨rfl, rfl⟩ := List.cons.inj heq
      exact ⟨(Scan.throughCommentEnd body).1, rfl⟩
    · contradiction
  split
  · rename_i hquote
    exact ⟨c, (quotedBody c rest).1, hquote, by simp [quoted, hquote]⟩
  split
  · exact number_ne_nil ‹_›
  split
  · exact named_spells ‹_›
  split
  · rename_i hat
    simp only [Bool.and_eq_true, beq_iff_eq] at hat
    obtain ⟨rfl, hident⟩ := hat
    exact one_andThen_name_spells (startsWith_nameChar_of_startsIdent hident)
  split
  · rename_i hhash
    simp only [Bool.and_eq_true, beq_iff_eq] at hhash
    obtain ⟨rfl, hname⟩ := hhash
    exact one_andThen_name_spells hname
  · exact spells_punctuation c

end Lexer

theorem spelled_of_mem_lexemes {text : Text} {l : Lexeme} (h : l ∈ lexemes text) : l.Spelled := by
  fun_induction lexemes text with
  | case1 => simp at h
  | case2 c rest next ih =>
      rcases List.mem_cons.mp h with rfl | hrest
      · exact Lexer.lexeme_spells c rest
      · exact ih hrest

/-- All tokens of a run are spelled as their kinds say. -/
def SpelledAll (ts : List Token) : Prop := ∀ t ∈ ts, t.toLexeme.Spelled

@[simp]
theorem spelledAll_nil : SpelledAll [] := by simp [SpelledAll]

@[simp]
theorem spelledAll_cons {t : Token} {ts : List Token} :
    SpelledAll (t :: ts) ↔ t.toLexeme.Spelled ∧ SpelledAll ts := by
  simp [SpelledAll]

@[simp]
theorem spelledAll_append {a b : List Token} :
    SpelledAll (a ++ b) ↔ SpelledAll a ∧ SpelledAll b := by
  simp [SpelledAll, or_imp, forall_and]

theorem spelledAll_tokenize (css : Text) : SpelledAll (tokenize css) := by
  intro t ht
  have hmem : t.toLexeme ∈ (tokenize css).map (·.toLexeme) := List.mem_map_of_mem ht
  rw [tokenize, map_toLexeme_place] at hmem
  exact spelled_of_mem_lexemes hmem

theorem Token.text_eq_of_sign {t : Token} {c : Char} (h : t.toLexeme.Spelled)
    (hsign : t.kind.sign? = some c) : t.text = [c] :=
  Kind.Spells.text_eq h hsign

/-- The text of a token that opens a parenthesis ends with it. -/
theorem Token.dropLast_text_append {t : Token} (h : t.toLexeme.Spelled)
    (hopens : Bracket.paren.opens t.kind = true) : t.text.dropLast ++ ['('] = t.text := by
  simp only [Bracket.opens, Bool.or_eq_true, beq_iff_eq] at hopens
  rcases hopens with hkind | hkind
  · rw [Lexeme.Spelled, hkind] at h
    obtain ⟨name, _, htext⟩ := h
    rw [htext, List.dropLast_concat]
  · rw [Token.text_eq_of_sign h (c := '(') (by rw [hkind]; rfl)]
    rfl

end StyleFlip
