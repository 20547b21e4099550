import StyleFlip.Token.Lexer

/-!
# How far a lexeme looks ahead

Where a lexeme ends depends on the text after it, and only through the few questions listed as
`Lookahead`. A text is ahead of another when it gives a yes to every question that the other one
gives a yes to: what stops in front of the first then stops in front of the second.

Flipping exchanges runs of letters and hyphens for other such runs. A text `Respelled` in this way
answers all questions in the same way.
-/

namespace StyleFlip

open Lexer

/-- The questions that a scanner asks about the text after what it has taken. -/
inductive Lookahead
  | name
  | paren
  | percent
  | digit
  | fraction
  | exponent
  | ident
  | star
  | dash
  | more
  | line

def Lookahead.sees : Lookahead → Text → Bool
  | .name => startsHashName
  | .paren => startsWith (· == '(')
  | .percent => startsWith (· == '%')
  | .digit => startsDigit
  | .fraction => startsFraction
  | .exponent => startsExponent
  | .ident => startsIdent
  | .star => startsWith (· == '*')
  | .dash => startsWith fun c => isNameStart c || c == '-' || c == '\\'
  | .more => startsWith fun _ => true
  | .line => startsWith (· != '\n')

/-- What `r'` gives a scanner to go on with, `r` gives it too. -/
def Ahead (r r' : Text) : Prop := ∀ look : Lookahead, look.sees r' = true → look.sees r = true

/-- The same for scanners that do not ask about line ends, which are those of names and numbers. -/
def AheadOfName (r r' : Text) : Prop :=
  ∀ look : Lookahead, look ≠ .line → look.sees r' = true → look.sees r = true

theorem Ahead.ofName {r r' : Text} (h : Ahead r r') : AheadOfName r r' := fun look _ => h look

theorem Ahead.refl (r : Text) : Ahead r r := fun _ h => h

@[simp]
theorem Lookahead.sees_nil (look : Lookahead) : look.sees [] = false := by
  cases look <;> rfl

theorem startsIdent_cons (c : Char) (r : Text) :
    startsIdent (c :: r) =
      if c = '\\' then Lookahead.line.sees r else if c = '-' then Lookahead.dash.sees r
      else isNameStart c := by
  by_cases hescape : c = '\\'
  · subst hescape
    cases r <;> simp [startsIdent, Lookahead.sees, startsWith]
  by_cases hhyphen : c = '-'
  · subst hhyphen
    cases r <;> simp [startsIdent, Lookahead.sees, startsWith]
  rw [if_neg hescape, if_neg hhyphen]
  unfold startsIdent
  split <;> simp_all

theorem startsFraction_cons (c : Char) (r : Text) :
    startsFraction (c :: r) = (c == '.' && startsDigit r) := by
  unfold startsFraction
  split <;> simp_all

theorem startsComment_cons (c : Char) (r : Text) :
    startsComment (c :: r) = (c == '/' && Lookahead.star.sees r) := by
  unfold startsComment
  split
  · simp_all [Lookahead.sees, startsWith]
  · cases r <;> simp_all [Lookahead.sees, startsWith]

theorem Ahead.cons {r r' : Text} (h : Ahead r r') (c : Char) : Ahead (c :: r) (c :: r') := by
  intro look
  cases look with
  | fraction =>
      simp only [Lookahead.sees, startsFraction_cons, Bool.and_eq_true]
      exact And.imp_right (h .digit)
  | exponent =>
      simp only [Lookahead.sees, startsExponent, Bool.and_eq_true]
      exact And.imp_right (h .digit)
  | ident =>
      simp only [Lookahead.sees, startsIdent_cons]
      split
      · exact h .line
      · split
        · exact h .dash
        · exact id
  | _ => exact id

theorem Ahead.append {r r' : Text} (h : Ahead r r') (x : Text) : Ahead (x ++ r) (x ++ r') := by
  induction x with
  | nil => exact h
  | cons c x ih => exact ih.cons c

/-- A character that no lexeme before it goes on with, whatever comes after. -/
def isInert (c : Char) : Bool :=
  !isNameChar c && c != '\\' && c != '(' && c != '%' && c != '.' && c != '*'

theorem isDigit_eq_false_of_isInert {c : Char} (h : isInert c = true) : c.isDigit = false := by
  simp only [isInert, isNameChar, Bool.and_eq_true, Bool.not_eq_true', Bool.or_eq_false_iff] at h
  exact h.1.1.1.1.1.1.2

theorem isNameStart_eq_false_of_isInert {c : Char} (h : isInert c = true) :
    isNameStart c = false := by
  simp only [isInert, isNameChar, Bool.and_eq_true, Bool.not_eq_true', Bool.or_eq_false_iff] at h
  exact h.1.1.1.1.1.1.1

/-- A name or a number that is not the last lexeme of a text may stand in front of any inert
character. -/
theorem aheadOfName_of_isInert {c : Char} (hinert : isInert c = true) {r : Text} (hr : r ≠ [])
    (rest : Text) : AheadOfName r (c :: rest) := by
  have hdigit := isDigit_eq_false_of_isInert hinert
  have hstart := isNameStart_eq_false_of_isInert hinert
  simp only [isInert, isNameChar, Bool.and_eq_true, Bool.not_eq_true', Bool.or_eq_false_iff,
    bne_iff_ne, ne_eq, beq_eq_false_iff_ne] at hinert
  have hexponent : isExponentMark c = false := by
    rw [Bool.eq_false_iff]
    intro he
    simp only [isExponentMark, Bool.or_eq_true, beq_iff_eq] at he
    rcases he with rfl | rfl <;> exact absurd hstart (by decide)
  intro look hlook hsees
  cases look with
  | more =>
      cases r with
      | nil => contradiction
      | cons d r => rfl
  | line => contradiction
  | ident => simp [Lookahead.sees, startsIdent_cons, hinert] at hsees
  | fraction => simp [Lookahead.sees, startsFraction_cons, hinert] at hsees
  | exponent => simp [Lookahead.sees, startsExponent, hexponent] at hsees
  | digit => simp [Lookahead.sees, startsDigit, startsWith, hdigit] at hsees
  | _ => simp [Lookahead.sees, startsWith, startsHashName, isNameChar, hinert] at hsees

/-- A character that decides every question by itself. -/
def isDecisive (c : Char) : Bool := c != '.' && !isExponentMark c && c != '\\' && c != '-'

theorem ahead_cons_of_isDecisive {c : Char} (h : isDecisive c = true) (r r' : Text) :
    Ahead (c :: r) (c :: r') := by
  simp only [isDecisive, Bool.and_eq_true, Bool.not_eq_true', bne_iff_ne, ne_eq] at h
  intro look
  cases look with
  | fraction => simp [Lookahead.sees, startsFraction_cons, h]
  | exponent => simp [Lookahead.sees, startsExponent, h]
  | ident => simp [Lookahead.sees, startsIdent_cons, h]
  | _ => exact id

/-! ### Respelled texts -/

def isRunChar (c : Char) : Bool := c.isAlpha || c == '-'

/-- A run of letters and hyphens. The lower bound keeps the name of a url literal out. -/
def IsRun (w : Text) : Prop := 4 ≤ w.length ∧ ∀ c ∈ w, isRunChar c = true

/-- The same text with some runs exchanged for others. -/
inductive Respelled : Text → Text → Prop
  | nil : Respelled [] []
  | keep {x x' : Text} (c : Char) (h : Respelled x x') : Respelled (c :: x) (c :: x')
  | run {w w' x x' : Text} (hw : IsRun w) (hw' : IsRun w') (h : Respelled x x') :
      Respelled (w ++ x) (w' ++ x')

theorem Respelled.refl (x : Text) : Respelled x x := by
  induction x with
  | nil => exact .nil
  | cons c x ih => exact ih.keep c

theorem Respelled.append {x x' y y' : Text} (hx : Respelled x x') (hy : Respelled y y') :
    Respelled (x ++ y) (x' ++ y') := by
  induction hx with
  | nil => exact hy
  | keep c _ ih => exact ih.keep c
  | run hw hw' _ ih =>
      rw [List.append_assoc, List.append_assoc]
      exact .run hw hw' ih

theorem IsRun.exists_cons {w : Text} (h : IsRun w) :
    ∃ c d more, w = c :: d :: more ∧ isRunChar c = true ∧ isRunChar d = true := by
  obtain ⟨hlength, hchars⟩ := h
  match w, hlength, hchars with
  | c :: d :: more, _, hchars => exact ⟨c, d, more, rfl, hchars c (by simp), hchars d (by simp)⟩

theorem Respelled.eq_nil {x : Text} (h : Respelled [] x) : x = [] := by
  generalize hy : ([] : Text) = y at h
  cases h with
  | nil => rfl
  | keep => contradiction
  | run hw =>
      obtain ⟨c, d, more, rfl, -, -⟩ := hw.exists_cons
      contradiction

/-- A character at which no run starts is kept. -/
theorem Respelled.exists_cons {c : Char} {x y : Text} (h : Respelled (c :: x) y)
    (hc : isRunChar c = true → startsWith isRunChar x = false) :
    ∃ x', y = c :: x' ∧ Respelled x x' := by
  generalize hz : c :: x = z at h
  cases h with
  | nil => contradiction
  | keep d h =>
      obtain ⟨rfl, rfl⟩ := List.cons.inj hz
      exact ⟨_, rfl, h⟩
  | run hw _ _ =>
      obtain ⟨d, e, more, rfl, hd, he⟩ := hw.exists_cons
      obtain ⟨rfl, rfl⟩ := List.cons.inj hz
      exact absurd (hc hd) (by simp [startsWith, he])

theorem Respelled.exists_append {p x y : Text} (h : Respelled (p ++ x) y)
    (hp : ∀ c ∈ p, isRunChar c = false) : ∃ x', y = p ++ x' ∧ Respelled x x' := by
  induction p generalizing y with
  | nil => exact ⟨y, rfl, h⟩
  | cons c p ih =>
      obtain ⟨z, rfl, hz⟩ := h.exists_cons (by simp [hp c])
      obtain ⟨x', rfl, hx'⟩ := ih hz fun d hd => hp d (List.mem_cons_of_mem c hd)
      exact ⟨x', rfl, hx'⟩

theorem isUpper_iff_val {c : Char} : c.isUpper = true ↔ 'A'.val ≤ c.val ∧ c.val ≤ 'Z'.val :=
  decide_eq_true_iff

theorem isLower_iff_val {c : Char} : c.isLower = true ↔ 'a'.val ≤ c.val ∧ c.val ≤ 'z'.val := by
  show (decide ('a'.val ≤ c.val) && decide (c.val ≤ 'z'.val)) = true ↔ _
  rw [Bool.and_eq_true, decide_eq_true_iff, decide_eq_true_iff]

theorem isUpper_iff {c : Char} : c.isUpper = true ↔ 65 ≤ c.toNat ∧ c.toNat ≤ 90 := by
  rw [isUpper_iff_val, UInt32.le_iff_toNat_le, UInt32.le_iff_toNat_le]
  rfl

theorem isLower_iff {c : Char} : c.isLower = true ↔ 97 ≤ c.toNat ∧ c.toNat ≤ 122 := by
  rw [isLower_iff_val, UInt32.le_iff_toNat_le, UInt32.le_iff_toNat_le]
  rfl

theorem isAlpha_iff {c : Char} : c.isAlpha = true ↔ c.isUpper = true ∨ c.isLower = true := by
  show (c.isUpper || c.isLower) = true ↔ _
  rw [Bool.or_eq_true]

theorem isDigit_iff {c : Char} : c.isDigit = true ↔ 48 ≤ c.toNat ∧ c.toNat ≤ 57 := by
  simp [Char.isDigit, UInt32.le_iff_toNat_le]

theorem not_isDigit_of_isAlpha {c : Char} (h : c.isAlpha = true) : c.isDigit = false := by
  rw [Bool.eq_false_iff, ne_eq, isDigit_iff]
  rw [isAlpha_iff, isUpper_iff, isLower_iff] at h
  omega

theorem isRunChar_cases {c : Char} (h : isRunChar c = true) : c.isAlpha = true ∨ c = '-' := by
  simpa [isRunChar] using h

/-- Of the characters that the lexer knows, letters and the hyphen are the only ones in runs. -/
theorem ne_of_isRunChar {c d : Char} (hc : isRunChar c = true) (hd : isRunChar d = false) :
    c ≠ d := by
  rintro rfl
  simp [hc] at hd

theorem isDigit_of_isRunChar {c : Char} (h : isRunChar c = true) : c.isDigit = false := by
  rcases isRunChar_cases h with halpha | rfl
  · exact not_isDigit_of_isAlpha halpha
  · rfl

theorem isNameChar_of_isRunChar {c : Char} (h : isRunChar c = true) : isNameChar c = true := by
  rcases isRunChar_cases h with halpha | rfl
  · simp [isNameChar, isNameStart, halpha]
  · rfl

theorem dash_of_isRunChar {c : Char} (h : isRunChar c = true) (rest : Text) :
    Lookahead.dash.sees (c :: rest) = true := by
  rcases isRunChar_cases h with halpha | rfl
  · simp [Lookahead.sees, startsWith, isNameStart, halpha]
  · rfl

theorem IsRun.startsIdent {w : Text} (h : IsRun w) (rest : Text) :
    startsIdent (w ++ rest) = true := by
  obtain ⟨c, d, more, rfl, hc, hd⟩ := h.exists_cons
  rw [List.cons_append, startsIdent_cons, if_neg (ne_of_isRunChar hc (by decide))]
  split
  · exact dash_of_isRunChar hd _
  · rename_i hhyphen
    rcases isRunChar_cases hc with halpha | rfl
    · simp [isNameStart, halpha]
    · contradiction

theorem ahead_of_isRun {w w' : Text} (hw : IsRun w) (hw' : IsRun w') (r r' : Text) :
    Ahead (w ++ r) (w' ++ r') := by
  have hident := hw.startsIdent r
  obtain ⟨c, d, more, rfl, hc, hd⟩ := hw.exists_cons
  obtain ⟨c', d', more', rfl, hc', hd'⟩ := hw'.exists_cons
  have hdigit := isDigit_of_isRunChar hd'
  intro look hsees
  cases look with
  | name => simp [Lookahead.sees, startsHashName, startsWith, isNameChar_of_isRunChar hc]
  | ident => exact hident
  | dash => exact dash_of_isRunChar hc _
  | more => rfl
  | line =>
      have hne : c ≠ '\n' := ne_of_isRunChar hc (by decide)
      simpa [Lookahead.sees, startsWith] using hne
  | digit =>
      simp [Lookahead.sees, startsDigit, startsWith, isDigit_of_isRunChar hc'] at hsees
  | exponent => simp [Lookahead.sees, startsExponent, startsDigit, startsWith, hdigit] at hsees
  | fraction =>
      have hne : c' ≠ '.' := ne_of_isRunChar hc' (by decide)
      simp [Lookahead.sees, startsFraction_cons, hne] at hsees
  | paren =>
      have hne : c' ≠ '(' := ne_of_isRunChar hc' (by decide)
      simp [Lookahead.sees, startsWith, hne] at hsees
  | percent =>
      have hne : c' ≠ '%' := ne_of_isRunChar hc' (by decide)
      simp [Lookahead.sees, startsWith, hne] at hsees
  | star =>
      have hne : c' ≠ '*' := ne_of_isRunChar hc' (by decide)
      simp [Lookahead.sees, startsWith, hne] at hsees

theorem Respelled.ahead {x x' r r' : Text} (h : Respelled x x') (hr : Ahead r r') :
    Ahead (x ++ r) (x' ++ r') := by
  induction h with
  | nil => exact hr
  | keep c _ ih => exact ih.cons c
  | run hw hw' _ _ =>
      rw [List.append_assoc, List.append_assoc]
      exact ahead_of_isRun hw hw' _ _

theorem Respelled.symm {x x' : Text} (h : Respelled x x') : Respelled x' x := by
  induction h with
  | nil => exact .nil
  | keep c _ ih => exact ih.keep c
  | run hw hw' _ ih => exact ih.run hw' hw

/-- There is no run in a text of fewer than four characters. -/
theorem Respelled.eq_of_length {x x' : Text} (h : Respelled x x') (hlength : x.length < 4) :
    x' = x := by
  induction h with
  | nil => rfl
  | keep c _ ih =>
      rw [ih (by simp only [List.length_cons] at hlength; omega)]
  | run hw _ _ _ =>
      have := hw.1
      simp only [List.length_append] at hlength
      omega

/-- A respelling starts with the same character or with a letter or hyphen. -/
theorem Respelled.startsWith {f : Char → Bool} {b : Bool} {x x' : Text} (h : Respelled x x')
    (hne : x ≠ []) (hf : ∀ c, isRunChar c = true → f c = b) (r r' : Text)
    (hstart : Lexer.startsWith f (x ++ r) = b) : Lexer.startsWith f (x' ++ r') = b := by
  cases h with
  | nil => contradiction
  | keep c h => exact hstart
  | run hw hw' h =>
      obtain ⟨c, d, more, rfl, hc, -⟩ := hw'.exists_cons
      exact hf c hc

/-- What a respelling starts with, when only the end of the text can come after an empty one. -/
theorem Respelled.not_startsWith_of_end {f : Char → Bool} {x x' r r' : Text} (h : Respelled x x')
    (hend : x = [] → r' = []) (hf : ∀ c, isRunChar c = true → f c = false)
    (hstart : Lexer.startsWith f (x ++ r) = false) : Lexer.startsWith f (x' ++ r') = false := by
  by_cases hne : x = []
  · subst hne
    rw [h.eq_nil, hend rfl]
    rfl
  · exact Respelled.startsWith h hne hf r r' hstart

end StyleFlip
