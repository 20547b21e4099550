import StyleFlip.Proofs.Standing

/-!
# Written numbers

A written number has a mantissa, and there may be a sign before it and an exponent and a suffix
after it. The lexer takes an exponent only when its digits come right after the mark. The mark of a
signed exponent begins a unit instead. A unit goes on over a hyphen and digits, so `1e-5px` is still
one number. It does not go on over a plus sign, and no percent sign belongs to a number that has a
unit, so `1e+5` and `1e-5%` are cut in two (`lexemes_text`).
-/

namespace StyleFlip

open Lexer

/-! ### The grammar -/

structure Digits where
  text : Text
  ne_nil : text ≠ []
  isDigit : ∀ c ∈ text, c.isDigit = true

structure Letters where
  text : Text
  ne_nil : text ≠ []
  isAlpha : ∀ c ∈ text, c.isAlpha = true

inductive Sign
  | plus
  | minus
deriving DecidableEq

def Sign.char : Sign → Char
  | .plus => '+'
  | .minus => '-'

inductive Mantissa
  | whole (digits : Digits)
  | decimal (before after : Digits)
  | fraction (digits : Digits)

def Mantissa.text : Mantissa → Text
  | .whole digits => digits.text
  | .decimal before after => before.text ++ '.' :: after.text
  | .fraction digits => '.' :: digits.text

structure Exponent where
  mark : Char
  sign : Option Sign
  digits : Digits
  isMark : mark = 'e' ∨ mark = 'E'

def Exponent.text (e : Exponent) : Text :=
  e.mark :: ((e.sign.map Sign.char).toList ++ e.digits.text)

inductive Suffix
  | percent
  | unit (letters : Letters)

def Suffix.text : Suffix → Text
  | .percent => ['%']
  | .unit letters => letters.text

/-- A number as it is written in a stylesheet. -/
structure Numeral where
  sign : Option Sign
  mantissa : Mantissa
  exponent : Option Exponent
  suffix : Option Suffix

namespace Numeral

def signText (n : Numeral) : Text := (n.sign.map Sign.char).toList

def exponentText (n : Numeral) : Text := n.exponent.elim [] Exponent.text

def suffixText (n : Numeral) : Text := n.suffix.elim [] Suffix.text

def text (n : Numeral) : Text := n.signText ++ n.mantissa.text ++ n.exponentText ++ n.suffixText

/-- The lexer takes the number as a whole. -/
def IsWhole (n : Numeral) : Prop :=
  ∀ e ∈ n.exponent, e.sign ≠ some .plus ∧ (e.sign = some .minus → n.suffix ≠ some .percent)

/-- The lexemes of a number. -/
def pieces (n : Numeral) : List Lexeme :=
  match n.exponent with
  | some ⟨mark, some .plus, digits, _⟩ =>
    [⟨.number, n.signText ++ n.mantissa.text ++ [mark]⟩,
      ⟨.number, '+' :: (digits.text ++ n.suffixText)⟩]
  | some ⟨mark, some .minus, digits, _⟩ =>
    match n.suffix with
    | some .percent =>
      [⟨.number, n.signText ++ n.mantissa.text ++ mark :: '-' :: digits.text⟩, ⟨.delim, ['%']⟩]
    | _ => [⟨.number, n.text⟩]
  | _ => [⟨.number, n.text⟩]

end Numeral

/-! ### Units -/

namespace Lexer

theorem isNameChar_of_isAlpha {c : Char} (h : c.isAlpha = true) : isNameChar c = true := by
  simp [isNameChar, isNameStart, h]

theorem isNameChar_of_isDigit {c : Char} (h : c.isDigit = true) : isNameChar c = true := by
  simp [isNameChar, h]

theorem name_append {u rest : Text} (hu : ∀ c ∈ u, isNameChar c = true)
    (hrest : startsHashName rest = false) : name (u ++ rest) = (u, rest) := by
  rw [name, Scan.units_eq_unitsFrom rfl]
  induction u with
  | nil => exact (Scan.unitsFrom_eq_nil_iff nameVerdict_follows false rest).mpr hrest
  | cons c u ih =>
      have hc : isNameChar c = true := hu c (by simp)
      have hescape : c ≠ '\\' := by
        rintro rfl
        exact absurd hc (by decide)
      have hrest := ih fun d hd => hu d (List.mem_cons_of_mem c hd)
      simp [Scan.unitsFrom, hescape, nameVerdict, hc, hrest]

/-- A unit that starts with a letter goes on as long as a name does. -/
theorem unit_append {c : Char} {u rest : Text} (hc : c.isAlpha = true)
    (hu : ∀ d ∈ u, isNameChar d = true) (hrest : startsHashName rest = false) :
    unit (c :: u ++ rest) = (c :: u, rest) := by
  have hrun : isRunChar c = true := by simp [isRunChar, hc]
  have hpercent : c ≠ '%' := ne_of_isRunChar hrun (by decide)
  have hescape : c ≠ '\\' := ne_of_isRunChar hrun (by decide)
  have hhyphen : c ≠ '-' := by
    rintro rfl
    exact absurd hc (by decide)
  have hident : startsIdent (c :: u ++ rest) = true := by
    simp [startsIdent_cons, hescape, hhyphen, isNameStart, hc]
  have hname : name (c :: u ++ rest) = (c :: u, rest) :=
    name_append (List.forall_mem_cons.mpr ⟨isNameChar_of_isAlpha hc, hu⟩) hrest
  rw [unit, if_neg (by simp [startsWith, hpercent]), Scan.when, if_pos hident, hname]

/-- What comes after the mantissa and is none of its digits. -/
structure Ends (text : Text) : Prop where
  unsigned : startsUnsigned text = false
  exponent : startsExponent text = false

theorem Ends.markedDigits {text : Text} (h : Ends text) :
    markedDigits startsExponent text = ([], text) := by
  rw [Lexer.markedDigits, Scan.when, if_neg (by simp [h.exponent])]

theorem ends_nil : Ends [] := ⟨rfl, rfl⟩

theorem not_startsUnsigned_of_isAlpha {c : Char} (h : c.isAlpha = true) (rest : Text) :
    startsUnsigned (c :: rest) = false := by
  have hpoint : c ≠ '.' := ne_of_isRunChar (by simp [isRunChar, h]) (by decide)
  simp [startsUnsigned, startsDigit, startsWith, startsFraction_cons, hpoint,
    not_isDigit_of_isAlpha h]

theorem ends_letter {c : Char} {rest : Text} (h : c.isAlpha = true)
    (hrest : startsDigit rest = false) : Ends (c :: rest) :=
  ⟨not_startsUnsigned_of_isAlpha h rest, by simp [startsExponent, hrest]⟩

theorem ends_percent (rest : Text) : Ends ('%' :: rest) :=
  ⟨by simp [startsUnsigned, startsDigit, startsWith, startsFraction_cons], rfl⟩

end Lexer

theorem Letters.exists_cons (letters : Letters) :
    ∃ c more, letters.text = c :: more ∧ c.isAlpha = true ∧ ∀ d ∈ more, d.isAlpha = true := by
  obtain ⟨c, more, hcons⟩ := List.exists_cons_of_ne_nil letters.ne_nil
  have halpha := letters.isAlpha
  rw [hcons, List.forall_mem_cons] at halpha
  exact ⟨c, more, hcons, halpha⟩

theorem Digits.exists_cons (digits : Digits) :
    ∃ d more, digits.text = d :: more ∧ ∀ e ∈ d :: more, e.isDigit = true := by
  obtain ⟨d, more, hcons⟩ := List.exists_cons_of_ne_nil digits.ne_nil
  exact ⟨d, more, hcons, hcons ▸ digits.isDigit⟩

theorem Exponent.isAlpha_mark (e : Exponent) : e.mark.isAlpha = true := by
  rcases e.isMark with h | h <;> rw [h] <;> rfl

theorem Exponent.isExponentMark_mark (e : Exponent) : isExponentMark e.mark = true := by
  rcases e.isMark with h | h <;> rw [h] <;> rfl

namespace Numeral

theorem ends_suffixText (n : Numeral) : Ends n.suffixText := by
  unfold suffixText
  cases n.suffix with
  | none => exact ends_nil
  | some suffix =>
      cases suffix with
      | percent => exact ends_percent []
      | unit letters =>
          obtain ⟨c, more, hcons, hc, hmore⟩ := letters.exists_cons
          rw [Option.elim_some, Suffix.text, hcons]
          refine ends_letter hc ?_
          cases more with
          | nil => rfl
          | cons d more => exact not_isDigit_of_isAlpha (hmore d (by simp))

theorem unit_suffixText (n : Numeral) : unit (n.suffixText ++ []) = (n.suffixText, []) := by
  unfold suffixText
  cases n.suffix with
  | none => rfl
  | some suffix =>
      cases suffix with
      | percent => rfl
      | unit letters =>
          obtain ⟨c, more, hcons, hc, hmore⟩ := letters.exists_cons
          rw [Option.elim_some, Suffix.text, hcons]
          exact unit_append hc (fun d hd => isNameChar_of_isAlpha (hmore d hd)) rfl

end Numeral

/-! ### Mantissas -/

namespace Mantissa

/-- The digits before the point. -/
def front : Mantissa → Text
  | .whole digits => digits.text
  | .decimal before _ => before.text
  | .fraction _ => []

/-- The point and the digits after it. -/
def back : Mantissa → Text
  | .whole _ => []
  | .decimal _ after => '.' :: after.text
  | .fraction digits => '.' :: digits.text

theorem text_eq (m : Mantissa) : m.text = m.front ++ m.back := by
  cases m <;> simp [text, front, back]

theorem front_or_back (m : Mantissa) : m.front ≠ [] ∨ m.back ≠ [] := by
  cases m with
  | whole digits => exact .inl digits.ne_nil
  | decimal before after => exact .inr (by simp [back])
  | fraction digits => exact .inr (by simp [back])

theorem isDigit_of_mem_front {m : Mantissa} {c : Char} (h : c ∈ m.front) : c.isDigit = true := by
  cases m with
  | whole digits => exact digits.isDigit c h
  | decimal before after => exact before.isDigit c h
  | fraction digits => contradiction

theorem back_cases (m : Mantissa) :
    m.back = [] ∨ ∃ d more, m.back = '.' :: d :: more ∧ ∀ e ∈ d :: more, e.isDigit = true := by
  cases m with
  | whole digits => exact .inl rfl
  | decimal before after =>
      obtain ⟨d, more, hcons, hdigits⟩ := after.exists_cons
      exact .inr ⟨d, more, by rw [back, hcons], hdigits⟩
  | fraction digits =>
      obtain ⟨d, more, hcons, hdigits⟩ := digits.exists_cons
      exact .inr ⟨d, more, by rw [back, hcons], hdigits⟩

/-- A mantissa with a sign in front is the start of a number, whatever exponent and unit it has. -/
theorem numberParts (m : Mantissa) (sign : Option Sign) {e u rest : Text}
    (hends : startsUnsigned (e ++ (u ++ rest)) = false)
    (hexponent : markedDigits startsExponent (e ++ (u ++ rest)) = (e, u ++ rest))
    (hunit : unit (u ++ rest) = (u, rest)) :
    NumberParts (sign.map Sign.char).toList m.front m.back e u rest := by
  rw [startsUnsigned, Bool.or_eq_false_iff] at hends
  obtain ⟨hdigit, hfraction⟩ := hends
  refine ⟨?_, m.front_or_back, ?_, ?_, hexponent, hunit⟩
  · cases sign with
    | none => exact .inl rfl
    | some sign => exact .inr ⟨sign.char, rfl, by cases sign <;> rfl⟩
  · refine many_append (fun c hc => isDigit_of_mem_front hc) ?_
    rcases m.back_cases with hback | ⟨d, more, hback, -⟩
    · rw [hback]
      exact hdigit
    · rw [hback]
      rfl
  · rcases m.back_cases with hback | ⟨d, more, hback, hdigits⟩
    · rw [hback, List.nil_append, markedDigits, Scan.when, if_neg (by simp [hfraction])]
    · rw [hback]
      exact markedDigits_cons markedDigits_fraction rfl hdigits hdigit

end Mantissa

theorem Lexer.NumberParts.standsBefore {s d f e u rest : Text} (h : NumberParts s d f e u rest) :
    Lexeme.StandsBefore ⟨.number, s ++ (d ++ (f ++ (e ++ u)))⟩ rest := by
  have hstarts := h.startsNumber
  have hnumber := h.number_eq
  have hassoc : s ++ (d ++ (f ++ (e ++ (u ++ rest)))) = s ++ (d ++ (f ++ (e ++ u))) ++ rest := by
    simp
  rw [hassoc] at hstarts hnumber
  cases htext : s ++ (d ++ (f ++ (e ++ u))) with
  | nil =>
      obtain hd | hf := h.some
      · simp_all
      · simp_all
  | cons c tail =>
      rw [htext, List.cons_append] at hstarts hnumber
      exact ⟨c, tail, rfl, by rw [lexeme_of_startsNumber hstarts, hnumber]⟩

/-! ### Numbers -/

namespace Numeral

/-- The front of a number with a unit and no exponent. -/
theorem standsBefore_unit (n : Numeral) {u rest : Text} (hends : Ends (u ++ rest))
    (hunit : unit (u ++ rest) = (u, rest)) :
    Lexeme.StandsBefore ⟨.number, n.signText ++ n.mantissa.text ++ u⟩ rest := by
  have hparts := n.mantissa.numberParts n.sign (e := []) hends.unsigned hends.markedDigits
    hunit
  rw [Mantissa.text_eq]
  simpa [signText] using hparts.standsBefore

theorem standsBefore_of_unsigned {n : Numeral} (h : ∀ e ∈ n.exponent, e.sign = none) :
    Lexeme.StandsBefore ⟨.number, n.text⟩ [] := by
  have hsuffix := n.ends_suffixText
  cases hexponent : n.exponent with
  | none =>
      have hstands := n.standsBefore_unit (by simpa using hsuffix) n.unit_suffixText
      simpa [text, exponentText, hexponent] using hstands
  | some e =>
      obtain ⟨d, more, hcons, hdigits⟩ := e.digits.exists_cons
      have htext : n.exponentText = e.mark :: d :: more := by
        simp [exponentText, hexponent, Exponent.text, h e hexponent, hcons]
      have hdigit : startsDigit n.suffixText = false := by
        have hunsigned := hsuffix.unsigned
        rw [startsUnsigned, Bool.or_eq_false_iff] at hunsigned
        exact hunsigned.1
      have hstop : startsDigit (n.suffixText ++ []) = false := by rwa [List.append_nil]
      have hparts : NumberParts n.signText n.mantissa.front n.mantissa.back (e.mark :: d :: more)
          n.suffixText [] :=
        n.mantissa.numberParts n.sign (not_startsUnsigned_of_isAlpha e.isAlpha_mark _)
          (markedDigits_cons markedDigits_exponent e.isExponentMark_mark hdigits hstop)
          n.unit_suffixText
      have hstands := hparts.standsBefore
      simpa [text, Mantissa.text_eq, signText, htext] using hstands

/-- The mark of an exponent with a plus sign is a unit of its own. -/
theorem standsBefore_plus (n : Numeral) (e : Exponent) (rest : Text) :
    Lexeme.StandsBefore ⟨.number, n.signText ++ n.mantissa.text ++ [e.mark]⟩ ('+' :: rest) :=
  n.standsBefore_unit (ends_letter e.isAlpha_mark rfl)
    (unit_append (u := []) e.isAlpha_mark (by simp) rfl)

/-- An exponent with a minus sign is the start of a unit, together with the letters after it. -/
theorem standsBefore_minus (n : Numeral) (e : Exponent) (letters rest : Text)
    (hletters : ∀ c ∈ letters, c.isAlpha = true) (hrest : startsHashName rest = false) :
    Lexeme.StandsBefore
      ⟨.number, n.signText ++ n.mantissa.text ++ e.mark :: '-' :: (e.digits.text ++ letters)⟩
      rest := by
  refine n.standsBefore_unit (ends_letter e.isAlpha_mark rfl) (unit_append e.isAlpha_mark ?_ hrest)
  intro c hc
  rcases List.mem_cons.mp hc with rfl | hc
  · rfl
  rcases List.mem_append.mp hc with hc | hc
  · exact isNameChar_of_isDigit (e.digits.isDigit c hc)
  · exact isNameChar_of_isAlpha (hletters c hc)

/-- What comes after the mark is a number with a plus sign of its own. -/
theorem lexemes_plus (n : Numeral) (e : Exponent) :
    lexemes (n.signText ++ n.mantissa.text ++ e.mark :: '+' :: (e.digits.text ++ n.suffixText)) =
      [⟨.number, n.signText ++ n.mantissa.text ++ [e.mark]⟩,
        ⟨.number, '+' :: (e.digits.text ++ n.suffixText)⟩] := by
  let back : Numeral := ⟨some .plus, .whole e.digits, none, n.suffix⟩
  have hback : back.text = '+' :: (e.digits.text ++ n.suffixText) := by
    simp [back, text, signText, exponentText, suffixText, Mantissa.text, Sign.char]
  have hlexemes := lexemes_of_standsBefore
    (n.standsBefore_plus e (e.digits.text ++ n.suffixText))
  have hlast := lexemes_of_standsBefore_nil (standsBefore_of_unsigned (n := back) (by simp [back]))
  rw [hback] at hlast
  rw [hlast] at hlexemes
  simpa using hlexemes

theorem lexemes_minus (n : Numeral) (e : Exponent) (letters : Text)
    (hletters : ∀ c ∈ letters, c.isAlpha = true) :
    lexemes (n.signText ++ n.mantissa.text ++ e.mark :: '-' :: (e.digits.text ++ letters)) =
      [⟨.number, n.signText ++ n.mantissa.text ++ e.mark :: '-' :: (e.digits.text ++ letters)⟩] :=
  lexemes_of_standsBefore_nil (n.standsBefore_minus e letters [] hletters rfl)

theorem lexemes_minus_percent (n : Numeral) (e : Exponent) :
    lexemes (n.signText ++ n.mantissa.text ++ e.mark :: '-' :: (e.digits.text ++ ['%'])) =
      [⟨.number, n.signText ++ n.mantissa.text ++ e.mark :: '-' :: e.digits.text⟩,
        ⟨.delim, ['%']⟩] := by
  have hlexemes := lexemes_of_standsBefore (n.standsBefore_minus e [] ['%'] (by simp) rfl)
  have hpercent : lexemes ['%'] = [⟨.delim, ['%']⟩] := by decide +kernel
  rw [hpercent] at hlexemes
  simpa using hlexemes

theorem text_of_signed {n : Numeral} {e : Exponent} {s : Sign} (he : n.exponent = some e)
    (hs : e.sign = some s) :
    n.text =
      n.signText ++ n.mantissa.text ++ e.mark :: s.char :: (e.digits.text ++ n.suffixText) := by
  simp [text, exponentText, he, Exponent.text, hs]

/-- The lexemes of a written number are its pieces. -/
theorem lexemes_text (n : Numeral) : lexemes n.text = n.pieces := by
  obtain ⟨sign, mantissa, exponent, suffix⟩ := n
  match exponent with
  | none => exact lexemes_of_standsBefore_nil (standsBefore_of_unsigned (by simp))
  | some ⟨mark, none, digits, hmark⟩ =>
      exact lexemes_of_standsBefore_nil (standsBefore_of_unsigned (by simp))
  | some ⟨mark, some .plus, digits, hmark⟩ =>
      rw [text_of_signed rfl rfl]
      exact lexemes_plus _ _
  | some ⟨mark, some .minus, digits, hmark⟩ =>
      match suffix with
      | none =>
          rw [pieces, text_of_signed rfl rfl]
          exact lexemes_minus _ _ [] (by simp)
      | some (.unit letters) =>
          rw [pieces, text_of_signed rfl rfl]
          exact lexemes_minus _ _ letters.text letters.isAlpha
      | some .percent =>
          rw [text_of_signed rfl rfl]
          exact lexemes_minus_percent _ _

theorem pieces_eq_single_iff (n : Numeral) : n.pieces = [⟨.number, n.text⟩] ↔ n.IsWhole := by
  obtain ⟨sign, mantissa, exponent, suffix⟩ := n
  match exponent with
  | none => simp [pieces, IsWhole]
  | some ⟨mark, none, digits, hmark⟩ => simp [pieces, IsWhole]
  | some ⟨mark, some .plus, digits, hmark⟩ => simp [pieces, IsWhole]
  | some ⟨mark, some .minus, digits, hmark⟩ =>
      match suffix with
      | none => simp [pieces, IsWhole]
      | some (.unit letters) => simp [pieces, IsWhole]
      | some .percent => simp [pieces, IsWhole]

end Numeral

/-- The tokens of a written number are its pieces. There is exactly one of them, unless there is a
plus sign in the exponent or a percent sign after a negative exponent. -/
theorem tokenize_numeral (n : Numeral) :
    tokenize n.text = place .origin n.pieces ∧
      (tokenize n.text = [{ kind := .number, text := n.text, span := .ofText .origin n.text }] ↔
        n.IsWhole) := by
  have htokens : tokenize n.text = place .origin n.pieces := by rw [tokenize, n.lexemes_text]
  refine ⟨htokens, ?_⟩
  rw [← n.pieces_eq_single_iff, htokens]
  constructor
  · intro hplaced
    rw [← map_toLexeme_place .origin n.pieces, hplaced]
    rfl
  · intro hsingle
    rw [hsingle]
    rfl

/-- A number with a plus sign in its exponent makes two tokens. -/
theorem plus_exponent_cut_in_two :
    ∃ n : Numeral, n.text = "1e+5".toList ∧
      (tokenize n.text).map (·.toLexeme) = [⟨.number, "1e".toList⟩, ⟨.number, "+5".toList⟩] := by
  let one : Digits := ⟨['1'], by simp, by simp⟩
  let five : Digits := ⟨['5'], by simp, by simp⟩
  exact ⟨⟨none, .whole one, some ⟨'e', some .plus, five, .inl rfl⟩, none⟩, rfl, by decide +kernel⟩

end StyleFlip
