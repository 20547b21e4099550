import StyleFlip.Proofs.Relexing

/-!
# Runs of tokens that are read back

A run of tokens stands before a text when lexing the text of the run, followed by that text, gives
the run first. The tokens of a stylesheet stand before the end. Whether a run still stands before
another text depends on its last token only, and some tokens stand before every text.
-/

namespace StyleFlip

open Lexer

/-- Lexing gives these tokens in front of the given text. -/
def Stand : List Token → Text → Prop
  | [], _ => True
  | t :: ts, rest => t.toLexeme.StandsBefore (textOf ts ++ rest) ∧ Stand ts rest

theorem stand_append {a b : List Token} {rest : Text} :
    Stand (a ++ b) rest ↔ Stand a (textOf b ++ rest) ∧ Stand b rest := by
  induction a with
  | nil => simp [Stand]
  | cons t a ih => simp [Stand, ih, and_assoc]

theorem lexemes_of_standsBefore {l : Lexeme} {rest : Text} (h : l.StandsBefore rest) :
    lexemes (l.text ++ rest) = l :: lexemes rest := by
  obtain ⟨c, tail, htext, hlexeme⟩ := h
  rw [htext, List.cons_append, lexemes]
  simp [hlexeme]

theorem lexemes_of_standsBefore_nil {l : Lexeme} (h : l.StandsBefore []) :
    lexemes l.text = [l] := by
  have hlexemes := lexemes_of_standsBefore h
  rwa [List.append_nil, lexemes] at hlexemes

theorem lexemes_of_stand {ts : List Token} {rest : Text} (h : Stand ts rest) :
    lexemes (textOf ts ++ rest) = ts.map (·.toLexeme) ++ lexemes rest := by
  induction ts with
  | nil => rfl
  | cons t ts ih =>
      rw [textOf_cons, List.append_assoc, lexemes_of_standsBefore h.1, ih h.2]
      rfl

theorem textOf_place (start : Position) (ls : List Lexeme) :
    textOf (place start ls) = ls.flatMap (·.text) := by
  induction ls generalizing start with
  | nil => rfl
  | cons l ls ih => simp [place, ih]

theorem stand_place_lexemes (start : Position) (text : Text) :
    Stand (place start (lexemes text)) [] := by
  fun_induction lexemes text generalizing start with
  | case1 => trivial
  | case2 c rest next ih =>
      refine ⟨?_, ih _⟩
      have hlossless := lexeme_lossless c rest
      rw [textOf_place, flatMap_text_lexemes, List.append_nil]
      cases htext : next.2.1 with
      | nil => exact absurd htext (lexeme_ne_nil c rest)
      | cons d tail =>
          have hnext : next.2.1 ++ next.2.2 = c :: rest := hlossless
          rw [htext] at hnext
          obtain ⟨rfl, hrest⟩ := List.cons.inj hnext
          refine ⟨d, tail, rfl, ?_⟩
          have hresult : lexeme d rest = (next.1, next.2.1, next.2.2) := rfl
          rw [show tail ++ next.2.2 = rest from hrest, hresult, htext]

theorem stand_tokenize (css : Text) : Stand (tokenize css) [] := stand_place_lexemes _ css

/-- Tokens that stand before the end are those of their text, but for their spans. -/
theorem map_toLexeme_tokenize {ts : List Token} (h : Stand ts []) :
    (tokenize (textOf ts)).map (·.toLexeme) = ts.map (·.toLexeme) := by
  have hlexemes := lexemes_of_stand h
  rw [List.append_nil] at hlexemes
  rw [tokenize, map_toLexeme_place, hlexemes, lexemes, List.append_nil]

/-! ### Another text after the run -/

/-- What stands before `r` stands before `r'`, a blank included. -/
structure Next (r r' : Text) : Prop where
  ahead : Ahead r r'
  space : startsWith isSpace r' = true → startsWith isSpace r = true

theorem Next.refl (r : Text) : Next r r := ⟨.refl r, id⟩

theorem next_nil (r : Text) : Next r [] :=
  ⟨fun look h => by simp at h, fun h => by simp [startsWith] at h⟩

theorem Next.append {r r' : Text} (h : Next r r') (x : Text) : Next (x ++ r) (x ++ r') := by
  refine ⟨h.ahead.append x, ?_⟩
  cases x with
  | nil => exact h.space
  | cons c x => exact id

theorem next_cons_of_isDecisive {c : Char} (h : isDecisive c = true) (r r' : Text) :
    Next (c :: r) (c :: r') :=
  ⟨ahead_cons_of_isDecisive h r r', id⟩

theorem Lexeme.standsBefore_whitespace_iff {x r : Text} :
    Lexeme.StandsBefore ⟨.whitespace, x⟩ r ↔
      x ≠ [] ∧ (∀ c ∈ x, isSpace c = true) ∧ startsWith isSpace r = false := by
  constructor
  · rintro ⟨c, tail, rfl, hlexeme⟩
    have hspells := lexeme_spells c (tail ++ r)
    rw [hlexeme] at hspells
    have hc : isSpace c = true := hspells.2 c (by simp)
    rw [lexeme, if_pos hc] at hlexeme
    exact ⟨by simp, hspells.2, (of_many_eq (Prod.mk.inj hlexeme).2).2⟩
  · rintro ⟨hne, hspace, hstop⟩
    obtain ⟨c, tail, rfl⟩ := List.exists_cons_of_ne_nil hne
    refine ⟨c, tail, rfl, ?_⟩
    rw [lexeme, if_pos (hspace c (by simp)), ← List.cons_append, many_append hspace hstop]

theorem Lexeme.StandsBefore.next {l : Lexeme} {r r' : Text} (h : l.StandsBefore r)
    (hnext : Next r r') : l.StandsBefore r' := by
  obtain ⟨kind, x⟩ := l
  by_cases hkind : kind = .whitespace
  · subst hkind
    obtain ⟨hne, hspace, hstop⟩ := standsBefore_whitespace_iff.mp h
    refine standsBefore_whitespace_iff.mpr ⟨hne, hspace, ?_⟩
    rw [Bool.eq_false_iff]
    exact fun hstarts => absurd (hnext.space hstarts) (by simp [hstop])
  · exact h.respelled (.refl x) hnext.ahead.ofName (fun _ => hnext.ahead .line) hkind fun _ => rfl

theorem Stand.next {ts : List Token} {r r' : Text} (h : Stand ts r) (hnext : Next r r') :
    Stand ts r' := by
  induction ts with
  | nil => trivial
  | cons t ts ih => exact ⟨h.1.next (hnext.append _), ih h.2⟩

theorem next_of_front {r r' : Text} (h : r' <+: r) : Next r r' := by
  obtain ⟨more, rfl⟩ := h
  simpa using (next_nil more).append r'

/-- A lexeme is read again when the text is cut off anywhere behind it. -/
theorem Lexeme.StandsBefore.lexemes_append {l : Lexeme} {r more : Text} (h : l.StandsBefore r)
    (hmore : more <+: r) : lexemes (l.text ++ more) = l :: lexemes more :=
  lexemes_of_standsBefore (h.next (next_of_front hmore))

theorem Lexeme.StandsBefore.lexemes_text {l : Lexeme} {r : Text} (h : l.StandsBefore r) :
    lexemes l.text = [l] :=
  lexemes_of_standsBefore_nil (h.next (next_nil r))

/-- A token of a run is the only token of its text. -/
theorem Stand.lexemes_text {ts : List Token} {t : Token} {rest : Text} (h : Stand ts rest)
    (ht : t ∈ ts) : lexemes t.text = [t.toLexeme] := by
  obtain ⟨before, after, rfl⟩ := List.append_of_mem ht
  exact (stand_append.mp h).2.1.lexemes_text

/-! ### Tokens that stand before every text -/

theorem isDecisive_of_sign? {kind : Kind} {c : Char} (h : kind.sign? = some c) :
    isDecisive c = true := by
  cases kind <;> simp only [Kind.sign?, Option.some.injEq, reduceCtorEq] at h <;> subst h <;> decide

theorem Lexeme.standsBefore_of_sign? {l : Lexeme} {c : Char} (hspelled : l.Spelled)
    (hsign : l.kind.sign? = some c) (r : Text) : l.StandsBefore r := by
  have htext : l.text = [c] := Kind.Spells.text_eq hspelled hsign
  refine ⟨c, [], htext, ?_⟩
  rw [htext, List.nil_append]
  obtain ⟨kind, x⟩ := l
  cases kind <;> simp only [Kind.sign?, Option.some.injEq, reduceCtorEq] at hsign <;> subst hsign <;>
    simp [lexeme_of_not_isOpener, isOpener, isSpace, isQuote, startsNumber_cons, startsUnsigned,
      startsFraction_cons, startsDigit, startsWith, isSign, startsIdent_cons, isNameStart,
      punctuation]

theorem Lexeme.StandsBefore.spelled {l : Lexeme} {r : Text} (h : l.StandsBefore r) : l.Spelled := by
  obtain ⟨c, tail, -, hlexeme⟩ := h
  have hspells := lexeme_spells c (tail ++ r)
  rw [hlexeme] at hspells
  exact hspells

theorem Stand.spelledAll {ts : List Token} {r : Text} (h : Stand ts r) : SpelledAll ts := by
  induction ts with
  | nil => simp
  | cons t ts ih => exact spelledAll_cons.mpr ⟨h.1.spelled, ih h.2⟩

/-- A run that ends in punctuation or in a complete comment stands before every text. -/
theorem Stand.of_last {ts : List Token} {t : Token} {r : Text} (h : Stand (ts ++ [t]) r)
    (hlast : t.kind.sign? ≠ none ∨ (t.kind = .comment ∧ r ≠ [])) (r' : Text) :
    Stand (ts ++ [t]) r' := by
  rw [stand_append] at h ⊢
  obtain ⟨hfront, hstands, -⟩ := h
  have hspelled := hstands.spelled
  have hlastStands : t.toLexeme.StandsBefore r' := by
    rcases hlast with hsign | ⟨hkind, hr⟩
    · obtain ⟨c, hc⟩ := Option.ne_none_iff_exists'.mp hsign
      exact Lexeme.standsBefore_of_sign? hspelled hc r'
    · obtain ⟨⟨kind, x⟩, span⟩ := t
      subst hkind
      refine hstands.comment fun _ => ?_
      obtain ⟨c, r, rfl⟩ := List.exists_cons_of_ne_nil hr
      rfl
  have hfirst : ∃ c tail, t.text = c :: tail ∧ isDecisive c = true := by
    rcases hlast with hsign | ⟨hkind, -⟩
    · obtain ⟨c, hc⟩ := Option.ne_none_iff_exists'.mp hsign
      exact ⟨c, [], Kind.Spells.text_eq hspelled hc, isDecisive_of_sign? hc⟩
    · rw [Lexeme.Spelled, hkind] at hspelled
      obtain ⟨body, hbody⟩ := hspelled
      exact ⟨'/', '*' :: body, hbody, by decide⟩
  obtain ⟨c, tail, htext, hdecisive⟩ := hfirst
  refine ⟨hfront.next ?_, by simpa [Stand] using hlastStands⟩
  rw [textOf_cons, textOf_nil, htext]
  exact next_cons_of_isDecisive hdecisive _ _

end StyleFlip
