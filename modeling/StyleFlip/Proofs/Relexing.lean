import StyleFlip.Proofs.Lookahead
import StyleFlip.Proofs.Spelling

/-!
# Lexing a respelled text

A scanner that stops after `x` in `x ++ r` stops after `x'` in `x' ++ r'` when `x'` is a respelling
of `x` and `r` is ahead of `r'`. The statement is proved for the scanners one by one and then for
lexemes (`Lexeme.StandsBefore.respelled`). With `x' = x` it says that a lexeme keeps its place when
only the text after it changes.
-/

namespace StyleFlip

open Lexer

/-! ### Scanning by units -/

namespace Scan

theorem map_cons_eq_iff {c : Char} {p : Text × Text} {x r : Text} :
    Prod.map (c :: ·) id p = (c :: x, r) ↔ p = (x, r) := by
  simp [Prod.ext_iff]

/-- The two parts of a scan that is made of two scans. -/
theorem exists_of_andThen {s t : Scan} (ht : Lossless t) {text x r : Text}
    (h : s.andThen t text = (x, r)) :
    ∃ a b, x = a ++ b ∧ s text = (a, b ++ r) ∧ t (b ++ r) = (b, r) := by
  rw [andThen_apply] at h
  obtain ⟨rfl, hr⟩ := Prod.mk.inj h
  have hrest := ht (s text).2
  rw [hr] at hrest
  refine ⟨(s text).1, (t (s text).2).1, rfl, ?_, ?_⟩
  · rw [hrest]
  · rw [hrest, ← hr]

theorem andThen_eq {s t : Scan} {text a b r : Text} (hs : s text = (a, b ++ r))
    (ht : t (b ++ r) = (b, r)) : s.andThen t text = (a ++ b, r) := by
  rw [andThen_apply, hs, ht]

/-- `units` with the backslash read on its own; `escaped` tells whether one was read just before. -/
def unitsFrom (verdict : Char → Verdict) (escaped : Bool) : Scan
  | [] => ([], [])
  | c :: rest =>
    if escaped then Prod.map (c :: ·) id (unitsFrom verdict false rest)
    else if c = '\\' then Prod.map (c :: ·) id (unitsFrom verdict true rest)
    else
      match verdict c with
      | .take => Prod.map (c :: ·) id (unitsFrom verdict false rest)
      | .last => ([c], rest)
      | .stop => ([], c :: rest)

theorem unitsFrom_lossless (verdict : Char → Verdict) (escaped : Bool) :
    Lossless (unitsFrom verdict escaped) := by
  intro text
  fun_induction unitsFrom verdict escaped text <;> simp_all

theorem units_eq_unitsFrom {verdict : Char → Verdict} (h : verdict '\\' = .take) (text : Text) :
    units verdict text = unitsFrom verdict false text := by
  fun_induction units verdict text with
  | case1 => rfl
  | case2 c rest ih =>
      simp only [unitsFrom, ih]
      rfl
  | case3 c rest hescape htake ih =>
      by_cases hc : c = '\\'
      · subst hc
        cases rest with
        | nil => simp [unitsFrom, units]
        | cons d rest => exact absurd rfl (hescape d rest rfl)
      · simp [unitsFrom, hc, htake, ih]
  | case4 c rest hescape hlast =>
      have hc : c ≠ '\\' := by
        rintro rfl
        simp [h] at hlast
      simp [unitsFrom, hc, hlast]
  | case5 c rest hescape hstop =>
      have hc : c ≠ '\\' := by
        rintro rfl
        simp [h] at hstop
      simp [unitsFrom, hc, hstop]

/-- What `units` needs to know of a verdict: runs and backslashes are taken, and `look` asks whether
the first character is not a stop. -/
structure Verdict.Follows (verdict : Char → Verdict) (look : Lookahead) : Prop where
  escape : verdict '\\' = .take
  run : ∀ c, isRunChar c = true → verdict c = .take
  stops : ∀ c rest, verdict c = .stop ↔ look.sees (c :: rest) = false

theorem unitsFrom_run {verdict : Char → Verdict} (hrun : ∀ c, isRunChar c = true → verdict c = .take)
    {w : Text} (hw : ∀ c ∈ w, isRunChar c = true) (text : Text) :
    unitsFrom verdict false (w ++ text) = Prod.map (w ++ ·) id (unitsFrom verdict false text) := by
  induction w with
  | nil => rfl
  | cons c w ih =>
      have hc : isRunChar c = true := hw c (by simp)
      have hne : c ≠ '\\' := ne_of_isRunChar hc (by decide)
      rw [List.cons_append, unitsFrom, if_neg (by simp), if_neg hne, hrun c hc,
        ih fun d hd => hw d (by simp [hd])]
      rfl

theorem unitsFrom_isRun {verdict : Char → Verdict}
    (hrun : ∀ c, isRunChar c = true → verdict c = .take) {w : Text} (hw : IsRun w) (escaped : Bool)
    (text : Text) :
    unitsFrom verdict escaped (w ++ text) = Prod.map (w ++ ·) id (unitsFrom verdict false text) := by
  cases escaped with
  | false => exact unitsFrom_run hrun hw.2 text
  | true =>
      obtain ⟨c, d, more, rfl, -, -⟩ := hw.exists_cons
      rw [List.cons_append, unitsFrom, if_pos rfl,
        unitsFrom_run hrun fun e he => hw.2 e (by simp [List.mem_cons.mp he])]
      rfl

theorem unitsFrom_eq_nil_iff {verdict : Char → Verdict} {look : Lookahead}
    (hv : Verdict.Follows verdict look) (escaped : Bool) (text : Text) :
    unitsFrom verdict escaped text = ([], text) ↔
      (if escaped then Lookahead.more else look).sees text = false := by
  have htaken : ∀ (c : Char) (p : Text × Text) (rest : Text),
      Prod.map (c :: ·) id p ≠ ([], rest) := by
    intro c p rest h
    exact absurd (congrArg Prod.fst h) (by simp)
  cases text with
  | nil => simp [unitsFrom]
  | cons c rest =>
      cases escaped with
      | true => simpa [unitsFrom, Lookahead.sees, startsWith] using htaken c _ _
      | false =>
          have hstops := hv.stops c rest
          by_cases hc : c = '\\'
          · subst hc
            rw [hv.escape] at hstops
            simp only [unitsFrom, htaken, Bool.false_eq_true, if_false, if_true] at hstops ⊢
            simpa using hstops
          · rw [if_neg (by simp), ← hstops]
            cases hverdict : verdict c with
            | take => simpa [unitsFrom, hc, hverdict] using htaken c _ _
            | last => simp [unitsFrom, hc, hverdict]
            | stop => simp [unitsFrom, hc, hverdict]

/-- Scanning by units cuts a respelled text where it cuts the text. -/
theorem unitsFrom_respelled {verdict : Char → Verdict} {look : Lookahead}
    (hv : Verdict.Follows verdict look) {r r' b : Text}
    (hmore : Lookahead.more.sees r' = true → Lookahead.more.sees r = true)
    (hlook : b = [] → look.sees r' = true → look.sees r = true) {x x' : Text}
    (hx : Respelled x x') :
    ∀ (escaped : Bool) (a : Text), unitsFrom verdict escaped (x ++ r) = (a, b ++ r) →
      ∃ a' b', x' = a' ++ b' ∧ Respelled a a' ∧ Respelled b b' ∧
        unitsFrom verdict escaped (x' ++ r') = (a', b' ++ r') := by
  induction hx with
  | nil =>
      intro escaped a h
      have hlossless := unitsFrom_lossless verdict escaped r
      rw [List.nil_append] at h
      rw [h] at hlossless
      obtain ⟨rfl, rfl⟩ : a = [] ∧ b = [] := by
        have hlength := congrArg List.length hlossless
        simp only [List.length_append] at hlength
        exact ⟨List.length_eq_zero_iff.mp (by omega), List.length_eq_zero_iff.mp (by omega)⟩
      refine ⟨[], [], rfl, .nil, .nil, ?_⟩
      rw [List.nil_append] at h ⊢
      rw [unitsFrom_eq_nil_iff hv] at h ⊢
      cases escaped with
      | true => simpa using mt hmore (by simpa using h)
      | false => simpa using mt (hlook rfl) (by simpa using h)
  | @keep x x' c hx ih =>
      intro escaped a h
      -- The character is taken and the scan goes on.
      have hgo : ∀ next : Bool,
          (∀ text, unitsFrom verdict escaped (c :: text) =
            Prod.map (c :: ·) id (unitsFrom verdict next text)) →
          ∃ a' b', c :: x' = a' ++ b' ∧ Respelled a a' ∧ Respelled b b' ∧
            unitsFrom verdict escaped (c :: x' ++ r') = (a', b' ++ r') := by
        intro next hstep
        rw [List.cons_append, hstep] at h
        obtain ⟨rfl, hrest⟩ := Prod.mk.inj h
        obtain ⟨a', b', rfl, ha, hb, hscan⟩ :=
          ih next (unitsFrom verdict next (x ++ r)).1 (Prod.ext rfl hrest)
        exact ⟨c :: a', b', rfl, ha.keep c, hb, by rw [List.cons_append, hstep, hscan]; rfl⟩
      by_cases hescaped : escaped = true
      · exact hgo false fun text => by simp [unitsFrom, hescaped]
      by_cases hc : c = '\\'
      · exact hgo true fun text => by simp [unitsFrom, hescaped, hc]
      cases hverdict : verdict c with
      | take => exact hgo false fun text => by simp [unitsFrom, hescaped, hc, hverdict]
      | last =>
          simp only [List.cons_append, unitsFrom, hescaped, hc, hverdict] at h
          obtain ⟨rfl, hrest⟩ := Prod.mk.inj h
          obtain rfl := List.append_cancel_right hrest
          exact ⟨[c], x', rfl, .refl _, hx, by simp [unitsFrom, hescaped, hc, hverdict]⟩
      | stop =>
          simp only [List.cons_append, unitsFrom, hescaped, hc, hverdict] at h
          obtain ⟨rfl, hrest⟩ := Prod.mk.inj h
          obtain rfl := @List.append_cancel_right _ (c :: x) _ _ hrest
          exact ⟨[], c :: x', rfl, .nil, hx.keep c, by simp [unitsFrom, hescaped, hc, hverdict]⟩
  | @run w w' x x' hw hw' hx ih =>
      intro escaped a h
      rw [List.append_assoc, unitsFrom_isRun hv.run hw] at h
      obtain ⟨rfl, hrest⟩ := Prod.mk.inj h
      obtain ⟨a', b', rfl, ha, hb, hscan⟩ :=
        ih false (unitsFrom verdict false (x ++ r)).1 (Prod.ext rfl hrest)
      refine ⟨w' ++ a', b', by simp, .run hw hw' ha, hb, ?_⟩
      rw [List.append_assoc, List.append_assoc, unitsFrom_isRun hv.run hw', ← List.append_assoc,
        hscan]
      rfl

theorem units_respelled {verdict : Char → Verdict} {look : Lookahead}
    (hv : Verdict.Follows verdict look) {r r' a b x x' : Text}
    (hmore : Lookahead.more.sees r' = true → Lookahead.more.sees r = true)
    (hlook : b = [] → look.sees r' = true → look.sees r = true) (hx : Respelled x x')
    (h : units verdict (x ++ r) = (a, b ++ r)) :
    ∃ a' b', x' = a' ++ b' ∧ Respelled a a' ∧ Respelled b b' ∧
      units verdict (x' ++ r') = (a', b' ++ r') := by
  rw [units_eq_unitsFrom hv.escape] at h
  obtain ⟨a', b', hx', ha, hb, hscan⟩ := unitsFrom_respelled hv hmore hlook hx false a h
  exact ⟨a', b', hx', ha, hb, by rw [units_eq_unitsFrom hv.escape, hscan]⟩

/-- The case in which the scan takes the whole text. -/
theorem units_respelled_all {verdict : Char → Verdict} {look : Lookahead}
    (hv : Verdict.Follows verdict look) {r r' x x' : Text}
    (hmore : Lookahead.more.sees r' = true → Lookahead.more.sees r = true)
    (hlook : look.sees r' = true → look.sees r = true) (hx : Respelled x x')
    (h : units verdict (x ++ r) = (x, r)) : units verdict (x' ++ r') = (x', r') := by
  obtain ⟨a', b', rfl, -, hb, hscan⟩ := units_respelled (b := []) hv hmore (fun _ => hlook) hx h
  obtain rfl := hb.eq_nil
  simpa using hscan

end Scan

namespace Lexer

theorem nameVerdict_follows : Scan.Verdict.Follows nameVerdict .name where
  escape := rfl
  run c hc := by simp [nameVerdict, isNameChar_of_isRunChar hc]
  stops c rest := by simp [nameVerdict, Lookahead.sees, startsHashName, startsWith]

theorem quotedVerdict_follows {quote : Char} (h : isQuote quote = true) :
    Scan.Verdict.Follows (quotedVerdict quote) .line := by
  simp only [isQuote, Bool.or_eq_true, beq_iff_eq] at h
  constructor
  · rcases h with rfl | rfl <;> rfl
  · intro c hc
    have hline : c ≠ '\n' := ne_of_isRunChar hc (by decide)
    have hquote : c ≠ quote := ne_of_isRunChar hc (by rcases h with rfl | rfl <;> decide)
    simp [quotedVerdict, hline, hquote]
  · intro c rest
    by_cases hc : c = '\n'
    · have hquote : '\n' ≠ quote := by rcases h with rfl | rfl <;> decide
      simp [quotedVerdict, Lookahead.sees, startsWith, hc, hquote]
    · by_cases hquote : c = quote
      · subst hquote
        simp [quotedVerdict, Lookahead.sees, startsWith, hc]
      · simp [quotedVerdict, Lookahead.sees, startsWith, hc, hquote]

theorem urlVerdict_follows : Scan.Verdict.Follows urlVerdict .more where
  escape := rfl
  run c hc := by simp [urlVerdict, ne_of_isRunChar hc (d := ')') (by decide)]
  stops c rest := by
    by_cases hc : c = ')' <;> simp [urlVerdict, Lookahead.sees, startsWith, hc]

theorem name_respelled {r r' x x' : Text} (hr : AheadOfName r r') (hx : Respelled x x')
    (h : name (x ++ r) = (x, r)) : name (x' ++ r') = (x', r') :=
  Scan.units_respelled_all nameVerdict_follows (hr .more (by simp)) (hr .name (by simp)) hx h

theorem quoted_cons {c : Char} (h : isQuote c = true) (text : Text) :
    quoted (c :: text) = Prod.map (c :: ·) id (quotedBody c text) := by
  simp [quoted, h]

theorem quoted_of_not_isQuote {text : Text} (h : startsWith isQuote text = false) :
    quoted text = ([], text) := by
  cases text with
  | nil => rfl
  | cons c text => simp_all [quoted, startsWith]

theorem many_append {p : Char → Bool} {a z : Text} (ha : ∀ c ∈ a, p c = true)
    (hz : startsWith p z = false) : Scan.many p (a ++ z) = (a, z) := by
  have hhead : z.takeWhile p = [] ∧ z.dropWhile p = z := by
    cases z with
    | nil => exact ⟨rfl, rfl⟩
    | cons c z => simp_all [startsWith]
  simp [Scan.many, List.takeWhile_append_of_pos ha, List.dropWhile_append_of_pos ha, hhead]

theorem of_many_eq {p : Char → Bool} {text a z : Text} (h : Scan.many p text = (a, z)) :
    (∀ c ∈ a, p c = true) ∧ startsWith p z = false := by
  obtain ⟨rfl, rfl⟩ := Prod.mk.inj h
  constructor
  · intro c hc
    exact List.all_eq_true.mp List.all_takeWhile c hc
  · have hhead := List.head?_dropWhile_not p text
    cases hdrop : text.dropWhile p with
    | nil => rfl
    | cons c z => simpa [hdrop, startsWith] using hhead

theorem isRunChar_of_isSpace {c : Char} (h : isSpace c = true) : isRunChar c = false := by
  simp only [isSpace, Bool.or_eq_true, beq_iff_eq] at h
  rcases h with (((rfl | rfl) | rfl) | rfl) | rfl <;> rfl

theorem isRunChar_of_isQuote {c : Char} (h : isQuote c = true) : isRunChar c = false := by
  simp only [isQuote, Bool.or_eq_true, beq_iff_eq] at h
  rcases h with rfl | rfl <;> rfl

theorem isSpace_of_isRunChar {c : Char} (h : isRunChar c = true) : isSpace c = false := by
  rw [Bool.eq_false_iff]
  intro hspace
  simp [isRunChar_of_isSpace hspace] at h

theorem isQuote_of_isRunChar {c : Char} (h : isRunChar c = true) : isQuote c = false := by
  rw [Bool.eq_false_iff]
  intro hquote
  simp [isRunChar_of_isQuote hquote] at h

/-- The string at the front of a url, if there is one. -/
theorem quoted_respelled_part {r r' a b x' : Text}
    (hmore : Lookahead.more.sees r' = true → Lookahead.more.sees r = true)
    (hend : b = [] → r = [] ∧ r' = []) (hx : Respelled (a ++ b) x')
    (h : quoted (a ++ (b ++ r)) = (a, b ++ r)) :
    ∃ a' b', x' = a' ++ b' ∧ Respelled b b' ∧ quoted (a' ++ (b' ++ r')) = (a', b' ++ r') := by
  by_cases hquote : startsWith isQuote (a ++ (b ++ r)) = true
  · cases a with
    | nil =>
        cases hb : b ++ r with
        | nil => rw [List.nil_append, hb] at hquote; contradiction
        | cons c rest =>
            rw [List.nil_append, hb] at hquote h
            rw [quoted_cons hquote] at h
            exact absurd (congrArg Prod.fst h) (by simp)
    | cons c a =>
        obtain ⟨y', rfl, hy'⟩ := hx.exists_cons (by simp [isRunChar_of_isQuote hquote])
        rw [List.cons_append, quoted_cons hquote, ← List.append_assoc] at h
        obtain ⟨a', b', rfl, -, hb', hscan⟩ :=
          Scan.units_respelled (quotedVerdict_follows hquote) hmore (by intro hb; simp [hend hb]) hy'
            (Scan.map_cons_eq_iff.mp h)
        refine ⟨c :: a', b', rfl, hb', ?_⟩
        rw [List.cons_append, quoted_cons hquote, Scan.map_cons_eq_iff, ← List.append_assoc]
        exact hscan
  · simp only [Bool.not_eq_true] at hquote
    rw [quoted_of_not_isQuote hquote] at h
    obtain ⟨rfl, -⟩ := Prod.mk.inj h
    refine ⟨[], x', rfl, hx, quoted_of_not_isQuote ?_⟩
    rw [List.nil_append] at hx hquote ⊢
    exact hx.not_startsWith_of_end (fun hb => (hend hb).2)
      (fun c hc => isQuote_of_isRunChar hc) hquote

/-- Only the end of the text cuts a url off. -/
theorem eq_nil_of_units_urlVerdict {r : Text} (h : Scan.units urlVerdict r = ([], r)) : r = [] := by
  cases r with
  | nil => rfl
  | cons c r =>
      have hgoes : urlVerdict c ≠ .stop := by
        rw [urlVerdict]
        split <;> simp
      exact absurd (congrArg Prod.fst h) (Scan.units_ne_nil r hgoes)

theorem urlBody_respelled {r r' x x' : Text} (hr : AheadOfName r r') (hx : Respelled x x')
    (h : urlBody (x ++ r) = (x, r)) : urlBody (x' ++ r') = (x', r') := by
  have hmore := hr .more (by simp)
  obtain ⟨front, tail, rfl, hfront, htail⟩ := Scan.exists_of_andThen (Scan.units_lossless _) h
  obtain ⟨blanks, string, rfl, hblanks, hstring⟩ := Scan.exists_of_andThen quoted_lossless hfront
  obtain ⟨hspace, hnext⟩ := of_many_eq hblanks
  have hend : tail = [] → r = [] ∧ r' = [] := by
    rintro rfl
    obtain rfl := eq_nil_of_units_urlVerdict htail
    refine ⟨rfl, ?_⟩
    cases r' with
    | nil => rfl
    | cons c r' => exact absurd (hmore rfl) (by simp)
  rw [List.append_assoc] at hx
  obtain ⟨y', rfl, hy'⟩ := hx.exists_append fun c hc => isRunChar_of_isSpace (hspace c hc)
  have hspace' : startsWith isSpace (y' ++ r') = false :=
    hy'.not_startsWith_of_end (fun hnil => (hend (List.append_eq_nil_iff.mp hnil).2).2)
      (fun c hc => isSpace_of_isRunChar hc) (by simpa using hnext)
  obtain ⟨string', tail', rfl, htail', hquoted⟩ := quoted_respelled_part hmore hend hy' hstring
  rw [List.append_assoc] at hspace'
  have hparts := Scan.andThen_eq (many_append hspace hspace') hquoted
  have hall := Scan.andThen_eq hparts
    (Scan.units_respelled_all urlVerdict_follows hmore hmore htail' htail)
  simp only [List.append_assoc] at hall ⊢
  exact hall

/-! ### Numbers -/

/-- The questions that the digits of a number ask. -/
def AheadOfDigits (r r' : Text) : Prop :=
  (startsDigit r' = true → startsDigit r = true) ∧
    (startsFraction r' = true → startsFraction r = true) ∧
      (startsExponent r' = true → startsExponent r = true)

theorem AheadOfDigits.append {r r' : Text} (h : AheadOfDigits r r') (x : Text) :
    AheadOfDigits (x ++ r) (x ++ r') := by
  induction x with
  | nil => exact h
  | cons c x ih =>
      refine ⟨id, ?_, ?_⟩
      · simp only [List.cons_append, startsFraction_cons, Bool.and_eq_true]
        exact And.imp_right ih.1
      · simp only [List.cons_append, startsExponent, Bool.and_eq_true]
        exact And.imp_right ih.1

theorem Respelled.aheadOfDigits {x x' r r' : Text} (h : Respelled x x') (hr : AheadOfDigits r r') :
    AheadOfDigits (x ++ r) (x' ++ r') := by
  induction h with
  | nil => exact hr
  | keep c _ ih => exact ih.append [c]
  | run hw hw' _ _ =>
      rw [List.append_assoc, List.append_assoc]
      have hrun := ahead_of_isRun hw hw'
      exact ⟨hrun _ _ .digit, hrun _ _ .fraction, hrun _ _ .exponent⟩

/-- A mark with digits after it, where `test` asks for both. -/
structure MarkedDigits (test : Text → Bool) (mark : Char → Bool) : Prop where
  nil : test [] = false
  cons : ∀ c rest, test (c :: rest) = (mark c && startsDigit rest)

def markedDigits (test : Text → Bool) : Scan := (Scan.one.andThen (Scan.many Char.isDigit)).when test

theorem markedDigits_lossless (test : Text → Bool) : Scan.Lossless (markedDigits test) :=
  Scan.when_lossless (Scan.andThen_lossless Scan.one_lossless (Scan.many_lossless _))

theorem of_markedDigits_eq {test : Text → Bool} {mark : Char → Bool} (ht : MarkedDigits test mark)
    {a z : Text} (h : markedDigits test (a ++ z) = (a, z)) :
    (a = [] ∧ test z = false) ∨
      ∃ c d more, a = c :: d :: more ∧ mark c = true ∧ (∀ e ∈ d :: more, e.isDigit = true) ∧
        startsDigit z = false := by
  unfold markedDigits Scan.when at h
  split at h
  · rename_i htest
    right
    cases a with
    | nil =>
        cases z with
        | nil => simp [ht.nil] at htest
        | cons c z => exact absurd (congrArg Prod.fst h) (by simp [Scan.andThen_apply, Scan.one])
    | cons c a =>
        rw [List.cons_append, ht.cons, Bool.and_eq_true] at htest
        have hmany : Scan.many Char.isDigit (a ++ z) = (a, z) := by
          simpa [Scan.andThen_apply, Scan.one, Prod.ext_iff] using h
        obtain ⟨hdigits, hstop⟩ := of_many_eq hmany
        cases a with
        | nil => exact absurd htest.2 (by simpa [startsDigit] using hstop)
        | cons d more => exact ⟨c, d, more, rfl, htest.1, hdigits, hstop⟩
  · rename_i htest
    left
    obtain ⟨rfl, -⟩ := Prod.mk.inj h
    exact ⟨rfl, by simpa using htest⟩

theorem markedDigits_cons {test : Text → Bool} {mark : Char → Bool} (ht : MarkedDigits test mark)
    {c d : Char} {more z : Text} (hc : mark c = true) (hd : ∀ e ∈ d :: more, e.isDigit = true)
    (hz : startsDigit z = false) :
    markedDigits test (c :: d :: more ++ z) = (c :: d :: more, z) := by
  have hmany : Scan.many Char.isDigit (d :: more ++ z) = (d :: more, z) := many_append hd hz
  have htest : test (c :: (d :: more ++ z)) = true := by
    rw [ht.cons, hc]
    simpa [startsDigit, startsWith] using hd d (by simp)
  rw [List.cons_append, markedDigits, Scan.when, if_pos htest, Scan.andThen_apply]
  simp only [Scan.one, hmany, List.singleton_append]

theorem markedDigits_of_ahead {test : Text → Bool} {mark : Char → Bool}
    (ht : MarkedDigits test mark) {a z z' : Text} (h : markedDigits test (a ++ z) = (a, z))
    (hdigit : startsDigit z' = true → startsDigit z = true)
    (htest : test z' = true → test z = true) : markedDigits test (a ++ z') = (a, z') := by
  rcases of_markedDigits_eq ht h with ⟨rfl, hstop⟩ | ⟨c, d, more, rfl, hc, hd, hstop⟩
  · have hstop' : test z' = false := by
      rw [Bool.eq_false_iff]
      exact fun hsees => absurd (htest hsees) (by simp [hstop])
    simp [markedDigits, Scan.when, hstop']
  · refine markedDigits_cons ht hc hd ?_
    rw [Bool.eq_false_iff]
    exact fun hsees => absurd (hdigit hsees) (by simp [hstop])

theorem markedDigits_fraction : MarkedDigits startsFraction (· == '.') :=
  ⟨rfl, startsFraction_cons⟩

theorem markedDigits_exponent : MarkedDigits startsExponent isExponentMark :=
  ⟨rfl, fun _ _ => rfl⟩

/-- What stands after the digits of a number. -/
def unit : Scan := fun text =>
  if startsWith (· == '%') text then Scan.one text else name.when startsIdent text

theorem unit_lossless : Scan.Lossless unit := by
  intro text
  unfold unit
  split
  · exact Scan.one_lossless text
  · exact Scan.when_lossless name_lossless text

/-- Where a name of one character stops. -/
theorem sees_of_name_singleton {c : Char} {r : Text} (h : name (c :: r) = ([c], r)) :
    (if c = '\\' then Lookahead.more else .name).sees r = false := by
  rw [name, Scan.units_eq_unitsFrom rfl, Scan.unitsFrom, if_neg (by simp)] at h
  split at h
  · rename_i hc
    rw [if_pos hc]
    exact (Scan.unitsFrom_eq_nil_iff nameVerdict_follows true r).mp (Scan.map_cons_eq_iff.mp h)
  · rename_i hc
    rw [if_neg hc]
    have hverdict : nameVerdict c = .take ∨ nameVerdict c = .stop := by
      unfold nameVerdict
      split <;> simp
    rcases hverdict with hverdict | hverdict <;> rw [hverdict] at h
    · exact (Scan.unitsFrom_eq_nil_iff nameVerdict_follows false r).mp (Scan.map_cons_eq_iff.mp h)
    · exact absurd (congrArg Prod.fst h) (by simp)

theorem name_sees_of_dash {r : Text} (h : Lookahead.dash.sees r = true) :
    Lookahead.name.sees r = true := by
  cases r with
  | nil => simp at h
  | cons c r =>
      simp only [Lookahead.sees, startsWith, startsHashName, isNameChar, Bool.or_eq_true] at h ⊢
      rcases h with (h | h) | h <;> simp [h]

/-- What makes a text start a name is a part of that name. -/
theorem startsIdent_respelled {r x x' : Text} (hx : Respelled x x') (hne : x ≠ [])
    (h : ∀ c, x = [c] → name (c :: r) = ([c], r)) (hstart : startsIdent (x ++ r) = true)
    (r' : Text) : startsIdent (x' ++ r') = true := by
  cases hx with
  | nil => contradiction
  | run hw hw' _ =>
      rw [List.append_assoc]
      exact hw'.startsIdent _
  | @keep y y' c hy =>
      rw [List.cons_append, startsIdent_cons] at hstart ⊢
      have hsingle : y = [] → (if c = '\\' then Lookahead.more else .name).sees r = false := by
        rintro rfl
        exact sees_of_name_singleton (h c rfl)
      split at hstart
      · rename_i hc
        rw [if_pos hc] at hsingle ⊢
        by_cases hy0 : y = []
        · have hmore := hsingle hy0
          rw [hy0, List.nil_append] at hstart
          cases r with
          | nil => simp at hstart
          | cons d r => contradiction
        · refine Respelled.startsWith hy hy0 (fun d hd => ?_) r r' hstart
          simpa using ne_of_isRunChar hd (by decide)
      · rename_i hc
        rw [if_neg hc] at hsingle ⊢
        split at hstart
        · rename_i hhyphen
          rw [if_pos hhyphen]
          by_cases hy0 : y = []
          · rw [hy0, List.nil_append] at hstart
            simp [name_sees_of_dash hstart] at hsingle
            contradiction
          · exact Respelled.startsWith hy hy0 (fun d hd => dash_of_isRunChar hd []) r r' hstart
        · rename_i hhyphen
          rw [if_neg hhyphen]
          exact hstart

theorem unit_respelled {r r' x x' : Text} (hr : AheadOfName r r') (hx : Respelled x x')
    (h : unit (x ++ r) = (x, r)) : unit (x' ++ r') = (x', r') := by
  by_cases hne : x = []
  · subst hne
    obtain rfl := hx.eq_nil
    rw [List.nil_append] at h ⊢
    have hpercent : startsWith (· == '%') r' = false := by
      rw [Bool.eq_false_iff]
      intro hsees
      have hsees' : startsWith (· == '%') r = true := hr .percent (by simp) hsees
      rw [unit, if_pos hsees'] at h
      cases r with
      | nil => contradiction
      | cons c r => exact absurd (congrArg Prod.fst h) (by simp [Scan.one])
    have hident : startsIdent r' = false := by
      rw [Bool.eq_false_iff]
      intro hsees
      have hsees' : startsIdent r = true := hr .ident (by simp) hsees
      have hnot : ¬ startsWith (· == '%') r = true := by
        intro hp
        cases r with
        | nil => contradiction
        | cons c r =>
            simp only [startsWith, beq_iff_eq] at hp
            subst hp
            contradiction
      rw [unit, if_neg hnot, Scan.when, if_pos hsees'] at h
      cases r with
      | nil => contradiction
      | cons c r => exact absurd (congrArg Prod.fst h) (name_ne_nil hsees')
    simp [unit, hpercent, Scan.when, hident]
  · by_cases hpercent : startsWith (· == '%') (x ++ r) = true
    · rw [unit, if_pos hpercent] at h
      cases x with
      | nil => contradiction
      | cons c x =>
          simp only [List.cons_append, startsWith, beq_iff_eq] at hpercent
          subst hpercent
          obtain ⟨y, rfl, hy⟩ := hx.exists_cons (fun hrun => absurd hrun (by decide))
          have hx0 : x = [] := by simpa [Scan.one] using h
          subst hx0
          rw [hy.eq_nil]
          rfl
    · have hpercent' : startsWith (· == '%') (x' ++ r') = false := by
        refine Respelled.startsWith hx hne (fun c hc => ?_) r r' (by simpa using hpercent)
        simpa using ne_of_isRunChar hc (by decide)
      rw [unit, if_neg hpercent, Scan.when] at h
      split at h
      · rename_i hident
        have hident' := startsIdent_respelled hx hne (by rintro c rfl; exact h) hident r'
        simp [unit, hpercent', Scan.when, hident', name_respelled hr hx h]
      · exact absurd (congrArg Prod.fst h).symm hne

theorem isRunChar_of_isDigit {c : Char} (h : c.isDigit = true) : isRunChar c = false := by
  rw [Bool.eq_false_iff]
  intro hrun
  simp [isDigit_of_isRunChar hrun] at h

/-- The digits in front of a number and those after its point. -/
def startsUnsigned (text : Text) : Bool := startsDigit text || startsFraction text

theorem startsNumber_cons (c : Char) (rest : Text) :
    startsNumber (c :: rest) = (startsUnsigned (c :: rest) || (isSign c && startsUnsigned rest)) :=
  rfl

/-- The parts of a number: a sign, digits, a fraction, an exponent and a unit. -/
structure NumberParts (s d f e u rest : Text) : Prop where
  sign : s = [] ∨ ∃ c, s = [c] ∧ isSign c = true
  some : d ≠ [] ∨ f ≠ []
  digits : Scan.many Char.isDigit (d ++ (f ++ (e ++ (u ++ rest)))) = (d, f ++ (e ++ (u ++ rest)))
  fraction : markedDigits startsFraction (f ++ (e ++ (u ++ rest))) = (f, e ++ (u ++ rest))
  exponent : markedDigits startsExponent (e ++ (u ++ rest)) = (e, u ++ rest)
  unit : Lexer.unit (u ++ rest) = (u, rest)

section Parts

variable {s d f e u rest : Text}

theorem NumberParts.startsUnsigned (h : NumberParts s d f e u rest) :
    startsUnsigned (d ++ (f ++ (e ++ (u ++ rest)))) = true := by
  obtain ⟨hdigits, -⟩ := of_many_eq h.digits
  cases d with
  | cons c d => simp [Lexer.startsUnsigned, startsDigit, startsWith, hdigits c (by simp)]
  | nil =>
      rcases of_markedDigits_eq markedDigits_fraction h.fraction with
        ⟨rfl, -⟩ | ⟨c, c', more, rfl, hc, hdigit, -⟩
      · exact absurd h.some (by simp)
      · simp only [beq_iff_eq] at hc
        subst hc
        simp [Lexer.startsUnsigned, startsFraction, startsDigit, startsWith, hdigit c' (by simp)]

theorem not_isSign_of_startsUnsigned {c : Char} {text : Text}
    (h : Lexer.startsUnsigned (c :: text) = true) : isSign c = false := by
  rw [Lexer.startsUnsigned, startsFraction_cons, Bool.or_eq_true, Bool.and_eq_true] at h
  rw [Bool.eq_false_iff]
  intro hsign
  simp only [isSign, Bool.or_eq_true, beq_iff_eq] at hsign
  rcases hsign with rfl | rfl <;> simp [startsDigit, startsWith] at h

theorem NumberParts.startsNumber (h : NumberParts s d f e u rest) :
    startsNumber (s ++ (d ++ (f ++ (e ++ (u ++ rest))))) = true := by
  have hunsigned := h.startsUnsigned
  rcases h.sign with rfl | ⟨c, rfl, hc⟩
  · rw [List.nil_append]
    cases htext : d ++ (f ++ (e ++ (u ++ rest))) with
    | nil => simp [htext, Lexer.startsUnsigned, startsDigit, startsWith, startsFraction] at hunsigned
    | cons c text => rw [htext] at hunsigned; simp [startsNumber_cons, hunsigned]
  · simp [startsNumber_cons, hc, hunsigned]

theorem NumberParts.number_eq (h : NumberParts s d f e u rest) :
    number (s ++ (d ++ (f ++ (e ++ (u ++ rest))))) = (s ++ (d ++ (f ++ (e ++ u))), rest) := by
  have hfrom : (Scan.one.when (startsWith isSign)) (s ++ (d ++ (f ++ (e ++ (u ++ rest))))) =
      (s, d ++ (f ++ (e ++ (u ++ rest)))) := by
    rcases h.sign with rfl | ⟨c, rfl, hc⟩
    · have hunsigned := h.startsUnsigned
      rw [List.nil_append]
      cases htext : d ++ (f ++ (e ++ (u ++ rest))) with
      | nil => rfl
      | cons c text =>
          rw [htext] at hunsigned
          simp [Scan.when, startsWith, not_isSign_of_startsUnsigned hunsigned]
    · simp [Scan.when, startsWith, hc, Scan.one]
  have hexponent := Scan.andThen_eq h.exponent h.unit
  have hfraction := Scan.andThen_eq (b := e ++ u) (r := rest)
    (by simp only [List.append_assoc]; exact h.fraction)
    (by simp only [List.append_assoc]; exact hexponent)
  have hdigits := Scan.andThen_eq (b := f ++ (e ++ u)) (r := rest)
    (by simp only [List.append_assoc]; exact h.digits)
    (by simp only [List.append_assoc]; exact hfraction)
  exact Scan.andThen_eq (b := d ++ (f ++ (e ++ u))) (r := rest)
    (by simp only [List.append_assoc]; exact hfrom)
    (by simp only [List.append_assoc]; exact hdigits)

theorem exists_numberParts {x r : Text} (hstart : Lexer.startsNumber (x ++ r) = true)
    (h : number (x ++ r) = (x, r)) :
    ∃ s d f e u, x = s ++ (d ++ (f ++ (e ++ u))) ∧ NumberParts s d f e u r := by
  have hmarked := markedDigits_lossless
  obtain ⟨s, x1, rfl, hsign, h1⟩ := Scan.exists_of_andThen
    (Scan.andThen_lossless (Scan.many_lossless _) (Scan.andThen_lossless (hmarked _)
      (Scan.andThen_lossless (hmarked _) unit_lossless))) h
  obtain ⟨d, x2, rfl, hdigits, h2⟩ := Scan.exists_of_andThen
    (Scan.andThen_lossless (hmarked _) (Scan.andThen_lossless (hmarked _) unit_lossless)) h1
  obtain ⟨f, x3, rfl, hfraction, h3⟩ := Scan.exists_of_andThen
    (Scan.andThen_lossless (hmarked _) unit_lossless) h2
  obtain ⟨e, u, rfl, hexponent, hunit⟩ := Scan.exists_of_andThen unit_lossless h3
  simp only [List.append_assoc] at hstart hsign hdigits hfraction hexponent hunit
  -- The sign is left out of the text, or it was none.
  have hunsigned : (s = [] ∨ ∃ c, s = [c] ∧ isSign c = true) ∧
      Lexer.startsUnsigned (d ++ (f ++ (e ++ (u ++ r)))) = true := by
    unfold Scan.when at hsign
    split at hsign
    · rename_i hsigned
      cases htext : s ++ (d ++ (f ++ (e ++ (u ++ r)))) with
      | nil => simp [htext, startsWith] at hsigned
      | cons c text =>
          rw [htext] at hsign hsigned hstart
          obtain ⟨rfl, rfl⟩ := Prod.mk.inj hsign
          refine ⟨Or.inr ⟨c, rfl, hsigned⟩, ?_⟩
          rw [startsNumber_cons, Bool.or_eq_true, Bool.and_eq_true] at hstart
          rcases hstart with hstart | hstart
          · have hnot := not_isSign_of_startsUnsigned hstart
            simp only [startsWith] at hsigned
            simp [hsigned] at hnot
          · exact hstart.2
    · rename_i hsigned
      obtain ⟨rfl, -⟩ := Prod.mk.inj hsign
      refine ⟨Or.inl rfl, ?_⟩
      rw [List.nil_append] at hstart hsigned
      cases htext : d ++ (f ++ (e ++ (u ++ r))) with
      | nil => simp [htext, Lexer.startsNumber] at hstart
      | cons c text =>
          rw [htext] at hstart hsigned
          simp only [startsWith, Bool.not_eq_true] at hsigned
          simpa [startsNumber_cons, hsigned] using hstart
  refine ⟨s, d, f, e, u, rfl, hunsigned.1, ?_, hdigits, hfraction, hexponent, hunit⟩
  by_cases hd : d = []
  · subst hd
    refine Or.inr ?_
    rintro rfl
    obtain ⟨-, hdigit⟩ := of_many_eq hdigits
    rcases of_markedDigits_eq markedDigits_fraction hfraction with ⟨-, hnot⟩ | ⟨_, _, _, heq, _⟩
    · have hdigit' : startsDigit (e ++ (u ++ r)) = false := hdigit
      have hboth := hunsigned.2
      simp [Lexer.startsUnsigned, hdigit', hnot] at hboth
    · contradiction
  · exact Or.inl hd

theorem not_isRunChar_of_startsUnsigned {text : Text} (h : Lexer.startsUnsigned text = true) :
    startsWith isRunChar text = false := by
  cases text with
  | nil => rfl
  | cons c text =>
      rw [Lexer.startsUnsigned, startsFraction_cons, Bool.or_eq_true, Bool.and_eq_true,
        beq_iff_eq] at h
      rcases h with h | ⟨rfl, -⟩
      · exact isRunChar_of_isDigit h
      · rfl

theorem startsWith_of_append {p : Char → Bool} {a b : Text} (h : startsWith p (a ++ b) = false) :
    startsWith p a = false := by
  cases a with
  | nil => rfl
  | cons c a => exact h

/-- No run starts in front of the unit of a number. -/
theorem NumberParts.exists_unit {r x' : Text} (h : NumberParts s d f e u r)
    (hx : Respelled (s ++ (d ++ (f ++ (e ++ u)))) x') :
    ∃ u', x' = s ++ (d ++ (f ++ (e ++ u'))) ∧ Respelled u u' := by
  have hsign : ∃ y, x' = s ++ y ∧ Respelled (d ++ (f ++ (e ++ u))) y := by
    rcases h.sign with rfl | ⟨c, rfl, -⟩
    · exact ⟨x', rfl, hx⟩
    · refine hx.exists_cons fun _ => startsWith_of_append (b := r) ?_
      simpa using not_isRunChar_of_startsUnsigned h.startsUnsigned
  obtain ⟨y, rfl, hy⟩ := hsign
  obtain ⟨z, rfl, hz⟩ :=
    hy.exists_append fun c hc => isRunChar_of_isDigit ((of_many_eq h.digits).1 c hc)
  have hfraction : ∃ v, z = f ++ v ∧ Respelled (e ++ u) v := by
    rcases of_markedDigits_eq markedDigits_fraction h.fraction with
      ⟨rfl, -⟩ | ⟨c, c', more, rfl, hc, hdigit, -⟩
    · exact ⟨z, rfl, hz⟩
    · refine hz.exists_append fun b hb => ?_
      rcases List.mem_cons.mp hb with rfl | hb
      · simp only [beq_iff_eq] at hc
        rw [hc]
        rfl
      · exact isRunChar_of_isDigit (hdigit b hb)
  obtain ⟨v, rfl, hv⟩ := hfraction
  have hexponent : ∃ u', v = e ++ u' ∧ Respelled u u' := by
    rcases of_markedDigits_eq markedDigits_exponent h.exponent with
      ⟨rfl, -⟩ | ⟨c, c', more, rfl, -, hdigit, -⟩
    · exact ⟨v, rfl, hv⟩
    · obtain ⟨v, rfl, hv'⟩ := hv.exists_cons fun _ => isRunChar_of_isDigit (hdigit c' (by simp))
      obtain ⟨u', rfl, hu⟩ := hv'.exists_append (p := c' :: more)
        fun b hb => isRunChar_of_isDigit (hdigit b hb)
      exact ⟨u', rfl, hu⟩
  obtain ⟨u', rfl, hu⟩ := hexponent
  exact ⟨u', rfl, hu⟩

theorem NumberParts.respelled {r r' u' : Text} (h : NumberParts s d f e u r)
    (hr : AheadOfName r r') (hu : Respelled u u') : NumberParts s d f e u' r' := by
  have hrest : AheadOfDigits (u ++ r) (u' ++ r') :=
    Respelled.aheadOfDigits hu
      ⟨hr .digit (by simp), hr .fraction (by simp), hr .exponent (by simp)⟩
  obtain ⟨hdigits, hstop⟩ := of_many_eq h.digits
  have hexponent := hrest.append e
  have hfraction := hexponent.append f
  refine ⟨h.sign, h.some, many_append hdigits ?_, ?_, ?_, unit_respelled hr hu h.unit⟩
  · rw [Bool.eq_false_iff]
    exact fun hsees => absurd (hfraction.1 hsees) (by simp [startsDigit, hstop])
  · exact markedDigits_of_ahead markedDigits_fraction h.fraction hexponent.1 hexponent.2.1
  · exact markedDigits_of_ahead markedDigits_exponent h.exponent hrest.1 hrest.2.2

end Parts

theorem number_respelled {r r' x x' : Text} (hr : AheadOfName r r') (hx : Respelled x x')
    (hstart : startsNumber (x ++ r) = true) (h : number (x ++ r) = (x, r)) :
    startsNumber (x' ++ r') = true ∧ number (x' ++ r') = (x', r') := by
  obtain ⟨s, d, f, e, u, rfl, hparts⟩ := exists_numberParts hstart h
  obtain ⟨u', rfl, hu⟩ := hparts.exists_unit hx
  have hparts' := hparts.respelled hr hu
  simp only [List.append_assoc]
  exact ⟨hparts'.startsNumber, hparts'.number_eq⟩

/-! ### Names -/

theorem isUrlName_respelled {x x' : Text} (h : Respelled x x') :
    Text.sameIgnoringCase x' "url".toList = Text.sameIgnoringCase x "url".toList := by
  have hlength : ∀ y : Text, Text.sameIgnoringCase y "url".toList = true → y.length < 4 := by
    intro y hy
    have hlower := congrArg List.length (eq_of_beq hy)
    simp only [Text.lower, List.length_map] at hlower
    rw [hlower]
    decide
  rw [Bool.eq_iff_iff]
  constructor
  · intro hurl
    rwa [h.symm.eq_of_length (hlength x' hurl)]
  · intro hurl
    rwa [h.eq_of_length (hlength x hurl)]

theorem name_respelled_part {r r' a b x' : Text} (hr : AheadOfName r r') (hb : b ≠ [])
    (hx : Respelled (a ++ b) x') (h : name (a ++ (b ++ r)) = (a, b ++ r)) :
    ∃ a' b', x' = a' ++ b' ∧ Respelled a a' ∧ Respelled b b' ∧
      name (a' ++ (b' ++ r')) = (a', b' ++ r') := by
  rw [← List.append_assoc] at h
  obtain ⟨a', b', rfl, ha, hb', hscan⟩ :=
    Scan.units_respelled nameVerdict_follows (hr .more (by simp)) (by simp [hb]) hx h
  exact ⟨a', b', rfl, ha, hb', by rw [← List.append_assoc]; exact hscan⟩

theorem named_respelled {kind : Kind} {r r' x x' : Text} (hr : AheadOfName r r')
    (hx : Respelled x x') (h : named (x ++ r) = (kind, x, r)) :
    named (x' ++ r') = (kind, x', r') := by
  have hlossless := name_lossless (x ++ r)
  unfold named at h
  split at h
  · rename_i taken rest hname
    rw [hname] at hlossless
    have hrest : ∃ y, x = taken ++ '(' :: y ∧ rest = y ++ r := by
      split at h
      · have htext : taken ++ '(' :: (urlBody rest).1 = x := congrArg (·.2.1) h
        have hafter : (urlBody rest).2 = r := congrArg (·.2.2) h
        exact ⟨(urlBody rest).1, htext.symm, by rw [← hafter, urlBody_lossless rest]⟩
      · obtain ⟨hx, hr⟩ := Prod.mk.inj (Prod.mk.inj h).2
        exact ⟨[], hx.symm, by simpa using hr⟩
    obtain ⟨y, rfl, rfl⟩ := hrest
    rw [List.append_assoc, List.cons_append] at hname
    obtain ⟨taken', paren, rfl, htaken, hparen, hname'⟩ :=
      name_respelled_part hr (by simp) hx hname
    obtain ⟨y', rfl, hy⟩ := hparen.exists_cons fun hrun => absurd hrun (by decide)
    have hurl := isUrlName_respelled htaken
    rw [← List.append_assoc] at hname'
    split at h
    · rename_i hsame
      have hbody : urlBody (y ++ r) = (y, r) := by
        obtain ⟨-, h⟩ := Prod.mk.inj h
        simpa [Prod.ext_iff] using h
      rw [hsame] at hurl
      simp only [named, hname', List.cons_append, hurl, if_true, urlBody_respelled hr hy hbody]
      exact congrArg (·, _) (Prod.mk.inj h).1
    · rename_i hsame
      have hy0 : y = [] := by
        obtain ⟨hx, -⟩ := Prod.mk.inj (Prod.mk.inj h).2
        simpa using hx.symm
      subst hy0
      obtain rfl := hy.eq_nil
      simp only [Bool.not_eq_true] at hsame
      rw [hsame] at hurl
      simp only [named, hname', List.cons_append, hurl]
      exact congrArg (·, _) (Prod.mk.inj h).1
  · rename_i taken rest hparen hname
    obtain ⟨hkind, h⟩ := Prod.mk.inj h
    obtain ⟨rfl, rfl⟩ := Prod.mk.inj h
    have hname' := name_respelled hr hx hname
    unfold named
    rw [hname']
    split
    · rename_i rest' heq
      obtain ⟨-, rfl⟩ := Prod.mk.inj heq
      have hsees := hr .paren (by simp) rfl
      cases rest with
      | nil => simp at hsees
      | cons c rest =>
          simp only [Lookahead.sees, startsWith, beq_iff_eq] at hsees
          exact (hparen rest (by rw [hsees])).elim
    · rename_i heq
      obtain ⟨rfl, rfl⟩ := Prod.mk.inj heq
      rw [hkind]

theorem name_of_named_singleton {kind : Kind} {c : Char} {r : Text}
    (hstart : startsIdent (c :: r) = true) (h : named (c :: r) = (kind, [c], r)) :
    name (c :: r) = ([c], r) := by
  have hne := name_ne_nil hstart
  unfold named at h
  split at h <;> rename_i hname <;> rw [hname] at hne
  · split at h
    · have htext := congrArg (·.2.1.length) h
      have hpos := List.length_pos_iff.mpr hne
      simp only [Prod.map_fst, List.length_append, List.length_cons, List.length_nil] at htext hpos
      omega
    · have htext := congrArg (·.2.1.length) h
      have hpos := List.length_pos_iff.mpr hne
      simp only [List.length_append, List.length_cons, List.length_nil] at htext hpos
      omega
  · rw [hname]
    exact (Prod.mk.inj h).2

/-! ### Comments -/

theorem throughCommentEnd_ne_nil (c : Char) (rest : Text) :
    (Scan.throughCommentEnd (c :: rest)).1 ≠ [] := by
  unfold Scan.throughCommentEnd
  split
  · contradiction
  · simp
  · simp

/-- A comment ends where it did, unless it was the end of the text that ended it. -/
theorem throughCommentEnd_of_more {x r r' : Text}
    (hmore : Lookahead.more.sees r' = true → Lookahead.more.sees r = true)
    (h : Scan.throughCommentEnd (x ++ r) = (x, r)) : Scan.throughCommentEnd (x ++ r') = (x, r') := by
  generalize htext : x ++ r = text at h
  fun_induction Scan.throughCommentEnd text generalizing x with
  | case1 =>
      obtain ⟨rfl, rfl⟩ := List.append_eq_nil_iff.mp htext
      cases r' with
      | nil => rfl
      | cons c r' => exact absurd (hmore rfl) (by simp)
  | case2 rest =>
      obtain ⟨rfl, -⟩ := Prod.mk.inj h
      rfl
  | case3 c rest hend ih =>
      cases x with
      | nil => exact absurd (congrArg Prod.fst h) (by simp)
      | cons d x =>
          obtain ⟨rfl, rfl⟩ := List.cons.inj htext
          have hrest := ih rfl (Scan.map_cons_eq_iff.mp h)
          rw [List.cons_append]
          unfold Scan.throughCommentEnd
          split
          · contradiction
          · rename_i tail heq
            obtain ⟨hd, hx⟩ := List.cons.inj heq
            cases x with
            | nil =>
                rw [hx] at hrest
                exact absurd (congrArg Prod.fst hrest) (throughCommentEnd_ne_nil _ _)
            | cons e x =>
                exact (hend (x ++ r) hd (by rw [(List.cons.inj hx).1]; rfl)).elim
          · rename_i heq
            obtain ⟨rfl, rfl⟩ := List.cons.inj heq
            rw [hrest]
            rfl

/-! ### Lexemes -/

theorem startsNumber_of_ahead {c : Char} {r r' : Text} (h : AheadOfDigits r r')
    (hstart : startsNumber (c :: r') = true) : startsNumber (c :: r) = true := by
  simp only [startsNumber_cons, startsUnsigned, startsFraction_cons, Bool.or_eq_true,
    Bool.and_eq_true] at hstart ⊢
  rcases hstart with (hdigit | ⟨hpoint, hdigit⟩) | ⟨hsign, hdigit | hfraction⟩
  · exact Or.inl (Or.inl hdigit)
  · exact Or.inl (Or.inr ⟨hpoint, h.1 hdigit⟩)
  · exact Or.inr ⟨hsign, Or.inl (h.1 hdigit)⟩
  · exact Or.inr ⟨hsign, Or.inr (h.2.1 hfraction)⟩

/-- The characters that start a blank, a string or a comment. -/
def isOpener (c : Char) : Bool := isSpace c || isQuote c || c == '/'

/-- The lexemes that start with another character. -/
theorem lexeme_of_not_isOpener {c : Char} (h : isOpener c = false) (rest : Text) :
    lexeme c rest =
      if startsNumber (c :: rest) then (.number, number (c :: rest))
      else if startsIdent (c :: rest) then named (c :: rest)
      else if c == '@' && startsIdent rest then (.atKeyword, (Scan.one.andThen name) (c :: rest))
      else if c == '#' && startsHashName rest then (.hash, (Scan.one.andThen name) (c :: rest))
      else (punctuation c, [c], rest) := by
  simp only [isOpener, Bool.or_eq_false_iff, beq_eq_false_iff_ne] at h
  have hcomment : startsComment (c :: rest) = false := by simp [startsComment_cons, h.2]
  unfold lexeme
  simp only [h.1.1, h.1.2, hcomment, Bool.false_eq_true, if_false]

theorem not_isOpener_of_startsNumber {c : Char} {r : Text} (h : startsNumber (c :: r) = true) :
    isOpener c = false := by
  have hfirst : c.isDigit = true ∨ c = '.' ∨ isSign c = true := by
    simp only [startsNumber_cons, startsUnsigned, startsFraction_cons, Bool.or_eq_true,
      Bool.and_eq_true, beq_iff_eq] at h
    rcases h with (hdigit | ⟨hpoint, -⟩) | ⟨hsign, -⟩
    · exact Or.inl hdigit
    · exact Or.inr (Or.inl hpoint)
    · exact Or.inr (Or.inr hsign)
  rw [Bool.eq_false_iff]
  intro hopener
  simp only [isOpener, isSpace, isQuote, Bool.or_eq_true, beq_iff_eq] at hopener
  rcases hopener with (((((rfl | rfl) | rfl) | rfl) | rfl) | rfl | rfl) | rfl <;>
    exact absurd hfirst (by decide)

theorem not_isOpener_of_startsIdent {c : Char} {r : Text} (h : startsIdent (c :: r) = true) :
    isOpener c = false := by
  have hfirst : isNameStart c = true ∨ c = '-' ∨ c = '\\' := by
    rw [startsIdent_cons] at h
    split at h
    · exact Or.inr (Or.inr ‹_›)
    · split at h
      · exact Or.inr (Or.inl ‹_›)
      · exact Or.inl h
  rw [Bool.eq_false_iff]
  intro hopener
  simp only [isOpener, isSpace, isQuote, Bool.or_eq_true, beq_iff_eq] at hopener
  rcases hopener with (((((rfl | rfl) | rfl) | rfl) | rfl) | rfl | rfl) | rfl <;>
    exact absurd hfirst (by decide)

theorem lexeme_of_isQuote {c : Char} (h : isQuote c = true) (rest : Text) :
    lexeme c rest = (.string, quoted (c :: rest)) := by
  simp only [isQuote, Bool.or_eq_true, beq_iff_eq] at h
  rcases h with rfl | rfl <;> simp [lexeme, isSpace, startsComment, isQuote]

theorem lexeme_of_startsNumber {c : Char} {rest : Text} (h : startsNumber (c :: rest) = true) :
    lexeme c rest = (.number, number (c :: rest)) := by
  rw [lexeme_of_not_isOpener (not_isOpener_of_startsNumber h), if_pos h]

theorem lexeme_of_startsIdent {c : Char} {rest : Text} (h : startsIdent (c :: rest) = true)
    (hnumber : startsNumber (c :: rest) = false) : lexeme c rest = named (c :: rest) := by
  rw [lexeme_of_not_isOpener (not_isOpener_of_startsIdent h), if_neg (by simp [hnumber]), if_pos h]

/-- Only a name makes an identifier, a function or a url. -/
theorem lexeme_eq_named {c : Char} {rest : Text}
    (h : (lexeme c rest).1 ∈ [Kind.ident, .function, .url]) :
    lexeme c rest = named (c :: rest) := by
  unfold lexeme at h ⊢
  split at h
  · simp at h
  split at h
  · simp at h
  split at h
  · simp at h
  split at h
  · simp at h
  split at h
  · simp [*]
  split at h
  · simp at h
  split at h
  · simp at h
  · unfold punctuation at h
    split at h <;> simp at h

theorem not_startsNumber_at (rest : Text) : startsNumber ('@' :: rest) = false := by
  simp [startsNumber_cons, startsUnsigned, startsFraction_cons, startsDigit, startsWith, isSign]

theorem not_startsNumber_hash (rest : Text) : startsNumber ('#' :: rest) = false := by
  simp [startsNumber_cons, startsUnsigned, startsFraction_cons, startsDigit, startsWith, isSign]

theorem lexeme_at {rest : Text} (h : startsIdent rest = true) :
    lexeme '@' rest = (.atKeyword, Prod.map ('@' :: ·) id (name rest)) := by
  have hident : startsIdent ('@' :: rest) = false := by simp [startsIdent_cons, isNameStart]
  rw [lexeme_of_not_isOpener rfl, if_neg (by simp [not_startsNumber_at]), if_neg (by simp [hident]),
    if_pos (by simp [h])]
  rfl

theorem lexeme_hash {rest : Text} (h : startsHashName rest = true) :
    lexeme '#' rest = (.hash, Prod.map ('#' :: ·) id (name rest)) := by
  have hident : startsIdent ('#' :: rest) = false := by simp [startsIdent_cons, isNameStart]
  rw [lexeme_of_not_isOpener rfl, if_neg (by simp [not_startsNumber_hash]),
    if_neg (by simp [hident]), if_neg (by simp), if_pos (by simp [h])]
  rfl

/-- The lexeme that starts with a run is a name. -/
theorem lexeme_of_isRun {w rest : Text} {c : Char} {tail : Text} (hw : IsRun w)
    (htext : w ++ rest = c :: tail) : lexeme c tail = named (c :: tail) := by
  have hident := hw.startsIdent rest
  obtain ⟨d, d', more, rfl, hd, hd'⟩ := hw.exists_cons
  obtain ⟨rfl, rfl⟩ := List.cons.inj htext
  have hpoint : d' ≠ '.' := ne_of_isRunChar hd' (by decide)
  refine lexeme_of_startsIdent hident ?_
  simp [startsNumber_cons, startsUnsigned, startsFraction_cons, startsDigit, startsWith,
    isDigit_of_isRunChar hd, isDigit_of_isRunChar hd', hpoint]

end Lexer

/-- The lexeme is what the lexer cuts off in front of the given text. -/
def Lexeme.StandsBefore (l : Lexeme) (rest : Text) : Prop :=
  ∃ c tail, l.text = c :: tail ∧ Lexer.lexeme c (tail ++ rest) = (l.kind, l.text, rest)

theorem Lexeme.standsBefore_comment_iff {x r : Text} :
    Lexeme.StandsBefore ⟨.comment, x⟩ r ↔
      ∃ body, x = '/' :: '*' :: body ∧ Scan.throughCommentEnd (body ++ r) = (body, r) := by
  constructor
  · rintro ⟨c, tail, rfl, hlexeme⟩
    have hspells := lexeme_spells c (tail ++ r)
    rw [hlexeme] at hspells
    obtain ⟨body, hbody⟩ := hspells
    obtain ⟨rfl, rfl⟩ := List.cons.inj hbody
    refine ⟨body, rfl, ?_⟩
    have hscan := congrArg Prod.snd hlexeme
    simpa [lexeme, isSpace, startsComment, Scan.andThen_apply, Scan.one, Prod.ext_iff] using hscan
  · rintro ⟨body, rfl, hscan⟩
    refine ⟨'/', '*' :: body, rfl, ?_⟩
    simp [lexeme, isSpace, startsComment, Scan.andThen_apply, Scan.one, hscan]

/-- A comment that is not the last lexeme of a text may stand before anything. -/
theorem Lexeme.StandsBefore.comment {x r r' : Text} (h : Lexeme.StandsBefore ⟨.comment, x⟩ r)
    (hmore : Lookahead.more.sees r' = true → Lookahead.more.sees r = true) :
    Lexeme.StandsBefore ⟨.comment, x⟩ r' := by
  obtain ⟨body, rfl, hscan⟩ := standsBefore_comment_iff.mp h
  exact standsBefore_comment_iff.mpr ⟨body, rfl, throughCommentEnd_of_more hmore hscan⟩

/-! ### Lexemes by what they start with

Each is cut off respelled, if what comes after it is not ahead of what came after it before.
-/

section Respelling

variable {c : Char} {y y' r r' : Text}

theorem lexeme_string_respelled (hquote : isQuote c = true) (hy : Respelled y y')
    (hmore : Lookahead.more.sees r' = true → Lookahead.more.sees r = true)
    (hline : Lookahead.line.sees r' = true → Lookahead.line.sees r = true)
    (h : quoted (c :: (y ++ r)) = (c :: y, r)) :
    lexeme c (y' ++ r') = (.string, c :: y', r') := by
  rw [quoted_cons hquote, Scan.map_cons_eq_iff] at h
  have hbody := Scan.units_respelled_all (quotedVerdict_follows hquote) hmore hline hy h
  rw [lexeme_of_isQuote hquote, quoted_cons hquote, quotedBody, hbody]
  rfl

theorem lexeme_named_respelled {kind : Kind} (hident : startsIdent (c :: (y ++ r)) = true)
    (hnumber : startsNumber (c :: (y' ++ r')) = false) (hy : Respelled y y')
    (hr : AheadOfName r r') (h : named (c :: y ++ r) = (kind, c :: y, r)) :
    lexeme c (y' ++ r') = (kind, c :: y', r') := by
  have hident' : startsIdent (c :: (y' ++ r')) = true := by
    refine startsIdent_respelled (hy.keep c) (by simp) ?_ hident r'
    intro d hd
    obtain ⟨rfl, rfl⟩ := List.cons.inj hd
    exact name_of_named_singleton hident h
  rw [lexeme_of_startsIdent hident' hnumber]
  exact named_respelled hr (hy.keep c) h

theorem lexeme_at_respelled (hident : startsIdent (y ++ r) = true) (hy : Respelled y y')
    (hr : AheadOfName r r') (h : name (y ++ r) = (y, r)) :
    lexeme '@' (y' ++ r') = (.atKeyword, '@' :: y', r') := by
  have hne : y ≠ [] := by
    rintro rfl
    cases r with
    | nil => simp [startsIdent] at hident
    | cons d r => exact absurd (congrArg Prod.fst h) (name_ne_nil hident)
  have hident' := startsIdent_respelled hy hne (by rintro d rfl; exact h) hident r'
  rw [lexeme_at hident', name_respelled hr hy h]
  rfl

theorem lexeme_hash_respelled (hstarts : startsHashName (y ++ r) = true) (hy : Respelled y y')
    (hr : AheadOfName r r') (h : name (y ++ r) = (y, r)) :
    lexeme '#' (y' ++ r') = (.hash, '#' :: y', r') := by
  have hne : y ≠ [] := by
    rintro rfl
    have hstop : Lookahead.name.sees r = false := by
      rw [name, Scan.units_eq_unitsFrom rfl] at h
      exact (Scan.unitsFrom_eq_nil_iff nameVerdict_follows false r).mp h
    exact absurd hstarts (by simpa [Lookahead.sees] using hstop)
  have hstarts' : startsHashName (y' ++ r') = true :=
    Respelled.startsWith hy hne (fun d hd => by simp [isNameChar_of_isRunChar hd]) r r' hstarts
  rw [lexeme_hash hstarts', name_respelled hr hy h]
  rfl

/-- Only an escape asks whether the line goes on. -/
theorem not_startsIdent_of_ahead (hr : AheadOfName r r')
    (hline : c = '\\' → Lookahead.line.sees r' = true → Lookahead.line.sees r = true)
    (h : ¬ startsIdent (c :: r) = true) : ¬ startsIdent (c :: r') = true := by
  rw [startsIdent_cons] at h ⊢
  split
  · rename_i hescape
    rw [if_pos hescape] at h
    exact fun hsees => h (hline hescape hsees)
  · rename_i hescape
    rw [if_neg hescape] at h
    split
    · rename_i hhyphen
      rw [if_pos hhyphen] at h
      exact fun hsees => h (hr .dash (by simp) hsees)
    · rename_i hhyphen
      rwa [if_neg hhyphen] at h

theorem lexeme_punctuation_of_ahead (hspace : ¬ isSpace c = true)
    (hcomment : ¬ startsComment (c :: r) = true) (hquote : ¬ isQuote c = true)
    (hnumber : startsNumber (c :: r') = false) (hident : ¬ startsIdent (c :: r') = true)
    (hat : ¬ (c == '@' && startsIdent r) = true) (hhash : ¬ (c == '#' && startsHashName r) = true)
    (hr : AheadOfName r r') : lexeme c r' = (punctuation c, [c], r') := by
  have hcomment' : ¬ startsComment (c :: r') = true := by
    rw [startsComment_cons, Bool.and_eq_true] at hcomment ⊢
    exact fun h => hcomment ⟨h.1, hr .star (by simp) h.2⟩
  have hat' : ¬ (c == '@' && startsIdent r') = true := by
    rw [Bool.and_eq_true] at hat ⊢
    exact fun h => hat ⟨h.1, hr .ident (by simp) h.2⟩
  have hhash' : ¬ (c == '#' && startsHashName r') = true := by
    rw [Bool.and_eq_true] at hhash ⊢
    exact fun h => hhash ⟨h.1, hr .name (by simp) h.2⟩
  unfold lexeme
  rw [if_neg hspace, if_neg hcomment', if_neg hquote, if_neg (by simp [hnumber]), if_neg hident,
    if_neg hat', if_neg hhash']

end Respelling

/-- A lexeme that starts with a run is a name, and so is the one that starts with another run. -/
theorem Lexeme.StandsBefore.respelled_run {kind : Kind} {w w' y y' r r' : Text}
    (h : Lexeme.StandsBefore ⟨kind, w ++ y⟩ r) (hw : IsRun w) (hw' : IsRun w')
    (hy : Respelled y y') (hr : AheadOfName r r') :
    Lexeme.StandsBefore ⟨kind, w' ++ y'⟩ r' := by
  obtain ⟨c, tail, hstart, hlexeme⟩ := h
  have hstart : w ++ y = c :: tail := hstart
  have hold : w ++ (y ++ r) = c :: (tail ++ r) := by
    rw [← List.append_assoc, hstart]
    rfl
  rw [lexeme_of_isRun hw hold, ← List.cons_append, ← hstart] at hlexeme
  have hnamed := named_respelled hr (.run hw hw' hy) hlexeme
  obtain ⟨d, d', more, rfl, -, -⟩ := hw'.exists_cons
  refine ⟨d, d' :: more ++ y', rfl, ?_⟩
  have hnew : d :: d' :: more ++ (y' ++ r') = d :: (d' :: more ++ y' ++ r') := by simp
  rw [lexeme_of_isRun hw' hnew]
  exact hnamed

/-- A respelled lexeme stands before a text that is not ahead of what it stood before. Only strings
and delimiters ask about line ends. -/
theorem Lexeme.StandsBefore.respelled {kind : Kind} {x x' r r' : Text}
    (h : Lexeme.StandsBefore ⟨kind, x⟩ r) (hx : Respelled x x') (hr : AheadOfName r r')
    (hline : kind = .string ∨ kind = .delim →
      Lookahead.line.sees r' = true → Lookahead.line.sees r = true)
    (hspace : kind ≠ .whitespace) (hcomment : kind = .comment → x' = x) :
    Lexeme.StandsBefore ⟨kind, x'⟩ r' := by
  have hmore := hr .more (by simp)
  by_cases hkind : kind = .comment
  · subst hkind
    rw [hcomment rfl]
    exact h.comment hmore
  cases hx with
  | nil => obtain ⟨c, tail, hnil, -⟩ := h; contradiction
  | run hw hw' hy => exact h.respelled_run hw hw' hy hr
  | @keep y y' c hy =>
      obtain ⟨d, tail, hstart, hlexeme⟩ := h
      obtain ⟨rfl, rfl⟩ := List.cons.inj hstart
      refine ⟨c, y', rfl, ?_⟩
      have hdigits : AheadOfDigits (y ++ r) (y' ++ r') :=
        Respelled.aheadOfDigits hy
          ⟨hr .digit (by simp), hr .fraction (by simp), hr .exponent (by simp)⟩
      unfold lexeme at hlexeme
      split at hlexeme
      · exact absurd (congrArg (·.1) hlexeme).symm hspace
      split at hlexeme
      · exact absurd (congrArg (·.1) hlexeme).symm hkind
      split at hlexeme
      · rename_i hquote
        obtain ⟨rfl, hscan⟩ := Prod.mk.inj hlexeme
        exact lexeme_string_respelled hquote hy hmore (hline (Or.inl rfl)) hscan
      split at hlexeme
      · rename_i hnumber
        obtain ⟨rfl, hscan⟩ := Prod.mk.inj hlexeme
        obtain ⟨hnumber', hscan'⟩ := number_respelled hr (hy.keep c) hnumber hscan
        rw [List.cons_append] at hnumber' hscan'
        rw [lexeme_of_startsNumber hnumber', hscan']
      rename_i hnotNumber
      have hnumber' : startsNumber (c :: (y' ++ r')) = false := by
        rw [Bool.eq_false_iff]
        exact fun hnumber => hnotNumber (startsNumber_of_ahead hdigits hnumber)
      split at hlexeme
      · rename_i hident
        exact lexeme_named_respelled hident hnumber' hy hr hlexeme
      split at hlexeme
      · rename_i hat
        simp only [Bool.and_eq_true, beq_iff_eq] at hat
        obtain ⟨rfl, hident⟩ := hat
        obtain ⟨rfl, hscan⟩ := Prod.mk.inj hlexeme
        exact lexeme_at_respelled hident hy hr (Scan.map_cons_eq_iff.mp hscan)
      split at hlexeme
      · rename_i hhash
        simp only [Bool.and_eq_true, beq_iff_eq] at hhash
        obtain ⟨rfl, hstarts⟩ := hhash
        obtain ⟨rfl, hscan⟩ := Prod.mk.inj hlexeme
        exact lexeme_hash_respelled hstarts hy hr (Scan.map_cons_eq_iff.mp hscan)
      rename_i hnotSpace hnotComment hnotQuote hnotIdent hnotAt hnotHash
      obtain ⟨rfl, hscan⟩ := Prod.mk.inj hlexeme
      obtain rfl : y = [] := (List.cons.inj (congrArg Prod.fst hscan)).2.symm
      obtain rfl := hy.eq_nil
      have hident' : ¬ startsIdent (c :: r') = true :=
        not_startsIdent_of_ahead hr (fun hescape => hline (Or.inr (by rw [hescape]; rfl))) hnotIdent
      exact lexeme_punctuation_of_ahead hnotSpace hnotComment hnotQuote hnumber' hident' hnotAt
        hnotHash hr

end StyleFlip
