import StyleFlip.Proofs.ThinnedSheet

/-!
# Text in front of the preface

The preface of a cleaned stylesheet comes after the leading statements. When the last of them has no
semicolon, its text and the text of the preface are read as one: the lexeme at the seam may take the
word `body`, or the whole preface. Either way the preface is then no rule any more.
-/

namespace StyleFlip

open Lexer

/-- The block of the preface. -/
def prefaceBlock (d : Direction) : Text := '{' :: ("direction:".toList ++ d.name ++ [';', '}'])

def prefaceText (d : Direction) : Text := "body".toList ++ prefaceBlock d

theorem partsText_preface (d : Direction) : (Rule.preface d).partsText = prefaceText d := by
  cases d <;> rfl

theorem isRun_body : IsRun "body".toList := by
  constructor
  · decide
  · exact List.all_eq_true.mp (by decide +kernel)

/-- A scan has gone past the word `body`. -/
def PastBody (d : Direction) (rest : Text) : Prop := rest = prefaceBlock d ∨ rest = []

/-- Appending the preface leaves a scan as it was, or the scan goes past the word `body`. -/
def Carries (d : Direction) (s : Scan) : Prop :=
  ∀ text, s (text ++ prefaceText d) = ((s text).1, (s text).2 ++ prefaceText d) ∨
    PastBody d (s (text ++ prefaceText d)).2

theorem carries_unitsFrom (d : Direction) {verdict : Char → Scan.Verdict}
    (hrun : ∀ c, isRunChar c = true → verdict c = .take)
    (hblock : PastBody d (Scan.unitsFrom verdict false (prefaceBlock d)).2) (escaped : Bool) :
    Carries d (Scan.unitsFrom verdict escaped) := by
  intro text
  induction text generalizing escaped with
  | nil =>
      right
      rw [List.nil_append, prefaceText, Scan.unitsFrom_isRun hrun isRun_body]
      exact hblock
  | cons c text ih =>
      have hgo : ∀ next, (∀ rest, Scan.unitsFrom verdict escaped (c :: rest) =
          Prod.map (c :: ·) id (Scan.unitsFrom verdict next rest)) →
          Scan.unitsFrom verdict escaped (c :: text ++ prefaceText d) =
              ((Scan.unitsFrom verdict escaped (c :: text)).1,
                (Scan.unitsFrom verdict escaped (c :: text)).2 ++ prefaceText d) ∨
            PastBody d (Scan.unitsFrom verdict escaped (c :: text ++ prefaceText d)).2 := by
        intro next hstep
        rw [List.cons_append, hstep, hstep]
        refine (ih next).imp (fun heq => ?_) id
        rw [heq]
        rfl
      by_cases hescaped : escaped = true
      · exact hgo false fun rest => by simp [Scan.unitsFrom, hescaped]
      by_cases hc : c = '\\'
      · exact hgo true fun rest => by simp [Scan.unitsFrom, hescaped, hc]
      cases hverdict : verdict c with
      | take => exact hgo false fun rest => by simp [Scan.unitsFrom, hescaped, hc, hverdict]
      | last => left; simp [Scan.unitsFrom, hescaped, hc, hverdict]
      | stop => left; simp [Scan.unitsFrom, hescaped, hc, hverdict]

theorem carries_units (d : Direction) {verdict : Char → Scan.Verdict} {look : Lookahead}
    (hv : Scan.Verdict.Follows verdict look)
    (hblock : PastBody d (Scan.unitsFrom verdict false (prefaceBlock d)).2) :
    Carries d (Scan.units verdict) := by
  intro text
  rw [Scan.units_eq_unitsFrom hv.escape, Scan.units_eq_unitsFrom hv.escape]
  exact carries_unitsFrom d hv.run hblock false text

theorem carries_name (d : Direction) : Carries d name := by
  refine carries_units d nameVerdict_follows (Or.inl ?_)
  cases d <;> rfl

theorem carries_urlTail (d : Direction) : Carries d (Scan.units urlVerdict) := by
  refine carries_units d urlVerdict_follows (Or.inr ?_)
  cases d <;> rfl

theorem carries_quotedBody (d : Direction) {quote : Char} (h : isQuote quote = true) :
    Carries d (quotedBody quote) := by
  refine carries_units d (quotedVerdict_follows h) (Or.inr ?_)
  simp only [isQuote, Bool.or_eq_true, beq_iff_eq] at h
  rcases h with rfl | rfl <;> cases d <;> rfl

/-- Appending the preface leaves the scan as it was. -/
def Passes (d : Direction) (s : Scan) : Prop :=
  ∀ text, s (text ++ prefaceText d) = ((s text).1, (s text).2 ++ prefaceText d)

theorem Passes.andThen_carries {d : Direction} {s t : Scan} (hs : Passes d s) (ht : Carries d t) :
    Carries d (s.andThen t) := by
  intro text
  simp only [Scan.andThen_apply, hs text]
  refine (ht (s text).2).imp (fun heq => ?_) id
  rw [heq]

theorem Carries.andThen {d : Direction} {s t : Scan} (hs : Carries d s) (ht : Carries d t)
    (hpast : ∀ rest, PastBody d rest → PastBody d (t rest).2) : Carries d (s.andThen t) := by
  intro text
  simp only [Scan.andThen_apply]
  rcases hs text with heq | hend
  · rw [heq]
    refine (ht (s text).2).imp (fun heq => ?_) id
    rw [heq]
  · exact Or.inr (hpast _ hend)

theorem startsWith_append_preface {p : Char → Bool} (hb : p 'b' = false) (d : Direction)
    (text : Text) : startsWith p (text ++ prefaceText d) = startsWith p text := by
  cases text with
  | nil => exact hb
  | cons c text => rfl

theorem passes_many {p : Char → Bool} (hb : p 'b' = false) (d : Direction) :
    Passes d (Scan.many p) := by
  intro text
  obtain ⟨hall, hstop⟩ := of_many_eq (show Scan.many p text = (_, _) from rfl)
  have hsplit := Scan.many_lossless p text
  calc Scan.many p (text ++ prefaceText d)
      = Scan.many p ((Scan.many p text).1 ++ ((Scan.many p text).2 ++ prefaceText d)) := by
        rw [← List.append_assoc, hsplit]
    _ = ((Scan.many p text).1, (Scan.many p text).2 ++ prefaceText d) :=
        many_append hall (by rw [startsWith_append_preface hb]; exact hstop)

theorem startsFraction_append_preface (d : Direction) (text : Text) :
    startsFraction (text ++ prefaceText d) = startsFraction text := by
  cases text with
  | nil => rfl
  | cons c text =>
      rw [List.cons_append, startsFraction_cons, startsFraction_cons, startsDigit,
        startsWith_append_preface (by decide)]

theorem startsExponent_append_preface (d : Direction) (text : Text) :
    startsExponent (text ++ prefaceText d) = startsExponent text := by
  cases text with
  | nil => rfl
  | cons c text =>
      rw [List.cons_append, startsExponent, startsExponent, startsDigit,
        startsWith_append_preface (by decide)]

theorem passes_markedDigits {test : Text → Bool} {mark : Char → Bool} (ht : MarkedDigits test mark)
    (d : Direction) (htest : ∀ text, test (text ++ prefaceText d) = test text) :
    Passes d (markedDigits test) := by
  intro text
  unfold markedDigits Scan.when
  rw [htest]
  split
  · cases text with
    | nil => simp_all [ht.nil]
    | cons c text =>
        have hmany := passes_many (p := Char.isDigit) (by decide) d text
        simp [Scan.andThen_apply, Scan.one, hmany]
  · rfl

theorem startsUnsigned_append_preface (d : Direction) (text : Text) :
    startsUnsigned (text ++ prefaceText d) = startsUnsigned text := by
  rw [startsUnsigned, startsUnsigned, startsDigit, startsWith_append_preface (by decide),
    startsFraction_append_preface]

theorem startsNumber_append_preface (d : Direction) (c : Char) (text : Text) :
    startsNumber (c :: (text ++ prefaceText d)) = startsNumber (c :: text) := by
  rw [startsNumber_cons, startsNumber_cons, startsUnsigned_append_preface, ← List.cons_append,
    startsUnsigned_append_preface]

/-- The preface makes a name of what comes before it only if that is a single character. -/
theorem startsIdent_append_preface (d : Direction) (text : Text) :
    startsIdent (text ++ prefaceText d) = startsIdent text ∨
      text = [] ∨ text = ['-'] ∨ text = ['\\'] := by
  match text with
  | [] => exact Or.inr (Or.inl rfl)
  | [c] =>
      by_cases hhyphen : c = '-'
      · exact Or.inr (Or.inr (Or.inl (by rw [hhyphen])))
      by_cases hescape : c = '\\'
      · exact Or.inr (Or.inr (Or.inr (by rw [hescape])))
      · left
        rw [List.cons_append, startsIdent_cons, startsIdent_cons, if_neg hescape, if_neg hhyphen,
          if_neg hescape, if_neg hhyphen]
  | c :: c' :: text =>
      left
      rw [List.cons_append, startsIdent_cons, startsIdent_cons]
      rfl

theorem pastBody_name {d : Direction} {text : Text}
    (h : text = [] ∨ text = ['-'] ∨ text = ['\\']) :
    PastBody d (name (text ++ prefaceText d)).2 := by
  left
  rcases h with rfl | rfl | rfl <;> cases d <;> rfl

theorem carries_unit (d : Direction) : Carries d unit := by
  intro text
  unfold unit
  rw [startsWith_append_preface (by decide)]
  split
  · cases text with
    | nil => contradiction
    | cons c text => left; rfl
  · unfold Scan.when
    rcases startsIdent_append_preface d text with hsame | hshort
    · rw [hsame]
      split
      · exact carries_name d text
      · left; rfl
    · split
      · exact Or.inr (pastBody_name hshort)
      · rename_i hident
        rcases hshort with rfl | rfl | rfl <;> cases d <;> exact absurd rfl hident

theorem carries_number (d : Direction) : Carries d number := by
  have hsign : Passes d (Scan.one.when (startsWith isSign)) := by
    intro text
    unfold Scan.when
    rw [startsWith_append_preface (by decide)]
    cases text with
    | nil => rfl
    | cons c text => split <;> rfl
  exact hsign.andThen_carries <| (passes_many (by decide) d).andThen_carries <|
    (passes_markedDigits markedDigits_fraction d (startsFraction_append_preface d)).andThen_carries <|
      (passes_markedDigits markedDigits_exponent d
        (startsExponent_append_preface d)).andThen_carries (carries_unit d)

theorem carries_quoted (d : Direction) : Carries d quoted := by
  intro text
  cases text with
  | nil => left; rfl
  | cons c text =>
      by_cases hquote : isQuote c = true
      · rw [List.cons_append, quoted_cons hquote, quoted_cons hquote]
        refine (carries_quotedBody d hquote text).imp (fun heq => ?_) id
        rw [heq]
        rfl
      · left
        rw [quoted_of_not_isQuote (by simpa [startsWith] using hquote),
          quoted_of_not_isQuote (by simpa [startsWith] using hquote)]

theorem carries_urlBody (d : Direction) : Carries d urlBody := by
  refine Carries.andThen ((passes_many (by decide) d).andThen_carries (carries_quoted d))
    (carries_urlTail d) ?_
  rintro rest (rfl | rfl)
  · right
    cases d <;> rfl
  · exact Or.inr rfl

theorem carries_throughCommentEnd (d : Direction) : Carries d Scan.throughCommentEnd := by
  intro text
  fun_induction Scan.throughCommentEnd text with
  | case1 =>
      right; right
      cases d <;> rfl
  | case2 rest => left; rfl
  | case3 c rest hend ih =>
      have hstep : Scan.throughCommentEnd (c :: rest ++ prefaceText d) =
          Prod.map (c :: ·) id (Scan.throughCommentEnd (rest ++ prefaceText d)) := by
        rw [List.cons_append]
        conv => lhs; unfold Scan.throughCommentEnd
        split
        · contradiction
        · rename_i tail heq
          obtain ⟨hc, htail⟩ := List.cons.inj heq
          cases rest with
          | nil => exact absurd (List.cons.inj htail).1 (by decide)
          | cons e rest => exact (hend rest hc (by rw [(List.cons.inj htail).1])).elim
        · rename_i heq
          obtain ⟨rfl, rfl⟩ := List.cons.inj heq
          rfl
      rw [hstep]
      refine ih.imp (fun heq => ?_) id
      rw [heq]
      rfl

/-- A kind of token that neither ends a prelude nor changes its depth. -/
def Kind.IsNeutral (kind : Kind) : Prop :=
  ∀ depth, endsPrelude depth kind = false ∧ kind.nest depth = depth

theorem Kind.isNeutral_of {kind : Kind} (hsign : kind.sign? = none) (hfunction : kind ≠ .function) :
    kind.IsNeutral := by
  intro depth
  cases kind <;> simp_all [Kind.sign?, endsPrelude, Kind.nest]

/-- Appending the preface leaves the first lexeme as it was, or the lexeme goes past the word
`body`. -/
def CarriesLexeme (d : Direction) (old new : Kind × Text × Text) : Prop :=
  new = (old.1, old.2.1, old.2.2 ++ prefaceText d) ∨ (new.1.IsNeutral ∧ PastBody d new.2.2)

theorem Carries.lexeme {d : Direction} {s : Scan} (hs : Carries d s) {kind : Kind}
    (hkind : kind.IsNeutral) (text : Text) :
    CarriesLexeme d (kind, s text) (kind, s (text ++ prefaceText d)) := by
  refine (hs text).imp (fun heq => ?_) fun hpast => ⟨hkind, hpast⟩
  rw [heq]

theorem carries_named (d : Direction) (text : Text) :
    CarriesLexeme d (named text) (named (text ++ prefaceText d)) := by
  have hident : Kind.ident.IsNeutral := Kind.isNeutral_of rfl (by simp)
  have hurl : Kind.url.IsNeutral := Kind.isNeutral_of rfl (by simp)
  unfold named
  rcases carries_name d text with heq | hpast
  · rw [heq]
    rcases hname : name text with ⟨taken, rest⟩
    cases rest with
    | nil =>
        left
        cases d <;> rfl
    | cons c rest =>
        by_cases hparen : c = '('
        · subst hparen
          simp only [List.cons_append]
          split
          · refine (carries_urlBody d rest).imp (fun heq => ?_) fun hpast => ⟨hurl, hpast⟩
            rw [heq]
            rfl
          · left; rfl
        · left
          simp only [List.cons_append]
          split
          · rename_i heq'
            exact absurd (List.cons.inj (Prod.mk.inj heq').2).1 hparen
          · rename_i heq'
            obtain ⟨rfl, rfl⟩ := Prod.mk.inj heq'
            split
            · rename_i heq''
              exact absurd (List.cons.inj (Prod.mk.inj heq'').2).1 hparen
            · rename_i heq''
              obtain ⟨rfl, rfl⟩ := Prod.mk.inj heq''
              rfl
  · right
    split
    · rename_i taken rest heq
      rw [heq] at hpast
      rcases hpast with hblock | hnil
      · cases d <;> exact absurd (List.cons.inj hblock).1 (by decide)
      · contradiction
    · rename_i heq
      rw [heq] at hpast
      exact ⟨hident, hpast⟩

theorem startsComment_append_preface (d : Direction) (c : Char) (text : Text) :
    startsComment (c :: (text ++ prefaceText d)) = startsComment (c :: text) := by
  rw [startsComment_cons, startsComment_cons, Lookahead.sees,
    startsWith_append_preface (by decide)]

theorem carries_markedName (d : Direction) (c : Char) {kind : Kind} (hkind : kind.IsNeutral)
    (text : Text) :
    CarriesLexeme d (kind, Prod.map (c :: ·) id (name text))
      (kind, Prod.map (c :: ·) id (name (text ++ prefaceText d))) := by
  refine (carries_name d text).imp (fun heq => ?_) fun hpast => ⟨hkind, hpast⟩
  rw [heq]
  rfl

theorem carries_lexeme_at (d : Direction) (text : Text) :
    CarriesLexeme d (lexeme '@' text) (lexeme '@' (text ++ prefaceText d)) := by
  have hneutral : Kind.atKeyword.IsNeutral := Kind.isNeutral_of rfl (by simp)
  have halone : ∀ rest, startsIdent rest = false → lexeme '@' rest = (punctuation '@', ['@'], rest) := by
    intro rest hident
    rw [lexeme_of_not_isOpener rfl]
    simp [not_startsNumber_at, startsIdent_cons, isNameStart, hident]
  rcases startsIdent_append_preface d text with hsame | hshort
  · cases hident : startsIdent text with
    | true =>
        rw [lexeme_at hident, lexeme_at (hsame.trans hident)]
        exact carries_markedName d '@' hneutral text
    | false =>
        left
        rw [halone _ hident, halone _ (hsame.trans hident)]
  · right
    have hstarts : startsIdent (text ++ prefaceText d) = true := by
      rcases hshort with rfl | rfl | rfl <;> cases d <;> rfl
    rw [lexeme_at hstarts]
    exact ⟨hneutral, pastBody_name hshort⟩

theorem carries_lexeme_hash (d : Direction) (text : Text) :
    CarriesLexeme d (lexeme '#' text) (lexeme '#' (text ++ prefaceText d)) := by
  have hneutral : Kind.hash.IsNeutral := Kind.isNeutral_of rfl (by simp)
  have halone : ∀ rest, startsHashName rest = false →
      lexeme '#' rest = (punctuation '#', ['#'], rest) := by
    intro rest hstarts
    rw [lexeme_of_not_isOpener rfl]
    simp [not_startsNumber_hash, startsIdent_cons, isNameStart, hstarts]
  cases text with
  | nil =>
      right
      have hstarts : startsHashName (prefaceText d) = true := rfl
      rw [List.nil_append, lexeme_hash hstarts]
      exact ⟨hneutral, pastBody_name (Or.inl rfl)⟩
  | cons c text =>
      have hsame : startsHashName (c :: text ++ prefaceText d) = startsHashName (c :: text) := rfl
      cases hstarts : startsHashName (c :: text) with
      | true =>
          rw [lexeme_hash hstarts, lexeme_hash (hsame.trans hstarts)]
          exact carries_markedName d '#' hneutral (c :: text)
      | false =>
          left
          rw [halone _ hstarts, halone _ (hsame.trans hstarts)]

theorem carries_lexeme (d : Direction) (c : Char) (text : Text) :
    CarriesLexeme d (lexeme c text) (lexeme c (text ++ prefaceText d)) := by
  by_cases hat : c = '@'
  · rw [hat]
    exact carries_lexeme_at d text
  by_cases hhash : c = '#'
  · rw [hhash]
    exact carries_lexeme_hash d text
  have hneutral := @Kind.isNeutral_of
  unfold lexeme
  rw [startsComment_append_preface, startsNumber_append_preface]
  split
  · left
    have hmany := passes_many (p := isSpace) (by decide) d (c :: text)
    rw [List.cons_append] at hmany
    rw [hmany]
  split
  · rename_i hcomment
    cases text with
    | nil => simp [startsComment] at hcomment
    | cons c' text =>
        refine (carries_throughCommentEnd d text).imp (fun heq => ?_) fun hpast =>
          ⟨hneutral rfl (by simp), hpast⟩
        simp [Scan.andThen_apply, Scan.one, heq]
  split
  · exact (carries_quoted d).lexeme (hneutral rfl (by simp)) (c :: text)
  split
  · exact (carries_number d).lexeme (hneutral rfl (by simp)) (c :: text)
  -- What starts a name only because of the preface goes past the word `body`.
  rcases startsIdent_append_preface d (c :: text) with hident | hnil | hhyphen | hescape
  · rw [List.cons_append] at hident
    rw [hident]
    split
    · exact carries_named d (c :: text)
    · left
      simp [hat, hhash]
  · contradiction
  · obtain ⟨rfl, rfl⟩ := List.cons.inj hhyphen
    right
    cases d <;> exact ⟨@hneutral .ident rfl (by simp), Or.inl rfl⟩
  · obtain ⟨rfl, rfl⟩ := List.cons.inj hescape
    right
    cases d <;> exact ⟨@hneutral .ident rfl (by simp), Or.inl rfl⟩

/-! ### The tokens of the preface -/

def Token.word (text : Text) : Token := ⟨⟨.ident, text⟩, .unknown⟩

def Token.sign (kind : Kind) (c : Char) : Token := ⟨⟨kind, [c]⟩, .unknown⟩

/-- The tokens of the declaration in the preface. -/
def prefaceBody (d : Direction) : List Token :=
  [.word "direction".toList, .sign .colon ':', .word d.name, .sign .semicolon ';']

/-- The preface as an entry of an outline. -/
def Outline.preface (d : Direction) : Outline :=
  .rule [.word "body".toList] (.sign .openBrace '{') (prefaceBody d) (.sign .closeBrace '}')

theorem stand_preface (d : Direction) (r : Text) : Stand (Outline.preface d).tokens r := by
  have hend : Stand (Outline.preface d).tokens [] := by
    cases d <;>
      exact ⟨⟨_, _, rfl, rfl⟩, ⟨_, _, rfl, rfl⟩, ⟨_, _, rfl, rfl⟩, ⟨_, _, rfl, rfl⟩, ⟨_, _, rfl, rfl⟩,
        ⟨_, _, rfl, rfl⟩, ⟨_, _, rfl, rfl⟩, trivial⟩
  exact @Stand.of_last (.word "body".toList :: .sign .openBrace '{' :: prefaceBody d) _ _ hend
    (Or.inl (by simp [Token.sign, Kind.sign?])) r

theorem Outline.proper_preface (d : Direction) (rest : List Token) :
    (Outline.preface d).Proper rest := by
  have hblock : RuleBlock [.word "body".toList] (.sign .openBrace '{') (prefaceBody d)
      (.sign .closeBrace '}') :=
    ⟨⟨_, _, rfl, rfl⟩, rfl, rfl, rfl, rfl⟩
  exact hblock

theorem Body.read_prefaceBody (d : Direction) :
    Body.read (prefaceBody d) = [.declaration (.simple "direction".toList d.name)] := by
  have hsegments : segments (prefaceBody d) =
      [.content [.word "direction".toList, .sign .colon ':', .word d.name]
        (some (.sign .semicolon ';'))] := by
    rw [prefaceBody, segments]
    show _ :: segments [] = _
    rw [segments]
    rfl
  have hvalue : Value.read [.word d.name] = [.leaf .ident d.name] := by
    rw [Value.read, Value.read]
    rfl
  rw [Body.read, hsegments, List.map_singleton, BodyItem.ofSegment]
  simp [Segment.declaration?, Declaration.read?, Token.word, Token.sign, Token.isTrivia] at hvalue ⊢
  rw [hvalue]
  rfl

/-- The preface is read back as the rule it was printed from. -/
theorem Item.unplaced_ofOutline_preface (d : Direction) :
    (Item.ofOutline (.preface d)).unplaced = .rule (.preface d) := by
  have hselector : Selector.read [.word "body".toList] = [.element "body".toList] := by
    simp [Selector.read, selectorPart, Token.word]
  rw [Outline.preface, Item.ofOutline, Item.unplaced, Rule.unplaced, Rule.read,
    Body.read_prefaceBody, hselector]
  rfl

/-- The tokens of a text, without their places. -/
def bareTokens (text : Text) : List Token := (lexemes text).map fun l => ⟨l, .unknown⟩

theorem bareTokens_nil : bareTokens [] = [] := by simp [bareTokens, lexemes]

theorem bareTokens_of_lexeme {c : Char} {rest text after : Text} {kind : Kind}
    (h : lexeme c rest = (kind, text, after)) :
    bareTokens (c :: rest) = ⟨⟨kind, text⟩, .unknown⟩ :: bareTokens after := by
  rw [bareTokens, lexemes]
  simp [h, bareTokens]

theorem bareTokens_of_stand {ts : List Token} {r : Text} (h : Stand ts r) :
    bareTokens (textOf ts ++ r) = bareAll ts ++ bareTokens r := by
  rw [bareTokens, lexemes_of_stand h]
  simp [bareTokens, bareAll, Token.bare]

theorem Stand.bareAll {ts : List Token} {r : Text} (h : Stand ts r) : Stand (bareAll ts) r := by
  induction ts with
  | nil => trivial
  | cons t ts ih =>
      have htail := textOf_bareAll ts
      refine ⟨?_, ih h.2⟩
      rw [show (ts.map Token.bare) = StyleFlip.bareAll ts from rfl, htail]
      exact h.1

theorem stand_bareTokens (text : Text) : Stand (bareTokens text) [] := by
  have hlexemes : (tokenize text).map (·.toLexeme) = lexemes text := map_toLexeme_place _ _
  have hbare : bareTokens text = bareAll (tokenize text) := by
    rw [bareTokens, ← hlexemes]
    simp [bareAll, Token.bare]
  rw [hbare]
  exact (stand_tokenize text).bareAll

theorem textOf_bareTokens (text : Text) : textOf (bareTokens text) = text := by
  have hlossless := flatMap_text_lexemes text
  rw [textOf, bareTokens, List.flatMap_map]
  exact hlossless

theorem bareTokens_prefaceText (d : Direction) :
    bareTokens (prefaceText d) = .word "body".toList :: bareTokens (prefaceBlock d) := by
  have hbody : Stand [.word "body".toList] (prefaceBlock d) := by
    cases d <;> exact ⟨⟨_, _, rfl, rfl⟩, trivial⟩
  exact bareTokens_of_stand hbody

theorem bareTokens_prefaceBlock (d : Direction) :
    bareTokens (prefaceBlock d) = .sign .openBrace '{' :: (prefaceBody d ++ [.sign .closeBrace '}']) := by
  have hstand : Stand (.sign .openBrace '{' :: (prefaceBody d ++ [.sign .closeBrace '}'])) [] :=
    (stand_preface d []).2
  have htokens := bareTokens_of_stand hstand
  rw [bareTokens_nil] at htokens
  cases d <;> exact htokens

/-! ### A prelude in front of the preface -/

theorem Kind.IsNeutral.preludeDepth {t : Token} (h : t.kind.IsNeutral) (depth : Nat) :
    preludeDepth depth [t] = some depth := by
  simp [StyleFlip.preludeDepth, h depth]

theorem PastBody.bareTokens {d : Direction} {rest : Text} (h : PastBody d rest) :
    bareTokens rest = [] ∨ bareTokens rest = bareTokens (prefaceBlock d) := by
  rcases h with rfl | rfl
  · exact Or.inr rfl
  · exact Or.inl bareTokens_nil

/-- A prelude with the preface after it is a prelude still, with the block of the preface after it or
with nothing. -/
theorem exists_prelude_append_preface (d : Direction) {ts : List Token} {depth : Nat}
    (hstand : Stand ts []) (hdepth : (preludeDepth depth ts).isSome = true) :
    ∃ front rest, bareTokens (textOf ts ++ prefaceText d) = front ++ rest ∧
      (preludeDepth depth front).isSome = true ∧ (rest = [] ∨ rest = bareTokens (prefaceBlock d)) := by
  induction ts generalizing depth with
  | nil =>
      have hword : (Token.word "body".toList).kind.IsNeutral := Kind.isNeutral_of rfl (by simp [Token.word])
      exact ⟨[.word "body".toList], _, bareTokens_prefaceText d, by rw [hword.preludeDepth]; rfl,
        Or.inr rfl⟩
  | cons t ts ih =>
      obtain ⟨⟨c, tail, htext, hlexeme⟩, hstand⟩ := hstand
      rw [preludeDepth] at hdepth
      split at hdepth
      · contradiction
      rename_i hgoes
      have hcarries := carries_lexeme d c (tail ++ textOf ts)
      rw [List.append_nil] at hlexeme
      rw [hlexeme, List.append_assoc] at hcarries
      have hwhole : textOf (t :: ts) ++ prefaceText d = c :: (tail ++ (textOf ts ++ prefaceText d)) := by
        simp [show t.text = c :: tail from htext]
      rw [hwhole]
      rcases hcarries with hsame | ⟨hneutral, hpast⟩
      · obtain ⟨front, rest, hfront, hdepthFront, hrest⟩ := ih hstand hdepth
        refine ⟨t.bare :: front, rest, ?_, ?_, hrest⟩
        · rw [bareTokens_of_lexeme hsame, hfront]
          rfl
        · rw [preludeDepth, Token.kind_bare, if_neg hgoes]
          exact hdepthFront
      · rcases hnew : lexeme c (tail ++ (textOf ts ++ prefaceText d)) with ⟨kind, text, after⟩
        rw [hnew] at hneutral hpast
        refine ⟨[⟨⟨kind, text⟩, .unknown⟩], bareTokens after, bareTokens_of_lexeme hnew, ?_,
          hpast.bareTokens⟩
        rw [Kind.IsNeutral.preludeDepth hneutral]
        rfl

/-- What follows the at sign of an at-keyword is a name. -/
theorem Lexeme.StandsBefore.exists_at {l : Lexeme} {r : Text} (h : l.StandsBefore r)
    (hkind : l.kind = .atKeyword) :
    ∃ tail, l.text = '@' :: tail ∧ startsIdent (tail ++ r) = true ∧
      lexeme '@' (tail ++ r) = (l.kind, l.text, r) := by
  have hspelled := h.spelled
  rw [Lexeme.Spelled, hkind] at hspelled
  obtain ⟨c, name, hname⟩ := hspelled
  obtain ⟨c', tail, htext, hlexeme⟩ := h
  obtain ⟨rfl, rfl⟩ := List.cons.inj (htext.symm.trans hname)
  refine ⟨c :: name, htext, ?_, by rw [hlexeme, htext]⟩
  by_cases hident : startsIdent (c :: name ++ r) = true
  · exact hident
  · have hsign : (lexeme '@' (c :: name ++ r)).1 = .delim := by
      rw [lexeme_of_not_isOpener (by decide), if_neg (by simp [not_startsNumber_at]),
        if_neg (by simp [startsIdent_cons '@', isNameStart]), if_neg (by simpa using hident),
        if_neg (by simp)]
      rfl
    rw [hlexeme, hkind] at hsign
    contradiction

theorem lexeme_at_append_preface (d : Direction) {text : Text} (h : startsIdent text = true) :
    (lexeme '@' (text ++ prefaceText d)).1 = .atKeyword := by
  have hstarts : startsIdent (text ++ prefaceText d) = true := by
    rcases startsIdent_append_preface d text with hsame | rfl | rfl | rfl
    · rw [hsame, h]
    all_goals contradiction
  rw [lexeme_at hstarts]

/-- An at-rule without its semicolon and the preface after it are read as an at-rule, with the block
of the preface or with none. -/
theorem exists_atRule_append_preface (d : Direction) {keyword : Token} {params : List Token}
    (hkind : keyword.kind = .atKeyword) (hstand : Stand (keyword :: params) [])
    (hdepth : (preludeDepth 0 params).isSome = true) :
    ∃ keyword' params' rest,
      bareTokens (textOf (keyword :: params) ++ prefaceText d) = keyword' :: (params' ++ rest) ∧
      keyword'.kind = .atKeyword ∧ (preludeDepth 0 params').isSome = true ∧
      (rest = [] ∨ rest = bareTokens (prefaceBlock d)) := by
  obtain ⟨hstands, hstand⟩ := hstand
  rw [List.append_nil] at hstands
  obtain ⟨tail, htext, hident, hlexeme⟩ := hstands.exists_at hkind
  have hwhole : textOf (keyword :: params) ++ prefaceText d =
      '@' :: (tail ++ textOf params ++ prefaceText d) := by
    simp [show keyword.text = '@' :: tail from htext]
  have hcarries := carries_lexeme d '@' (tail ++ textOf params)
  have hatKeyword := lexeme_at_append_preface d hident
  rw [hlexeme] at hcarries
  rw [hwhole]
  rcases hcarries with hsame | ⟨-, hpast⟩
  · obtain ⟨front, rest, hfront, hdepthFront, hrest⟩ :=
      exists_prelude_append_preface d hstand hdepth
    refine ⟨keyword.bare, front, rest, ?_, hkind, hdepthFront, hrest⟩
    rw [bareTokens_of_lexeme hsame, hfront]
    rfl
  · rcases hnew : lexeme '@' (tail ++ textOf params ++ prefaceText d) with ⟨kind, text, after⟩
    rw [hnew] at hatKeyword hpast
    exact ⟨⟨⟨kind, text⟩, .unknown⟩, [], bareTokens after, bareTokens_of_lexeme hnew, hatKeyword, rfl,
      hpast.bareTokens⟩

end StyleFlip
