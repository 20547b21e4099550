import StyleFlip.Proofs.MirroredRule
import StyleFlip.Proofs.MovedTokens

/-!
# Flipped rule bodies are read back

Flipping a declaration respells its property, and respells and moves the tokens of its value. If the
components of the value can be moved, the new tokens are read as the flipped declaration. A body is
read back from the tokens of its declarations, which a semicolon or the end of the body keeps apart.
-/

namespace StyleFlip

open Lexer

/-! ### The tokens of a declaration -/

namespace Declaration

/-- What stands in front of the value of a declaration. -/
structure Opening (property : Token) (gap : List Token) (colon : Token) (blanks : List Token) :
    Prop where
  property : property.kind = .ident
  gap : ∀ t ∈ gap, t.isTrivia = true
  colon : colon.kind = .colon
  blanks : ∀ t ∈ blanks, t.kind = .whitespace

theorem exists_opening {ts : List Token} {semicolon : Bool} {d : Declaration}
    (h : read? ts semicolon = some d) :
    ∃ property gap colon blanks value, ts = property :: (gap ++ colon :: (blanks ++ value)) ∧
      Opening property gap colon blanks ∧ (∀ t more, value = t :: more → t.kind ≠ .whitespace) := by
  cases ts with
  | nil => contradiction
  | cons property rest =>
      rw [read?] at h
      split at h
      · rename_i hproperty
        split at h
        · contradiction
        · rename_i colon after hdrop
          split at h
          · rename_i hcolon
            refine ⟨property, rest.takeWhile (·.isTrivia), colon,
              after.takeWhile (·.kind == .whitespace), after.dropWhile (·.kind == .whitespace), ?_,
              ⟨hproperty, ?_, hcolon, ?_⟩, ?_⟩
            · rw [List.takeWhile_append_dropWhile, ← hdrop, List.takeWhile_append_dropWhile]
            · exact List.all_eq_true.mp List.all_takeWhile
            · exact fun t ht => by simpa using List.all_eq_true.mp List.all_takeWhile t ht
            · intro t more hvalue
              have hstop := List.head?_dropWhile_not (·.kind == .whitespace) after
              rw [hvalue] at hstop
              simpa using hstop
          · contradiction
      · contradiction

theorem read?_eq {property colon : Token} {gap blanks value : List Token}
    (h : Opening property gap colon blanks)
    (hvalue : ∀ t more, value = t :: more → t.kind ≠ .whitespace) (semicolon : Bool) :
    read? (property :: (gap ++ colon :: (blanks ++ value))) semicolon =
      some
        { property := property.text
          colon := textOf (gap ++ colon :: blanks)
          value := Value.read value
          semicolon := semicolon
          span := spanOf (property :: (gap ++ colon :: (blanks ++ value))) } := by
  have hnotTrivia : colon.isTrivia = false := by simp [Token.isTrivia, h.colon]
  have hblanks : ∀ t ∈ blanks, (t.kind == .whitespace) = true := by simpa using h.blanks
  have hdrop : value.dropWhile (·.kind == .whitespace) = value := by
    cases value with
    | nil => rfl
    | cons t more => exact List.dropWhile_cons_of_neg (by simpa using hvalue t more rfl)
  have htake : value.takeWhile (·.kind == .whitespace) = [] := by
    cases value with
    | nil => rfl
    | cons t more => exact List.takeWhile_cons_of_neg (by simpa using hvalue t more rfl)
  rw [read?, if_pos h.property, List.dropWhile_append_of_pos h.gap,
    List.takeWhile_append_of_pos h.gap, List.dropWhile_cons_of_neg (by simp [hnotTrivia]),
    List.takeWhile_cons_of_neg (by simp [hnotTrivia])]
  dsimp only
  rw [if_pos h.colon, List.dropWhile_append_of_pos hblanks, List.takeWhile_append_of_pos hblanks,
    hdrop, htake, List.append_nil, List.append_nil]

/-- Flipping a value exchanges its tokens. -/
theorem exists_exchange (options : FlipOptions) {d : Declaration} {ts : List Token} {r : Text}
    (hvalue : d.value = Value.read ts) (h : d.canMove = true) (hstand : Stand ts r)
    (hr : startsWith isInert r = true) (hbraces : NoBraces ts) :
    ∃ ts', Exchange r ts ts' ∧
      Value.read ts' = flipLeaves options d.property (moveSlots d.property d.value) := by
  have hsame : Exchange r ts ts := (Refit.refl hstand hr hbraces).toExchange
  have hmoved : ∃ us, Exchange r ts us ∧ Value.read us = moveSlots d.property d.value := by
    unfold moveSlots
    rw [canMove] at h
    cases hshorthand : Shorthand.ofProperty? d.property with
    | none => exact ⟨ts, hsame, hvalue.symm⟩
    | some shorthand =>
        rw [hshorthand, Bool.or_eq_true, decide_eq_true_eq] at h
        rcases h with hfixed | hmove
        · exact ⟨ts, hsame, hvalue.symm.trans hfixed.symm⟩
        · rw [hvalue] at hmove
          obtain ⟨us, hrefit, hread⟩ := Shorthand.exists_refit hstand hr hbraces hmove
          exact ⟨us, hrefit.toExchange, by rw [hread, hvalue]⟩
  obtain ⟨us, hus, hread⟩ := hmoved
  have hworded : ∃ vs, RespelledAll us vs ∧ Value.read vs =
      if hasSideKeywords d.property then Value.flipKeywords (Value.read us) else Value.read us := by
    split
    · exact Value.exists_respelledAll _ Value.respelled_keyword (by simp) us
    · exact ⟨us, .refl us, rfl⟩
  obtain ⟨vs, hvs, hreadWords⟩ := hworded
  have hurls : ∃ ws, RespelledAll vs ws ∧ Value.read ws =
      if options.flipUrls then Value.flipUrls (Value.read vs) else Value.read vs := by
    split
    · exact Value.exists_respelledAll _ Value.respelled_url (by simp) vs
    · exact ⟨vs, .refl vs, rfl⟩
  obtain ⟨ws, hws, hreadUrls⟩ := hurls
  refine ⟨ws, (hus.respelled hvs).respelled hws, ?_⟩
  rw [hreadUrls, hreadWords, hread, flipLeaves]

end Declaration

/-- A run of blanks stands before any text that no blank can go on with. -/
theorem Stand.blanks {blanks : List Token} {x x' : Text} (h : Stand blanks x)
    (hblanks : ∀ t ∈ blanks, t.kind = .whitespace)
    (hspace : startsWith isSpace x' = true → startsWith isSpace x = true) : Stand blanks x' := by
  induction blanks with
  | nil => trivial
  | cons t blanks ih =>
      have htail := ih h.2 fun u hu => hblanks u (by simp [hu])
      refine ⟨?_, htail⟩
      have hafter : startsWith isSpace (textOf blanks ++ x') = true →
          startsWith isSpace (textOf blanks ++ x) = true := by
        cases blanks with
        | nil => exact hspace
        | cons u blanks =>
            rw [startsWith_of_standsBefore h.2.1, startsWith_of_standsBefore h.2.1]
            exact id
      have hkind := hblanks t (by simp)
      obtain ⟨⟨kind, text⟩, span⟩ := t
      subst hkind
      obtain ⟨hne, hall, hstop⟩ := Lexeme.standsBefore_whitespace_iff.mp h.1
      refine Lexeme.standsBefore_whitespace_iff.mpr ⟨hne, hall, ?_⟩
      rw [Bool.eq_false_iff] at hstop ⊢
      exact fun hstarts => hstop (hafter hstarts)

/-- New tokens do not start with a blank where the old ones did not. -/
theorem Exchange.kind_ne_whitespace {ts ts' : List Token} {r : Text} (h : Exchange r ts ts')
    (hstand : Stand ts r) (hspace : startsWith isSpace r = false)
    (hfirst : ∀ t more, ts = t :: more → t.kind ≠ .whitespace) :
    ∀ t more, ts' = t :: more → t.kind ≠ .whitespace := by
  have hold : startsWith isSpace (textOf ts ++ r) = false := by
    cases ts with
    | nil => exact hspace
    | cons t ts =>
        rw [startsWith_of_standsBefore hstand.1]
        exact hstand.1.not_startsWith_isSpace (hfirst t ts rfl)
  rintro t more rfl hkind
  have hspelled := h.stand.1.spelled
  rw [Lexeme.Spelled, hkind] at hspelled
  obtain ⟨c, tail, htext⟩ := List.exists_cons_of_ne_nil hspelled.1
  have hnew : startsWith isSpace (textOf (t :: more) ++ r) = true := by
    rw [textOf_cons, show t.text = c :: tail from htext]
    exact hspelled.2 c (by simp [htext])
  simp [h.space hnew] at hold

namespace Declaration

/-- A respelled property stands before the colon still, and the colon before the new value. -/
theorem Opening.stand_exchange {property property' colon : Token} {gap blanks value value' : List Token}
    {r : Text} (h : Opening property gap colon blanks)
    (hstand : Stand (property :: (gap ++ colon :: (blanks ++ value))) r)
    (hexchange : Exchange r value value') (hkind : property'.kind = property.kind)
    (htext : Respelled property.text property'.text) :
    Stand (property' :: (gap ++ colon :: (blanks ++ value'))) r := by
  obtain ⟨hproperty, hrest⟩ := hstand
  rw [stand_append] at hrest
  obtain ⟨hgap, hcolon, hafter⟩ := hrest
  have hblanks := (stand_append.mp hafter).1
  have hcolonSign : colon.kind.sign? = some ':' := by rw [h.colon]; rfl
  have hcolonText : colon.text = [':'] := Token.text_eq_of_sign hcolon.spelled hcolonSign
  have hnext : Next (textOf (colon :: (blanks ++ value)) ++ r)
      (textOf (colon :: (blanks ++ value')) ++ r) := by
    rw [textOf_cons, textOf_cons, hcolonText]
    exact next_cons_of_isDecisive (by decide) _ _
  have hproperty' : property'.toLexeme.StandsBefore
      (textOf (gap ++ colon :: (blanks ++ value')) ++ r) := by
    refine Token.standsBefore_respelled hproperty hkind htext (by simp [Token.isTrivia, h.property]) ?_
    rw [textOf_append, textOf_append, List.append_assoc, List.append_assoc]
    exact hnext.append _
  rw [Stand, stand_append, Stand, stand_append]
  exact ⟨hproperty', hgap.next hnext, Lexeme.standsBefore_of_sign? hcolon.spelled hcolonSign _,
    hblanks.blanks h.blanks hexchange.space, hexchange.stand⟩

theorem segmentDepth_exchange {property property' : Token} {value value' : List Token} {r : Text}
    (front : List Token) (hkind : property'.kind = property.kind)
    (hexchange : Exchange r value value') :
    segmentDepth 0 0 (property' :: (front ++ value')) =
      segmentDepth 0 0 (property :: (front ++ value)) := by
  have hkinds : (property' :: front).map (·.kind) = (property :: front).map (·.kind) := by
    simp [hkind]
  rw [← List.cons_append, ← List.cons_append, segmentDepth_append, segmentDepth_append,
    segmentDepth_of_kinds hkinds]
  simp only [hexchange.depth]

/-- The character that a declaration ends in front of: its semicolon, or the brace after the body. -/
def stop (d : Declaration) : Char := if d.semicolon then ';' else '}'

theorem stop_spec (d : Declaration) :
    isInert d.stop = true ∧ isSpace d.stop = false ∧ isDecisive d.stop = true := by
  unfold stop
  split <;> decide

/-- The tokens are read as the declaration, in front of the character that it ends at. -/
structure SpelledBy (d : Declaration) (ts : List Token) : Prop where
  read : (read? ts d.semicolon).map bare = some d.bare
  noBraces : NoBraces ts
  depth : (segmentDepth 0 0 ts).isSome = true
  closed : d.semicolon = true → segmentDepth 0 0 ts = some (0, 0)
  stand : Stand ts [d.stop]

/-- Some tokens are read as the declaration. -/
def IsSpelled (d : Declaration) : Prop := ∃ ts, d.SpelledBy ts

namespace SpelledBy

variable {d : Declaration} {ts : List Token}

theorem of_bare (h : d.SpelledBy ts) {d' : Declaration} (hbare : d.bare = d'.bare) :
    d'.SpelledBy ts := by
  have hsemicolon : d.bare.semicolon = d'.bare.semicolon := by rw [hbare]
  have hsemicolon : d.semicolon = d'.semicolon := hsemicolon
  have hstop : d.stop = d'.stop := by rw [stop, stop, hsemicolon]
  refine ⟨?_, h.noBraces, h.depth, ?_, ?_⟩
  · rw [← hsemicolon, ← hbare, h.read]
  · rw [← hsemicolon]
    exact h.closed
  · rw [← hstop]
    exact h.stand

theorem exists_parts (h : d.SpelledBy ts) :
    ∃ property gap colon blanks value, ts = property :: (gap ++ colon :: (blanks ++ value)) ∧
      Opening property gap colon blanks ∧ (∀ t more, value = t :: more → t.kind ≠ .whitespace) ∧
      d.property = property.text ∧ d.colon = textOf (gap ++ colon :: blanks) ∧
      d.value = Value.read value := by
  obtain ⟨d', hread, hbare⟩ := Option.map_eq_some_iff.mp h.read
  obtain ⟨property, gap, colon, blanks, value, rfl, hopening, hvalue⟩ := exists_opening hread
  rw [read?_eq hopening hvalue] at hread
  obtain rfl := Option.some.inj hread
  exact ⟨property, gap, colon, blanks, value, rfl, hopening, hvalue,
    (congrArg Declaration.property hbare).symm, (congrArg Declaration.colon hbare).symm,
    (congrArg Declaration.value hbare).symm⟩

theorem textOf_eq (h : d.SpelledBy ts) : textOf ts = d.core := by
  obtain ⟨d', hread, hbare⟩ := Option.map_eq_some_iff.mp h.read
  have hcore : d'.bare.core = d.bare.core := congrArg core hbare
  exact (core_of_read? h.stand.spelledAll hread).1.symm.trans hcore

theorem head (h : d.SpelledBy ts) : ts.head?.map (·.kind) = some .ident := by
  obtain ⟨property, gap, colon, blanks, value, rfl, hopening, -⟩ := h.exists_parts
  exact congrArg some hopening.property

theorem startsContent (h : d.SpelledBy ts) : StartsContent ts := by
  obtain ⟨property, gap, colon, blanks, value, rfl, hopening, -⟩ := h.exists_parts
  exact ⟨property, _, rfl, by simp [Token.isTrivia, hopening.property]⟩

theorem stand_stop (h : d.SpelledBy ts) (x : Text) : Stand ts (d.stop :: x) :=
  h.stand.next (next_cons_of_isDecisive d.stop_spec.2.2 _ _)

/-- If its components can be moved, a flipped declaration is read from new tokens. -/
theorem flip (h : d.SpelledBy ts) (hmove : d.canMove = true) (options : FlipOptions) :
    (d.flip options).value.IsSpelled := by
  obtain ⟨hinert, hspace, -⟩ := d.stop_spec
  obtain ⟨property, gap, colon, blanks, value, rfl, hopening, hvalue, hproperty, hcolon, hread⟩ :=
    h.exists_parts
  have hstand : Stand value [d.stop] := by
    have hrest := (stand_append.mp h.stand.2).2
    exact (stand_append.mp hrest.2).2
  have hbraces := h.noBraces
  simp only [noBraces_cons, noBraces_append] at hbraces
  obtain ⟨value', hexchange, hread'⟩ :=
    exists_exchange options hread hmove hstand hinert hbraces.2.2.2.2
  obtain ⟨property', hkind, htext⟩ : ∃ property' : Token, property'.kind = property.kind ∧
      property'.text = sideProperties.flip property.text :=
    ⟨property.withText (sideProperties.flip property.text), rfl, rfl⟩
  have hrespelled : Respelled property.text property'.text := by
    rw [htext]
    exact Pairs.respelled_flip Pairs.isSound_sideProperties property.text
  have hopening' : Opening property' gap colon blanks :=
    ⟨hkind.trans hopening.property, hopening.gap, hopening.colon, hopening.blanks⟩
  have hdepth := segmentDepth_exchange (gap ++ colon :: blanks) hkind hexchange
  simp only [List.append_assoc, List.cons_append] at hdepth
  rw [value_flip]
  refine ⟨property' :: (gap ++ colon :: (blanks ++ value')), ?_, ?_, ?_, ?_,
    hopening.stand_exchange h.stand hexchange hkind hrespelled⟩
  · rw [read?_eq hopening' (hexchange.kind_ne_whitespace hstand hspace hvalue), Option.map_some,
      hread', htext, ← hproperty, ← hcolon]
    rfl
  · simp only [noBraces_cons, noBraces_append]
    rw [hkind]
    exact ⟨hbraces.1, hbraces.2.1, hbraces.2.2.1, hbraces.2.2.2.1, hexchange.noBraces⟩
  · rw [hdepth]
    exact h.depth
  · rw [hdepth]
    exact h.closed

/-- What stands before a declaration stands before the flipped one. -/
theorem next_flip (h : d.SpelledBy ts) {options : FlipOptions} {ts' : List Token}
    (h' : (d.flip options).value.SpelledBy ts') (x x' : Text) :
    Next (textOf ts ++ x) (textOf ts' ++ x') := by
  rw [h.textOf_eq, h'.textOf_eq, value_flip]
  obtain ⟨property, gap, colon, blanks, value, rfl, hopening, -, hproperty, hcolon, -⟩ :=
    h.exists_parts
  have hspelled := h.stand.spelledAll
  simp only [spelledAll_cons, spelledAll_append] at hspelled
  have hcolonText : colon.text = [':'] :=
    Token.text_eq_of_sign hspelled.2.2.1 (by rw [hopening.colon]; rfl)
  have hne : d.property ≠ [] := by
    rw [hproperty]
    exact h.stand.1.text_ne_nil
  simp only [core, List.append_assoc]
  refine Next.respelled (Pairs.respelled_flip Pairs.isSound_sideProperties _) hne ?_
  simp only [hcolon, textOf_append, textOf_cons, hcolonText, List.append_assoc,
    List.singleton_append]
  exact (next_cons_of_isDecisive (by decide) _ _).append _

end SpelledBy

end Declaration

/-! ### Segments -/

theorem StartsContent.append {ts : List Token} (h : StartsContent ts) (us : List Token) :
    StartsContent (ts ++ us) := by
  obtain ⟨t, more, rfl, htrivia⟩ := h
  exact ⟨t, more ++ us, rfl, htrivia⟩

/-- A run without `{` that is a part of a segment has no braces. -/
theorem noBraces_of_segmentDepth {depth : Nat} {ts : List Token}
    (h : (segmentDepth depth 0 ts).isSome = true) (hopen : ts.any (·.kind == .openBrace) = false) :
    NoBraces ts := by
  induction ts generalizing depth with
  | nil => simp [NoBraces]
  | cons t ts ih =>
      simp only [List.any_cons, Bool.or_eq_false_iff, beq_eq_false_iff_ne, ne_eq] at hopen
      rw [segmentDepth] at h
      split at h
      · contradiction
      split at h
      · contradiction
      · rename_i hclose
        rw [if_neg hopen.1] at h
        exact noBraces_cons.mpr ⟨⟨hopen.1, hclose⟩, ih h hopen.2⟩

namespace Segment

theorem Fits.of_head {segment : Segment} {rest rest' : List Token} (h : segment.Fits rest)
    (hhead : rest'.head?.map (·.kind) = rest.head?.map (·.kind)) : segment.Fits rest' := by
  cases h with
  | whitespace hkind => exact .whitespace hkind
  | comment hkind => exact .comment hkind
  | ended hstarts hdepth hstop => exact .ended hstarts hdepth hstop
  | blockEnded hstarts hdepth hbraces hclose hstop =>
      exact .blockEnded hstarts hdepth hbraces hclose hstop
  | block hstarts hdepth hbraces hclose hrest =>
      refine .block hstarts hdepth hbraces hclose ?_
      rintro t' more' rfl
      cases rest with
      | nil => contradiction
      | cons t more =>
          have hkind : t'.kind = t.kind := by simpa using hhead
          rw [hkind]
          exact hrest t more rfl
  | last hrest hstarts hdepth =>
      subst hrest
      exact .last (by simpa using hhead) hstarts hdepth

theorem declaration?_content {inner : List Token} {semicolon : Option Token} {d : Declaration}
    (h : (content inner semicolon).declaration? = some d) :
    inner.any (·.kind == .openBrace) = false ∧ Declaration.read? inner semicolon.isSome = some d := by
  rw [declaration?] at h
  split at h
  · contradiction
  · rename_i hopen
    exact ⟨by simpa using hopen, h⟩

/-- A declaration ends at a semicolon or with the body. -/
theorem Fits.of_declaration? {inner : List Token} {semicolon : Option Token} {rest : List Token}
    {d : Declaration} (h : (content inner semicolon).Fits rest)
    (hdeclaration : (content inner semicolon).declaration? = some d)
    (hbalanced : Bracket.brace.depth 0 (content inner semicolon).tokens = some 0) :
    StartsContent inner ∧ (segmentDepth 0 0 inner).isSome = true ∧
      ((∃ stop, semicolon = some stop ∧ stop.kind = .semicolon ∧
        segmentDepth 0 0 inner = some (0, 0)) ∨ (semicolon = none ∧ rest = [])) := by
  obtain ⟨hopen, hread⟩ := declaration?_content hdeclaration
  have hblock : ∀ before close e b, inner = before ++ [close] →
      segmentDepth 0 0 before = some (e, b) → b ≤ 1 → close.kind = .closeBrace → False := by
    rintro before close e b rfl hdepth hbraces hclose
    have hone : b = 1 := by
      refine @one_brace_of_block _ semicolon.toList _ _ _ 0 hdepth hbraces hclose ?_
      simpa [tokens] using hbalanced
    have hany := any_openBrace_of_depth (brace_depth_of_segmentDepth hdepth) (by omega)
    simp [hany] at hopen
  have hne : inner ≠ [] := by
    rintro rfl
    contradiction
  cases h with
  | ended hstarts hdepth hstop =>
      refine ⟨?_, by simp [hdepth], Or.inl ⟨_, rfl, hstop, hdepth⟩⟩
      obtain ⟨t, more, rfl⟩ := List.exists_cons_of_ne_nil hne
      obtain ⟨u, us, hcons, htrivia⟩ := hstarts
      obtain ⟨rfl, -⟩ := List.cons.inj hcons
      exact ⟨t, more, rfl, htrivia⟩
  | blockEnded _ hdepth hbraces hclose => exact (hblock _ _ _ _ rfl hdepth hbraces hclose).elim
  | block _ hdepth hbraces hclose => exact (hblock _ _ _ _ rfl hdepth hbraces hclose).elim
  | last hrest hstarts hdepth => exact ⟨hstarts, hdepth, Or.inr ⟨rfl, hrest⟩⟩

end Segment

theorem BodyItem.ofSegment_declaration {inner : List Token} {semicolon : Option Token}
    {d : Declaration} (hbraces : NoBraces inner)
    (h : Declaration.read? inner semicolon.isSome = some d) :
    ofSegment (.content inner semicolon) = .declaration d := by
  have hopen : ¬ inner.any (·.kind == .openBrace) = true := by
    simpa using fun t ht => (hbraces t ht).1
  rw [ofSegment, Segment.declaration?, if_neg hopen, h]

/-- What comes after the tokens of a declaration: its semicolon, or else the end of the body. -/
structure Declaration.StopsAt (d : Declaration) (semicolon : Option Token) (rest : List Token) :
    Prop where
  same : d.semicolon = semicolon.isSome
  last : semicolon = none → rest = []
  kind : ∀ t, semicolon = some t → t.kind = .semicolon
  spelled : ∀ t, semicolon = some t → t.toLexeme.Spelled

/-- The tokens of a declaration spell it. -/
theorem Segment.Fits.spelledBy {inner rest : List Token} {semicolon : Option Token} {d : Declaration}
    {r : Text} (h : (Segment.content inner semicolon).Fits rest)
    (hdeclaration : (Segment.content inner semicolon).declaration? = some d)
    (hbalanced : Bracket.brace.depth 0 (Segment.content inner semicolon).tokens = some 0)
    (hstand : Stand (Segment.content inner semicolon).tokens (textOf rest ++ '}' :: r)) :
    d.SpelledBy inner ∧ d.StopsAt semicolon rest := by
  obtain ⟨hopen, hread⟩ := Segment.declaration?_content hdeclaration
  obtain ⟨-, hdepth, hend⟩ := h.of_declaration? hdeclaration hbalanced
  rw [Segment.tokens, stand_append] at hstand
  have hsame := (Declaration.core_of_read? hstand.1.spelledAll hread).2
  have hread' : (Declaration.read? inner d.semicolon).map Declaration.bare = some d.bare := by
    rw [hsame, hread, Option.map_some]
  have hbraces := noBraces_of_segmentDepth hdepth hopen
  rcases hend with ⟨stop, rfl, hkind, hzero⟩ | ⟨rfl, rfl⟩
  · have hspelled := hstand.2.1.spelled
    have htext : stop.text = [';'] := Token.text_eq_of_sign hspelled (by rw [hkind]; rfl)
    refine ⟨⟨hread', hbraces, hdepth, fun _ => hzero, hstand.1.next ?_⟩, hsame, by simp,
      by simpa using hkind, by simpa using hspelled⟩
    rw [Declaration.stop, hsame, Option.toList_some, textOf_cons, htext]
    exact next_cons_of_isDecisive (by decide) _ _
  · refine ⟨⟨hread', hbraces, hdepth, by simp [hsame], hstand.1.next ?_⟩, hsame, by simp, by simp,
      by simp⟩
    rw [Declaration.stop, hsame]
    exact next_cons_of_isDecisive (by decide) _ _

/-! ### The segment of a declaration -/

namespace Declaration.SpelledBy

variable {d : Declaration} {ts rest : List Token} {semicolon : Option Token}

theorem fits (h : d.SpelledBy ts) (hstop : d.StopsAt semicolon rest) :
    (Segment.content ts semicolon).Fits rest := by
  cases semicolon with
  | none => exact .last (hstop.last rfl) h.startsContent h.depth
  | some t => exact .ended (h.startsContent.append _) (h.closed hstop.same) (hstop.kind t rfl)

theorem noBraces_segment (h : d.SpelledBy ts) (hstop : d.StopsAt semicolon rest) :
    NoBraces (Segment.content ts semicolon).tokens := by
  refine noBraces_append.mpr ⟨h.noBraces, ?_⟩
  cases semicolon with
  | none => simp [NoBraces]
  | some t => simp [NoBraces, hstop.kind t rfl]

theorem stand_segment (h : d.SpelledBy ts) (hstop : d.StopsAt semicolon rest) (r : Text) :
    Stand (Segment.content ts semicolon).tokens (textOf rest ++ '}' :: r) := by
  have hstand := h.stand_stop
  rw [Declaration.stop, hstop.same] at hstand
  rw [Segment.tokens, stand_append]
  cases semicolon with
  | none =>
      rw [hstop.last rfl]
      exact ⟨hstand r, trivial⟩
  | some t =>
      have hsign : t.kind.sign? = some ';' := by rw [hstop.kind t rfl]; rfl
      have hspelled := hstop.spelled t rfl
      refine ⟨?_, Lexeme.standsBefore_of_sign? hspelled hsign _, trivial⟩
      simpa [Token.text_eq_of_sign hspelled hsign] using hstand (textOf rest ++ '}' :: r)

theorem bare_ofSegment (h : d.SpelledBy ts) (hstop : d.StopsAt semicolon rest) :
    (BodyItem.ofSegment (.content ts semicolon)).bare = .declaration d.bare := by
  obtain ⟨d', hread, hbare⟩ := Option.map_eq_some_iff.mp h.read
  rw [hstop.same] at hread
  rw [BodyItem.ofSegment_declaration h.noBraces hread]
  exact congrArg BodyItem.declaration hbare

end Declaration.SpelledBy

/-- Before the text `r`, the segments `ss'` can take the place of `ss`, and are read as `body`. -/
structure ReplacedAll (r : Text) (ss ss' : List Segment) (body : Body) : Prop where
  proper : ProperSegments ss'
  balanced : ∀ segment ∈ ss', Bracket.brace.depth 0 segment.tokens = some 0
  stand : Stand (ss'.flatMap Segment.tokens) r
  next : Next (textOf (ss.flatMap Segment.tokens) ++ r) (textOf (ss'.flatMap Segment.tokens) ++ r)
  head : (ss'.flatMap Segment.tokens).head?.map (·.kind) =
    (ss.flatMap Segment.tokens).head?.map (·.kind)
  items : (ss'.map BodyItem.ofSegment).map BodyItem.bare = body.map BodyItem.bare

namespace ReplacedAll

variable {r : Text} {ss ss' : List Segment} {body : Body}

theorem nil (r : Text) : ReplacedAll r [] [] [] := ⟨trivial, by simp, trivial, .refl r, rfl, rfl⟩

theorem cons (h : ReplacedAll r ss ss' body) {segment segment' : Segment} {item : BodyItem}
    (hfits : segment'.Fits (ss'.flatMap Segment.tokens))
    (hbalanced : Bracket.brace.depth 0 segment'.tokens = some 0)
    (hstand : Stand segment'.tokens (textOf (ss'.flatMap Segment.tokens) ++ r))
    (hnext : Next (textOf segment.tokens ++ (textOf (ss.flatMap Segment.tokens) ++ r))
      (textOf segment'.tokens ++ (textOf (ss'.flatMap Segment.tokens) ++ r)))
    (hhead : segment'.tokens.head?.map (·.kind) = segment.tokens.head?.map (·.kind))
    (hitem : (BodyItem.ofSegment segment').bare = item.bare) :
    ReplacedAll r (segment :: ss) (segment' :: ss') (item :: body) where
  proper := ⟨hfits, h.proper⟩
  balanced := by
    intro s hs
    rcases List.mem_cons.mp hs with rfl | hs
    · exact hbalanced
    · exact h.balanced s hs
  stand := stand_append.mpr ⟨hstand, h.stand⟩
  next := by simpa using hnext
  head := by
    have hne := hfits.tokens_ne_nil
    cases htokens' : segment'.tokens with
    | nil => contradiction
    | cons t' ts' =>
        cases htokens : segment.tokens with
        | nil => simp [htokens', htokens] at hhead
        | cons t ts => simpa [htokens', htokens] using hhead
  items := by rw [List.map_cons, List.map_cons, List.map_cons, hitem, h.items]

/-- A segment that is not flipped stays as it is. -/
theorem keep (h : ReplacedAll r ss ss' body) {segment : Segment}
    (hfits : segment.Fits (ss.flatMap Segment.tokens))
    (hbalanced : Bracket.brace.depth 0 segment.tokens = some 0)
    (hstand : Stand segment.tokens (textOf (ss.flatMap Segment.tokens) ++ r)) :
    ReplacedAll r (segment :: ss) (segment :: ss') (BodyItem.ofSegment segment :: body) :=
  h.cons (hfits.of_head h.head) hbalanced (hstand.next h.next) (h.next.append _) rfl rfl

/-- A declaration is replaced by the flipped one. -/
theorem flip (h : ReplacedAll ('}' :: r) ss ss' body) {options : FlipOptions} {inner : List Token}
    {semicolon : Option Token} {d : Declaration}
    (hfits : (Segment.content inner semicolon).Fits (ss.flatMap Segment.tokens))
    (hdeclaration : (Segment.content inner semicolon).declaration? = some d)
    (hbalanced : Bracket.brace.depth 0 (Segment.content inner semicolon).tokens = some 0)
    (hstand : Stand (Segment.content inner semicolon).tokens
      (textOf (ss.flatMap Segment.tokens) ++ '}' :: r))
    (hflip : (d.flip options).value.IsSpelled) :
    ∃ segment', ReplacedAll ('}' :: r) (.content inner semicolon :: ss) (segment' :: ss')
      (.declaration (d.flip options).value :: body) := by
  obtain ⟨hold, hstop⟩ := hfits.spelledBy hdeclaration hbalanced hstand
  obtain ⟨inner', hnew⟩ := hflip
  have hstop' : (d.flip options).value.StopsAt semicolon (ss'.flatMap Segment.tokens) := by
    refine ⟨?_, fun hnone => ?_, hstop.kind, hstop.spelled⟩
    · rw [Declaration.value_flip, ← hstop.same]
    · simpa [hstop.last hnone] using h.head
  refine ⟨.content inner' semicolon, h.cons (hnew.fits hstop')
    (balanced_of_no_brace (hnew.noBraces_segment hstop') 0) (hnew.stand_segment hstop' r) ?_ ?_
    (hnew.bare_ofSegment hstop')⟩
  · simp only [Segment.tokens, textOf_append, List.append_assoc]
    exact hold.next_flip hnew _ _
  · obtain ⟨t, more, rfl, -⟩ := hold.startsContent
    obtain ⟨t', more', rfl, -⟩ := hnew.startsContent
    simpa [Segment.tokens] using hnew.head.trans hold.head.symm

end ReplacedAll

/-- A flipped rule body is read back from new tokens, if each of its declarations is. -/
theorem Body.exists_replacedAll (options : FlipOptions) {ss : List Segment} {guarded : Bool}
    {r : Text} (hproper : ProperSegments ss)
    (hbalanced : ∀ segment ∈ ss, Bracket.brace.depth 0 segment.tokens = some 0)
    (hstand : Stand (ss.flatMap Segment.tokens) ('}' :: r))
    (hspelled : ∀ d ∈ Body.unguardedFrom guarded (ss.map BodyItem.ofSegment),
      (d.flip options).value.IsSpelled) :
    ∃ ss', ReplacedAll ('}' :: r) ss ss'
      (Body.flipFrom options guarded (ss.map BodyItem.ofSegment)) := by
  -- A segment is replaced in front of the new segments, so those after it come first.
  induction ss generalizing guarded with
  | nil => exact ⟨[], .nil _⟩
  | cons segment ss ih =>
      obtain ⟨hfits, hproper⟩ := hproper
      rw [List.flatMap_cons, stand_append] at hstand
      rw [List.map_cons, Body.unguardedFrom] at hspelled
      have hsegment := hbalanced segment (by simp)
      obtain ⟨ss', hback⟩ := ih hproper (fun s hs => hbalanced s (by simp [hs])) hstand.2
        fun d hd => hspelled d (List.mem_append_right _ hd)
      rw [List.map_cons, Body.flipFrom]
      have hkeep : ((BodyItem.ofSegment segment).flip options guarded).value =
          BodyItem.ofSegment segment → ∃ ss', ReplacedAll ('}' :: r) (segment :: ss) ss'
            (((BodyItem.ofSegment segment).flip options guarded).value :: Body.flipFrom options
              ((BodyItem.ofSegment segment).role.guardNext guarded) (ss.map BodyItem.ofSegment)) := by
        intro hsame
        rw [hsame]
        exact ⟨segment :: ss', hback.keep hfits hsegment hstand.1⟩
      cases guarded with
      | true =>
          refine hkeep ?_
          cases BodyItem.ofSegment segment <;> rfl
      | false =>
          cases segment with
          | whitespace t => exact hkeep rfl
          | comment t => exact hkeep rfl
          | content inner semicolon =>
              cases hdeclaration : (Segment.content inner semicolon).declaration? with
              | none =>
                  refine hkeep ?_
                  rw [BodyItem.ofSegment, hdeclaration]
                  rfl
              | some d =>
                  have hitem : BodyItem.ofSegment (.content inner semicolon) = .declaration d := by
                    rw [BodyItem.ofSegment, hdeclaration]
                  have hd : (d.flip options).value.IsSpelled :=
                    hspelled d (by simp [hitem, BodyItem.declaration?])
                  obtain ⟨segment', hflipped⟩ := hback.flip hfits hdeclaration hsegment hstand.1 hd
                  exact ⟨segment' :: ss', by rw [hitem] at hflipped ⊢; exact hflipped⟩

/-- Every declaration that was read is spelled. -/
theorem Body.isSpelled_of_mem {ss : List Segment} {r : Text} (hproper : ProperSegments ss)
    (hbalanced : ∀ segment ∈ ss, Bracket.brace.depth 0 segment.tokens = some 0)
    (hstand : Stand (ss.flatMap Segment.tokens) ('}' :: r)) {d : Declaration}
    (hmem : d ∈ Body.declarations (ss.map BodyItem.ofSegment)) : d.IsSpelled := by
  induction ss with
  | nil => simp [Body.declarations] at hmem
  | cons segment ss ih =>
      rw [List.flatMap_cons, stand_append] at hstand
      have hrest := ih hproper.2 (fun s hs => hbalanced s (by simp [hs])) hstand.2
      rw [List.map_cons, Body.declarations, List.filterMap_cons] at hmem
      cases hitem : (BodyItem.ofSegment segment).declaration? with
      | none =>
          rw [hitem] at hmem
          exact hrest hmem
      | some d' =>
          rw [hitem] at hmem
          rcases List.mem_cons.mp hmem with rfl | hmem
          · cases segment with
            | whitespace t => contradiction
            | comment t => contradiction
            | content inner semicolon =>
                have hdeclaration : (Segment.content inner semicolon).declaration? = some d := by
                  rw [BodyItem.ofSegment] at hitem
                  split at hitem
                  · rename_i hread
                    rw [hread]
                    exact hitem
                  · contradiction
                exact ⟨inner, (hproper.1.spelledBy hdeclaration (hbalanced _ (by simp)) hstand.1).1⟩
          · exact hrest hmem

end StyleFlip
