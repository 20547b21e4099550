import StyleFlip.Proofs.Items
import StyleFlip.Proofs.ProperBody
import StyleFlip.Proofs.ProperOutline
import StyleFlip.Proofs.Spelling
import StyleFlip.Sheet.Reader

/-!
# Reading loses nothing

Each reader cuts its tokens into parts, and the parts print back to the text of the tokens. A rule
that is read is therefore fresh: its source text is the text of its parts.
-/

namespace StyleFlip

theorem SpelledAll.splitClosing {ts : List Token} (h : SpelledAll ts) (bracket : Bracket)
    (depth : Nat) :
    SpelledAll (splitClosing bracket depth ts).1 ∧ SpelledAll (splitClosing bracket depth ts).2 := by
  rw [← spelledAll_append, splitClosing_append]
  exact h

/-- The tokens from a closing parenthesis on, with the parenthesis printed by itself. -/
theorem textOf_closing_tail {ts before after : List Token}
    (hsplit : splitClosing .paren 0 ts = (before, after)) (hspelled : SpelledAll after) :
    (if after.isEmpty then [] else [')']) ++ textOf after.tail = textOf after := by
  cases after with
  | nil => rfl
  | cons closing rest =>
      obtain ⟨e, _, hfirst⟩ := exists_depth_of_splitClosing hsplit
      have hkind : closing.kind = .closeParen := by
        simpa [Bracket.closes] using (hfirst closing rest rfl).2
      rw [spelledAll_cons] at hspelled
      have htext : closing.text = [')'] :=
        Token.text_eq_of_sign hspelled.1 (by rw [hkind]; rfl)
      simp [htext]

theorem Component.renderAll_read (ts : List Token) (h : SpelledAll ts) :
    Component.renderAll (Value.read ts) = textOf ts := by
  fun_induction Value.read ts with
  | case1 => rfl
  | case2 t rest hopens split ihargs ihrest =>
      rw [spelledAll_cons] at h
      obtain ⟨hinner, hafter⟩ := h.2.splitClosing .paren 0
      have htail : SpelledAll split.2.tail := fun u hu => hafter u (List.mem_of_mem_tail hu)
      have hclosing := textOf_closing_tail (rfl : splitClosing .paren 0 rest = (_, _)) hafter
      have hname := Token.dropLast_text_append h.1 hopens
      have happend := splitClosing_append .paren 0 rest
      calc Component.renderAll (.function t.text.dropLast (Value.read split.1) (!split.2.isEmpty) ::
              Value.read split.2.tail)
          = (t.text.dropLast ++ ['(']) ++ (textOf split.1 ++
              ((if split.2.isEmpty then [] else [')']) ++ textOf split.2.tail)) := by
            rw [Component.renderAll, Component.render, ihargs hinner, ihrest htail]
            cases split.2 <;> simp
        _ = t.text ++ (textOf split.1 ++ textOf split.2) := by rw [hname, hclosing]
        _ = textOf (t :: rest) := by rw [← textOf_append, happend, textOf_cons]
  | case3 t rest hopens ih =>
      rw [spelledAll_cons] at h
      rw [Component.renderAll, Component.render, ih h.2, textOf_cons]

/-! ### Selectors -/

theorem splitMatcherMark_append (tokens : List Token) :
    (splitMatcherMark tokens).1 ++ (splitMatcherMark tokens).2 = tokens := by
  unfold splitMatcherMark
  split
  · rename_i mark hlast
    split
    · obtain ⟨before, rfl⟩ := List.getLast?_eq_some_iff.mp hlast
      simp
    · simp
  · rename_i hlast
    rw [List.getLast?_eq_none_iff.mp hlast]
    rfl

theorem Attribute.render_read (tokens : List Token) :
    (Attribute.read tokens).render = '[' :: (textOf tokens ++ [']']) := by
  have hsplit := List.takeWhile_append_dropWhile (p := (!Token.isDelim '=' ·)) (l := tokens)
  unfold Attribute.read
  split
  · simp [Attribute.render]
  · rename_i equals after heq
    have hmark := splitMatcherMark_append (tokens.takeWhile (!Token.isDelim '=' ·))
    have htrivia := List.takeWhile_append_dropWhile (p := Token.isTrivia) (l := after)
    have hvalue := List.take_append_drop 1 (after.dropWhile Token.isTrivia)
    rw [heq] at hsplit
    have htext : textOf tokens =
        textOf (splitMatcherMark (tokens.takeWhile (!Token.isDelim '=' ·))).1 ++
          (textOf (splitMatcherMark (tokens.takeWhile (!Token.isDelim '=' ·))).2 ++
            (equals.text ++ (textOf (after.takeWhile Token.isTrivia) ++
              (textOf ((after.dropWhile Token.isTrivia).take 1) ++
                textOf ((after.dropWhile Token.isTrivia).drop 1))))) := by
      rw [← textOf_append ((after.dropWhile Token.isTrivia).take 1), hvalue,
        ← textOf_append (after.takeWhile Token.isTrivia), htrivia, ← textOf_cons, ← textOf_append,
        ← textOf_append, ← List.append_assoc, hmark, hsplit]
    rw [htext]
    simp [Attribute.render]

theorem render_pseudoPart (colons rest : List Token) :
    (pseudoPart colons rest).1.render ++ textOf (pseudoPart colons rest).2 =
      textOf colons ++ textOf rest := by
  unfold pseudoPart
  split
  · rfl
  rename_i t after
  split
  · simp [SelectorPart.render]
  · have happend := splitClosing_append .paren 0 after
    have htake := List.take_append_drop 1 (splitClosing .paren 0 after).2
    simp only [SelectorPart.render, textOf_append, textOf_cons, List.append_assoc]
    rw [← textOf_append ((splitClosing .paren 0 after).2.take 1), htake, ← textOf_append, happend]
  · rfl

theorem render_attributePart {opening : Token} {rest : List Token} (h : SpelledAll rest)
    (hopening : opening.text = ['[']) :
    (attributePart opening rest).1.render ++ textOf (attributePart opening rest).2 =
      opening.text ++ textOf rest := by
  have hsplit := List.takeWhile_append_dropWhile (p := fun t : Token => t.kind != .closeBracket)
    (l := rest)
  unfold attributePart
  split
  · simp [SelectorPart.render]
  · rename_i closing after heq
    have hkind : closing.kind = .closeBracket := by
      have hhead := List.head?_dropWhile_not (fun t : Token => t.kind != .closeBracket) rest
      rw [heq] at hhead
      simpa using hhead
    rw [heq] at hsplit
    have hclosing : closing.text = [']'] := by
      rw [← hsplit, spelledAll_append, spelledAll_cons] at h
      exact Token.text_eq_of_sign h.2.1 (by rw [hkind]; rfl)
    have htext : textOf rest =
        textOf (rest.takeWhile (·.kind != .closeBracket)) ++ ([']'] ++ textOf after) := by
      rw [← hclosing, ← textOf_cons, ← textOf_append, hsplit]
    rw [SelectorPart.render, Attribute.render_read, hopening, htext]
    simp

theorem render_selectorPart {t : Token} {rest : List Token} (h : SpelledAll (t :: rest)) :
    (selectorPart t rest).1.render ++ textOf (selectorPart t rest).2 = t.text ++ textOf rest := by
  rw [spelledAll_cons] at h
  obtain ⟨ht, hrest⟩ := h
  unfold selectorPart
  split
  · rfl
  · rfl
  · rfl
  · rename_i hkind
    rw [Lexeme.Spelled, hkind] at ht
    obtain ⟨c, name, htext⟩ := ht
    simp [SelectorPart.render, htext]
  · rename_i hkind
    rw [Token.text_eq_of_sign ht (c := ',') (by rw [hkind]; rfl)]
    rfl
  · split
    · split
      · rw [render_pseudoPart]
        simp
      · rw [render_pseudoPart]
        simp
    · rw [render_pseudoPart]
      simp
  · rename_i hkind
    exact render_attributePart hrest (Token.text_eq_of_sign ht (by rw [hkind]; rfl))
  · split
    · split
      · rename_i hclass
        simp only [Bool.and_eq_true, Token.isDelim, beq_iff_eq] at hclass
        simp [SelectorPart.render, hclass.1.2]
      · split <;> rfl
    · split <;> rfl
  · rfl

theorem pseudoPart_suffix (colons rest : List Token) : (pseudoPart colons rest).2 <:+ rest := by
  unfold pseudoPart
  split
  · exact List.suffix_rfl
  rename_i t after
  split
  · exact List.suffix_cons t after
  · refine ((List.drop_suffix 1 _).trans ?_).trans (List.suffix_cons t after)
    exact ⟨_, splitClosing_append .paren 0 after⟩
  · exact List.suffix_rfl

theorem attributePart_suffix (opening : Token) (rest : List Token) :
    (attributePart opening rest).2 <:+ rest := by
  unfold attributePart
  split
  · exact List.nil_suffix
  · rename_i closing after heq
    exact (List.suffix_cons closing after).trans (heq ▸ List.dropWhile_suffix _)

/-- What a part of a selector leaves is the end of its tokens. -/
theorem selectorPart_suffix (t : Token) (rest : List Token) : (selectorPart t rest).2 <:+ rest := by
  unfold selectorPart
  split
  · exact List.suffix_rfl
  · exact List.suffix_rfl
  · exact List.suffix_rfl
  · exact List.suffix_rfl
  · exact List.suffix_rfl
  · split
    · split
      · exact (pseudoPart_suffix _ _).trans (List.suffix_cons _ _)
      · exact pseudoPart_suffix _ _
    · exact pseudoPart_suffix _ _
  · exact attributePart_suffix t rest
  · split
    · split
      · exact List.suffix_cons _ _
      · split <;> exact List.suffix_rfl
    · exact List.suffix_rfl
  · exact List.suffix_rfl

theorem Selector.render_read (ts : List Token) (h : SpelledAll ts) :
    Selector.render (Selector.read ts) = textOf ts := by
  fun_induction Selector.read ts with
  | case1 => rfl
  | case2 t rest next ih =>
      have hsuffix : SpelledAll next.2 := by
        intro u hu
        exact h u (List.mem_cons_of_mem _ ((selectorPart_suffix t rest).subset hu))
      rw [Selector.render_cons, ih hsuffix, textOf_cons]
      exact render_selectorPart h

/-! ### Bodies -/

theorem Declaration.core_of_read? {tokens : List Token} {semicolon : Bool} {d : Declaration}
    (hspelled : SpelledAll tokens) (h : Declaration.read? tokens semicolon = some d) :
    d.core = textOf tokens ∧ d.semicolon = semicolon := by
  unfold Declaration.read? at h
  split at h
  · contradiction
  rename_i property rest
  split at h
  · split at h
    · contradiction
    rename_i colon after heq
    split at h
    · obtain rfl := Option.some.inj h
      have hsplit := List.takeWhile_append_dropWhile (p := Token.isTrivia) (l := rest)
      have hblanks := List.takeWhile_append_dropWhile (p := fun t : Token => t.kind == .whitespace)
        (l := after)
      have hvalue : SpelledAll (after.dropWhile (·.kind == .whitespace)) := by
        intro u hu
        have hafter : u ∈ rest.dropWhile Token.isTrivia :=
          heq ▸ List.mem_cons_of_mem _ ((List.dropWhile_suffix _).subset hu)
        exact hspelled u (List.mem_cons_of_mem _ ((List.dropWhile_suffix _).subset hafter))
      refine ⟨?_, rfl⟩
      rw [heq] at hsplit
      rw [Declaration.core, Value.render, Component.renderAll_read _ hvalue, List.append_assoc,
        ← textOf_append, List.append_assoc, List.cons_append, hblanks, hsplit, textOf_cons]
    · contradiction
  · contradiction

theorem BodyItem.render_ofSegment {segment : Segment} {rest : List Token}
    (hfits : segment.Fits rest) (hspelled : SpelledAll segment.tokens) :
    (BodyItem.ofSegment segment).render = textOf segment.tokens := by
  cases segment with
  | whitespace t => simp [BodyItem.ofSegment, BodyItem.render, Segment.tokens]
  | comment t => simp [BodyItem.ofSegment, BodyItem.render, Segment.tokens]
  | content inner semicolon =>
      rw [Segment.tokens, spelledAll_append] at hspelled
      cases hread : (Segment.content inner semicolon).declaration? with
      | none => simp [BodyItem.ofSegment, hread, BodyItem.render, Segment.tokens]
      | some d =>
          have hitem : BodyItem.ofSegment (.content inner semicolon) = .declaration d := by
            simp only [BodyItem.ofSegment, hread]
          simp only [Segment.declaration?] at hread
          split at hread
          · contradiction
          obtain ⟨hcore, hsemicolon⟩ := Declaration.core_of_read? hspelled.1 hread
          rw [hitem, BodyItem.render, Declaration.render, hcore, hsemicolon, Segment.tokens,
            textOf_append]
          cases semicolon with
          | none => rfl
          | some stop =>
              have hkind : stop.kind = .semicolon := hfits.semicolon_kind
              have htext : stop.text = [';'] :=
                Token.text_eq_of_sign (hspelled.2 stop (by simp)) (by rw [hkind]; rfl)
              simp [htext]

theorem Body.render_read (ts : List Token) (h : SpelledAll ts) :
    Body.render (Body.read ts) = textOf ts := by
  have hparts : ∀ parts : List Segment, ProperSegments parts →
      SpelledAll (parts.flatMap Segment.tokens) →
      Body.render (parts.map BodyItem.ofSegment) = textOf (parts.flatMap Segment.tokens) := by
    intro parts
    induction parts with
    | nil => intro _ _; rfl
    | cons segment more ih =>
        intro hproper hspelled
        rw [List.flatMap_cons, spelledAll_append] at hspelled
        have hmore := ih hproper.2 hspelled.2
        rw [Body.render] at hmore ⊢
        rw [List.map_cons, List.flatMap_cons, hmore, List.flatMap_cons, textOf_append,
          BodyItem.render_ofSegment hproper.1 hspelled.1]
  have hread := hparts (segments ts) (properSegments_segments ts)
  rw [flatMap_tokens_segments] at hread
  exact hread h

/-! ### Rules -/

/-- The source text of a rule, as long as it has one, is the text of its parts. -/
def Rule.Fresh (r : Rule) : Prop := ∀ text, r.source = some text → text = r.partsText

theorem Rule.render_of_fresh {r : Rule} (h : r.Fresh) : r.render = r.partsText := by
  unfold Rule.render
  cases hsource : r.source with
  | none => rfl
  | some text => exact h text hsource

theorem Rule.partsText_read {selector body : List Token} {opening closing : Token}
    (hblock : Outline.RuleBlock selector opening body closing)
    (hspelled : SpelledAll (selector ++ opening :: (body ++ [closing]))) :
    (Rule.read selector opening body closing).partsText =
      textOf (selector ++ opening :: (body ++ [closing])) := by
  simp only [spelledAll_append, spelledAll_cons] at hspelled
  obtain ⟨hselector, hopening, hbody, hclosing, -⟩ := hspelled
  have hopen : opening.text = ['{'] :=
    Token.text_eq_of_sign hopening (by rw [hblock.opening]; rfl)
  have hclose : closing.text = ['}'] :=
    Token.text_eq_of_sign hclosing (by rw [hblock.closing]; rfl)
  rw [Rule.partsText]
  simp [Rule.read, Selector.render_read _ hselector, Body.render_read _ hbody, hopen, hclose]

theorem Rule.fresh_read {selector body : List Token} {opening closing : Token}
    (hblock : Outline.RuleBlock selector opening body closing)
    (hspelled : SpelledAll (selector ++ opening :: (body ++ [closing]))) :
    (Rule.read selector opening body closing).Fresh := by
  intro text hsource
  rw [Rule.partsText_read hblock hspelled]
  exact (Option.some.inj hsource).symm

/-! ### Stylesheets -/

theorem AtHead.render_read {keyword : Token} (hkind : keyword.kind = .atKeyword)
    (hspelled : keyword.toLexeme.Spelled) (params : List Token) (span : Span) :
    (AtHead.read keyword params span).render = keyword.text ++ textOf params := by
  rw [Lexeme.Spelled, hkind] at hspelled
  obtain ⟨c, name, htext⟩ := hspelled
  simp [AtHead.render, AtHead.read, atName, htext]

theorem Item.render_atBlock {keyword opening closing : Token} {params block : List Token}
    (hblock : Outline.AtBlock keyword params opening block closing)
    (hspelled : SpelledAll (keyword :: (params ++ opening :: (block ++ [closing])))) (span : Span) :
    (AtHead.read keyword params span).render ++ '{' :: (textOf block ++ ['}']) =
      textOf (keyword :: (params ++ opening :: (block ++ [closing]))) := by
  simp only [spelledAll_append, spelledAll_cons] at hspelled
  obtain ⟨hkeyword, -, hopening, -, hclosing, -⟩ := hspelled
  have hopen : opening.text = ['{'] :=
    Token.text_eq_of_sign hopening (by rw [hblock.opening]; rfl)
  have hclose : closing.text = ['}'] :=
    Token.text_eq_of_sign hclosing (by rw [hblock.closing]; rfl)
  rw [AtHead.render_read hblock.keyword hkeyword]
  simp [hopen, hclose]

theorem Item.render_ofOutline {entry : Outline} {rest : List Token}
    (hother : ∀ keyword params opening items closing,
      entry ≠ .group keyword params opening items closing)
    (hproper : entry.Proper rest) (hspelled : SpelledAll entry.tokens) :
    (Item.ofOutline entry).render = textOf entry.tokens ∧
      ∀ r ∈ Item.rules (Item.ofOutline entry), r.Fresh := by
  cases entry with
  | whitespace t => simp [Item.ofOutline, Item.render, Item.rules, Outline.tokens]
  | comment t => simp [Item.ofOutline, Item.render, Item.rules, Outline.tokens]
  | raw cause ts => simp [Item.ofOutline, Item.render, Item.rules, Outline.tokens]
  | rule selector opening body closing =>
      refine ⟨rfl, ?_⟩
      intro r hr
      obtain rfl := List.mem_singleton.mp hr
      exact Rule.fresh_read hproper hspelled
  | statement keyword params semicolon =>
      refine ⟨?_, by simp [Item.ofOutline, Item.rules]⟩
      rw [Outline.tokens, spelledAll_cons, spelledAll_append] at hspelled
      cases semicolon with
      | none =>
          rw [Item.ofOutline, Item.render, AtHead.render_read hproper.2.1 hspelled.1]
          simp [Outline.tokens]
      | some stop =>
          have htext : stop.text = [';'] :=
            Token.text_eq_of_sign (hspelled.2.2 stop (by simp)) (by rw [hproper.2.2]; rfl)
          rw [Item.ofOutline, Item.render, AtHead.render_read hproper.1 hspelled.1]
          simp [Outline.tokens, htext]
  | verbatim keyword params opening block closing =>
      exact ⟨Item.render_atBlock hproper.2 hspelled _, by simp [Item.ofOutline, Item.rules]⟩
  | group => exact absurd rfl (hother _ _ _ _ _)

/-- A proper outline prints the text of its tokens, and its rules are fresh. -/
theorem Item.renderAll_ofOutlines (entries : List Outline) (hproper : Outline.ProperAll entries)
    (hspelled : SpelledAll (Outline.tokensAll entries)) :
    Item.renderAll (Item.ofOutlines entries) = textOf (Outline.tokensAll entries) ∧
      ∀ r ∈ Item.rulesAll (Item.ofOutlines entries), r.Fresh := by
  induction entries using Outline.listInduction with
  | nil => exact ⟨rfl, by simp [Item.ofOutlines, Item.rulesAll]⟩
  | group keyword params opening items closing rest ihitems ihrest =>
      obtain ⟨⟨-, hblock, hitems⟩, hrest⟩ := hproper
      rw [Outline.tokensAll, spelledAll_append] at hspelled
      have hinner : SpelledAll (Outline.tokensAll items) := by
        have hgroup := hspelled.1
        simp only [Outline.tokens, spelledAll_cons, spelledAll_append] at hgroup
        exact hgroup.2.2.2.1
      obtain ⟨hrenderItems, hfreshItems⟩ := ihitems hitems hinner
      obtain ⟨hrenderRest, hfreshRest⟩ := ihrest hrest hspelled.2
      constructor
      · rw [Item.ofOutlines, Item.renderAll, hrenderRest, Item.ofOutline, Item.render, hrenderItems,
          Item.render_atBlock hblock hspelled.1, Outline.tokensAll, textOf_append, Outline.tokens]
      · intro r hr
        rw [Item.ofOutlines, Item.rulesAll, Item.ofOutline, Item.rules, List.mem_append] at hr
        exact hr.elim (hfreshItems r) (hfreshRest r)
  | other entry rest hother ih =>
      obtain ⟨hentry, hrest⟩ := hproper
      rw [Outline.tokensAll, spelledAll_append] at hspelled
      obtain ⟨hrenderRest, hfreshRest⟩ := ih hrest hspelled.2
      have hone : (Item.ofOutline entry).render = textOf entry.tokens ∧
          ∀ r ∈ Item.rules (Item.ofOutline entry), r.Fresh :=
        Item.render_ofOutline hother hentry hspelled.1
      constructor
      · rw [Item.ofOutlines, Item.renderAll, hrenderRest, hone.1, Outline.tokensAll, textOf_append]
      · intro r hr
        rw [Item.ofOutlines, Item.rulesAll, List.mem_append] at hr
        exact hr.elim (hone.2 r) (hfreshRest r)

end StyleFlip
