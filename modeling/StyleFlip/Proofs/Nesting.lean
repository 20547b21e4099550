import StyleFlip.Proofs.Printing
import StyleFlip.Proofs.Rebasing
import StyleFlip.Proofs.RespelledTokens
import StyleFlip.Transform

/-!
# Texts in the block of an at-rule

The block of a grouping at-rule is found by counting braces, and its tokens are read as a stylesheet
of their own. A text whose braces are balanced is therefore read and flipped in such a block as it
is by itself, only in another place (`Stylesheet.parse_in_group`, `flip_in_group`). What stops at
the end of the text stops at the closing brace.
-/

namespace StyleFlip

/-- A text that opens the block of a grouping at-rule, and its tokens. -/
structure OpensGroup (header : Text) (keyword : Token) (params : List Token) (opening : Token) :
    Prop where
  tokens : tokenize header = keyword :: (params ++ [opening])
  grouping : isGrouping keyword = true
  keyword : keyword.kind = .atKeyword
  params : preludeDepth 0 params = some 0
  opening : opening.kind = .openBrace

/-- A text that a brace can follow as a token of its own, with as many braces closed as opened. -/
structure FitsBlock (s : Text) (closing : Token) : Prop where
  braces : Bracket.brace.depth 0 (tokenize s) = some 0
  tokens : tokenize (s ++ ['}']) = tokenize s ++ [closing]
  closing : closing.kind = .closeBrace

section

variable {header s : Text} {keyword opening closing : Token} {params : List Token}

theorem OpensGroup.stand (h : OpensGroup header keyword params opening) (rest : Text) :
    Stand (tokenize header) rest := by
  have hstand := stand_tokenize header
  rw [h.tokens, ← List.cons_append] at hstand ⊢
  apply hstand.of_last
  rw [h.opening]
  exact .inl (by decide)

theorem OpensGroup.render_head (h : OpensGroup header keyword params opening) (span : Span) :
    (AtHead.read keyword params span).render ++ ['{'] = header := by
  have hspelled := (stand_tokenize header).spelledAll
  rw [h.tokens, spelledAll_cons, spelledAll_append] at hspelled
  have hopen : opening.text = ['{'] :=
    Token.text_eq_of_sign (hspelled.2.2 opening (by simp)) (by rw [h.opening]; rfl)
  calc (AtHead.read keyword params span).render ++ ['{']
      = textOf (keyword :: (params ++ [opening])) := by
        rw [AtHead.render_read h.keyword hspelled.1]
        simp [hopen]
    _ = header := by rw [← h.tokens, textOf_tokenize]

theorem tokenize_in_group (h : OpensGroup header keyword params opening)
    (hs : FitsBlock s closing) :
    tokenize (header ++ (s ++ ['}'])) = keyword :: (params ++ opening ::
      (mapSpans (Span.after header) (tokenize s) ++ [closing.mapSpan (Span.after header)])) := by
  rw [tokenize_append (h.stand _), h.tokens, hs.tokens]
  simp

/-- A text with balanced braces is read in a block as it is read alone, at its own place. -/
theorem Stylesheet.parse_in_group (h : OpensGroup header keyword params opening)
    (hs : FitsBlock s closing) :
    ∃ head : AtHead, head.render ++ ['{'] = header ∧
      parse (header ++ (s ++ ['}'])) =
        [.group head (Item.mapSpansAll (Span.after header) (parse s))] := by
  have hdepth : Bracket.brace.depth 0 (mapSpans (Span.after header) (tokenize s)) = some 0 := by
    have hkinds : (mapSpans (Span.after header) (tokenize s)).map (·.kind) =
        (tokenize s).map (·.kind) := by simp [mapSpans]
    rw [Bracket.depth_of_kinds _ hkinds, hs.braces]
  have hblock : Outline.AtBlock keyword params opening
      (mapSpans (Span.after header) (tokenize s)) (closing.mapSpan (Span.after header)) :=
    ⟨h.keyword, h.params, h.opening, hdepth, hs.closing⟩
  have houtline := outline_of_atBlock hblock []
  rw [List.append_nil, if_pos h.grouping, ← tokenize_in_group h hs] at houtline
  refine ⟨AtHead.read keyword params (keyword.span.join (closing.mapSpan (Span.after header)).span),
    h.render_head _, ?_⟩
  rw [parse, houtline, Item.ofOutlines, Item.ofOutline,
    Item.ofOutlines_outline_mapSpans (Span.keepsJoin_after _), outline, Item.ofOutlines]
  rfl

/-- Flipping goes into a block as if what is in it stood alone. -/
theorem flip_in_group (h : OpensGroup header keyword params opening) (hs : FitsBlock s closing)
    (options : FlipOptions) :
    (flip (header ++ (s ++ ['}'])) options).css = header ++ ((flip s options).css ++ ['}']) ∧
      (flip (header ++ (s ++ ['}'])) options).diagnostics =
        (flip s options).diagnostics.map (Diagnostic.mapSpan (Span.after header)) := by
  obtain ⟨head, hhead, hparse⟩ := Stylesheet.parse_in_group h hs
  constructor
  · calc (flip (header ++ (s ++ ['}'])) options).css
        = head.render ++ '{' :: (Stylesheet.render (Stylesheet.flip options
            (Item.mapSpansAll (Span.after header) (Stylesheet.parse s))) ++ ['}']) := by
          simp [flip, hparse, Stylesheet.flip, Stylesheet.render, Item.flipAll, Item.flip,
            Item.renderAll, Item.render]
      _ = (head.render ++ ['{']) ++ ((flip s options).css ++ ['}']) := by
          rw [Stylesheet.render_flip_mapSpansAll]
          simp [flip]
      _ = header ++ ((flip s options).css ++ ['}']) := by rw [hhead]
  · calc (flip (header ++ (s ++ ['}'])) options).diagnostics
        = Stylesheet.advice options
            (Item.mapSpansAll (Span.after header) (Stylesheet.parse s)) := by
          simp [flip, hparse, Stylesheet.advice, Item.gatherAll, Item.gather]
      _ = (flip s options).diagnostics.map (Diagnostic.mapSpan (Span.after header)) := by
          rw [Stylesheet.advice_mapSpansAll (Span.isUnknown_after _)]
          rfl

end

theorem opensGroup_media : ∃ keyword params opening,
    OpensGroup "@media screen\x7b".toList keyword params opening := by
  refine ⟨⟨⟨.atKeyword, "@media".toList⟩, ⟨0, 6, 1, 1⟩⟩,
    [⟨⟨.whitespace, " ".toList⟩, ⟨6, 7, 1, 7⟩⟩, ⟨⟨.ident, "screen".toList⟩, ⟨7, 13, 1, 8⟩⟩],
    ⟨⟨.openBrace, "\x7b".toList⟩, ⟨13, 14, 1, 14⟩⟩, ?_, ?_, rfl, rfl, rfl⟩
  · decide +kernel
  · decide +kernel

/-- Flipping a text in the block of `@media screen` gives the flipped text in this block, and the
advice about it at its place there. -/
theorem flip_media_screen {s : Text} (hbraces : Bracket.brace.depth 0 (tokenize s) = some 0)
    (hclosing : ∃ closing : Token, closing.kind = .closeBrace ∧
      tokenize (s ++ ['}']) = tokenize s ++ [closing]) (options : FlipOptions) :
    (flip ("@media screen\x7b".toList ++ s ++ ['}']) options).css =
        "@media screen\x7b".toList ++ (flip s options).css ++ ['}'] ∧
      (flip ("@media screen\x7b".toList ++ s ++ ['}']) options).diagnostics =
        (flip s options).diagnostics.map
          (Diagnostic.mapSpan (Span.after "@media screen\x7b".toList)) := by
  obtain ⟨keyword, params, opening, hheader⟩ := opensGroup_media
  obtain ⟨closing, hkind, htokens⟩ := hclosing
  rw [List.append_assoc, List.append_assoc]
  exact flip_in_group hheader ⟨hbraces, htokens, hkind⟩ options

/-- The statement at the end has no semicolon, in the block as by itself. -/
theorem flip_media_screen_import :
    (flip ("@media screen\x7b".toList ++ ".a\x7bfloat:left;display:inline\x7d@import x".toList ++
          ['}']) ⟨true, false, true, true⟩).css =
        "@media screen\x7b".toList ++
          (flip ".a\x7bfloat:left;display:inline\x7d@import x".toList
            ⟨true, false, true, true⟩).css ++ ['}'] ∧
      (flip ("@media screen\x7b".toList ++ ".a\x7bfloat:left;display:inline\x7d@import x".toList ++
          ['}']) ⟨true, false, true, true⟩).diagnostics =
        (flip ".a\x7bfloat:left;display:inline\x7d@import x".toList
          ⟨true, false, true, true⟩).diagnostics.map
            (Diagnostic.mapSpan (Span.after "@media screen\x7b".toList)) := by
  apply flip_media_screen
  · decide +kernel
  · exact ⟨⟨⟨.closeBrace, ['}']⟩, ⟨38, 39, 1, 39⟩⟩, rfl, by decide +kernel⟩

end StyleFlip
