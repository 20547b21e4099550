import StyleFlip.Proofs.MirroredSheet

/-!
# Braces in rule bodies

The end of a rule body is found by counting braces alone, while a segment of the body is cut off by
a scan that counts parentheses and braces apart and lets neither count fall below zero. Both agree
about braces: each segment closes the blocks it opens and no others, so its count of braces is never
at zero when it meets a `}`.
-/

namespace StyleFlip

/-- An identifier, and a colon after it with nothing but blanks and comments between them. -/
def StartsDeclaration (ts : List Token) : Prop :=
  ∃ property gap colon rest, ts = property :: (gap ++ colon :: rest) ∧ property.kind = .ident ∧
    (∀ t ∈ gap, t.isTrivia = true) ∧ colon.kind = .colon

theorem Declaration.exists_read?_iff {ts : List Token} {semicolon : Bool} :
    (∃ d, read? ts semicolon = some d) ↔ StartsDeclaration ts := by
  constructor
  · rintro ⟨d, hread⟩
    obtain ⟨property, gap, colon, blanks, value, rfl, hopening, -⟩ := exists_opening hread
    exact ⟨property, gap, colon, _, rfl, hopening.property, hopening.gap, hopening.colon⟩
  · rintro ⟨property, gap, colon, rest, rfl, hproperty, hgap, hcolon⟩
    have hstop : ¬ colon.isTrivia = true := by simp [Token.isTrivia, hcolon]
    rw [read?, if_pos hproperty, List.dropWhile_append_of_pos hgap,
      List.dropWhile_cons_of_neg hstop]
    dsimp only
    rw [if_pos hcolon]
    exact ⟨_, rfl⟩

namespace Segment

variable {inner rest : List Token} {semicolon : Option Token}

theorem Fits.inner_balanced (h : (content inner semicolon).Fits rest)
    (hbalanced : Bracket.brace.depth 0 (content inner semicolon).tokens = some 0) :
    Bracket.brace.depth 0 inner = some 0 := by
  cases semicolon with
  | none => simpa [tokens] using hbalanced
  | some stop =>
      have hstop := h.semicolon_kind
      rw [tokens, Option.toList_some, Bracket.depth_append] at hbalanced
      obtain ⟨n, hinner, hlast⟩ := Option.bind_eq_some_iff.mp hbalanced
      rw [brace_depth_other (by simp [hstop]) (by simp [hstop])] at hlast
      rw [hinner, hlast]

/-- No segment ends before its last token. -/
theorem Fits.exists_counters (h : (content inner semicolon).Fits rest) {front tail : List Token}
    {t : Token} (hinner : inner = front ++ t :: tail) :
    ∃ parens braces, segmentDepth 0 0 front = some (parens, braces) := by
  have hfront : ∀ run more : List Token, front ++ more = run → (segmentDepth 0 0 run).isSome →
      ∃ parens braces, segmentDepth 0 0 front = some (parens, braces) := by
    rintro run more rfl hrun
    obtain ⟨counters, hcounters⟩ := Option.isSome_iff_exists.mp hrun
    rw [segmentDepth_append] at hcounters
    obtain ⟨⟨parens, braces⟩, hdepth, -⟩ := Option.bind_eq_some_iff.mp hcounters
    exact ⟨parens, braces, hdepth⟩
  -- A segment that ends in a brace goes on up to that brace.
  have hblock : ∀ before close, inner = before ++ [close] → (segmentDepth 0 0 before).isSome →
      ∃ parens braces, segmentDepth 0 0 front = some (parens, braces) := by
    intro before close hclose hbefore
    have hlast := congrArg List.dropLast (hinner.symm.trans hclose)
    rw [List.dropLast_append_of_ne_nil (by simp), List.dropLast_concat] at hlast
    exact hfront before _ hlast hbefore
  cases h with
  | ended _ hdepth _ => exact hfront inner _ hinner.symm (by simp [hdepth])
  | blockEnded _ hdepth _ _ _ => exact hblock _ _ rfl (by simp [hdepth])
  | block _ hdepth _ _ _ => exact hblock _ _ rfl (by simp [hdepth])
  | last _ _ hdepth => exact hfront inner _ hinner.symm hdepth

/-- What holds of a segment between blanks and comments. It is balanced, and the count of braces
that cuts it off is above zero at each of its closing braces. It is read as a declaration if it has
no braces and starts like one, and kept as raw text otherwise. -/
structure KeepsBraces (inner : List Token) (semicolon : Option Token) : Prop where
  balanced : Bracket.brace.depth 0 inner = some 0
  counter : ∀ front close tail, inner = front ++ close :: tail → close.kind = .closeBrace →
    ∃ parens braces, segmentDepth 0 0 front = some (parens, braces + 1)
  declaration : (∃ d, BodyItem.ofSegment (.content inner semicolon) = .declaration d) ↔
    NoBraces inner ∧ StartsDeclaration inner
  raw : ¬ (NoBraces inner ∧ StartsDeclaration inner) →
    BodyItem.ofSegment (.content inner semicolon) =
      .raw ⟨textOf (inner ++ semicolon.toList), spanOf (inner ++ semicolon.toList)⟩

theorem exists_declaration?_iff (h : (content inner semicolon).Fits rest)
    (hbalanced : Bracket.brace.depth 0 (content inner semicolon).tokens = some 0) :
    (∃ d, (content inner semicolon).declaration? = some d) ↔
      NoBraces inner ∧ StartsDeclaration inner := by
  constructor
  · rintro ⟨d, hd⟩
    obtain ⟨hopen, hread⟩ := declaration?_content hd
    obtain ⟨-, hdepth, -⟩ := h.of_declaration? hd hbalanced
    exact ⟨noBraces_of_segmentDepth hdepth hopen, Declaration.exists_read?_iff.mp ⟨d, hread⟩⟩
  · rintro ⟨hbraces, hstarts⟩
    have hopen : ¬ inner.any (·.kind == .openBrace) = true := by
      intro hany
      obtain ⟨t, ht, hkind⟩ := List.any_eq_true.mp hany
      exact (hbraces t ht).1 (by simpa using hkind)
    rw [declaration?, if_neg hopen]
    exact Declaration.exists_read?_iff.mpr hstarts

theorem Fits.keepsBraces (h : (content inner semicolon).Fits rest)
    (hbalanced : Bracket.brace.depth 0 (content inner semicolon).tokens = some 0) :
    KeepsBraces inner semicolon where
  balanced := h.inner_balanced hbalanced
  counter := by
    intro front close tail hinner hclose
    obtain ⟨parens, braces, hcounters⟩ := h.exists_counters hinner
    have hdepth := h.inner_balanced hbalanced
    rw [hinner, ← List.singleton_append, Bracket.depth_append,
      brace_depth_of_segmentDepth hcounters, Option.bind_some, Bracket.depth_append,
      brace_depth_closeBrace hclose] at hdepth
    -- At zero the brace would close the block around the segment.
    cases braces with
    | zero => simp at hdepth
    | succ braces => exact ⟨parens, braces, hcounters⟩
  declaration := by
    rw [← exists_declaration?_iff h hbalanced, BodyItem.ofSegment]
    split <;> simp_all
  raw := by
    rw [← exists_declaration?_iff h hbalanced, BodyItem.ofSegment]
    intro hnone
    split
    · rename_i d hd
      exact absurd ⟨d, hd⟩ hnone
    · rfl

end Segment

theorem ProperSegments.keepsBraces {ss : List Segment} (h : ProperSegments ss)
    (hbalanced : ∀ segment ∈ ss, Bracket.brace.depth 0 segment.tokens = some 0)
    {inner : List Token} {semicolon : Option Token} (hmem : .content inner semicolon ∈ ss) :
    Segment.KeepsBraces inner semicolon := by
  induction ss with
  | nil => contradiction
  | cons segment ss ih =>
      obtain ⟨hfits, hproper⟩ := h
      rcases List.mem_cons.mp hmem with rfl | hmem
      · exact hfits.keepsBraces (hbalanced _ List.mem_cons_self)
      · exact ih hproper (fun s hs => hbalanced s (List.mem_cons_of_mem segment hs)) hmem

/-- The tokens between the braces of a rule are balanced, and so is every segment that they are cut
into. -/
theorem rule_segments_keep_braces (css : Text) (r : Rule)
    (hr : r ∈ (Stylesheet.parse css).rules) :
    ∃ before selector opening body closing after,
      tokenize css = before ++ (selector ++ opening :: (body ++ [closing]) ++ after) ∧
      opening.kind = .openBrace ∧ closing.kind = .closeBrace ∧
      r = Rule.read selector opening body closing ∧
      Bracket.brace.depth 0 body = some 0 ∧
      (segments body).flatMap Segment.tokens = body ∧
      r.body = (segments body).map BodyItem.ofSegment ∧
      ∀ inner semicolon, .content inner semicolon ∈ segments body →
        Segment.KeepsBraces inner semicolon := by
  obtain ⟨before, selector, opening, body, closing, after, htokens, hblock, rfl⟩ :=
    (properAll_outline (tokenize css)).exists_rule hr
  rw [tokensAll_outline] at htokens
  have hwhole := flatMap_tokens_segments body
  have hproper := properSegments_segments body
  have hbalanced := hproper.balanced (by rw [hwhole, hblock.body])
  exact ⟨before, selector, opening, body, closing, after, htokens, hblock.opening, hblock.closing,
    rfl, hblock.body, hwhole, rfl, fun _ _ hmem => hproper.keepsBraces hbalanced hmem⟩

/-- A body with a nested rule, an unclosed parenthesis in front of a block, a hack and a lone
semicolon. -/
theorem rule_segments_keep_braces_nested :
    ∃ body, (segments body).length = 6 ∧ Bracket.brace.depth 0 body = some 0 ∧
      ∀ inner semicolon, .content inner semicolon ∈ segments body →
        Segment.KeepsBraces inner semicolon := by
  have hsome : (Stylesheet.parse
      "a\x7b&:hover\x7bcolor:red;\x7d;float:left;b(\x7bc\x7d *zoom:1;;\x7d".toList).rules.any
      (fun r => r.body.length = 6) = true := by
    decide +kernel
  obtain ⟨r, hr, hlength⟩ := List.any_eq_true.mp hsome
  obtain ⟨-, -, -, body, -, -, -, -, -, -, hbalanced, -, hitems, hkeeps⟩ :=
    rule_segments_keep_braces _ r hr
  refine ⟨body, ?_, hbalanced, hkeeps⟩
  rw [← List.length_map (f := BodyItem.ofSegment), ← hitems]
  exact of_decide_eq_true hlength

end StyleFlip
