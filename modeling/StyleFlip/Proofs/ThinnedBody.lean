import StyleFlip.Proofs.Reparse

/-!
# Bodies with parts left out

When some segments of a rule body are left out, the rest is read back as it was, but for two things:
blanks that come to stand side by side are read as one, and a block takes a semicolon that comes to
stand after it.
-/

namespace StyleFlip

/-! ### Every segment of a rule body is balanced -/

theorem brace_depth_of_segmentDepth {depth braces e f : Nat} {ts : List Token}
    (h : segmentDepth depth braces ts = some (e, f)) : Bracket.brace.depth braces ts = some f := by
  fun_induction segmentDepth depth braces ts with
  | case1 depth braces =>
      obtain ⟨-, rfl⟩ := Prod.mk.inj (Option.some.inj h)
      rfl
  | case2 => contradiction
  | case3 => contradiction
  | case4 depth braces t ts hgoes hclose hmany ih =>
      obtain ⟨n, rfl⟩ : ∃ n, braces = n + 1 := ⟨braces - 1, by omega⟩
      simpa [Bracket.depth, Bracket.closes, hclose] using ih h
  | case5 depth braces t ts hgoes hclose hopen ih =>
      simpa [Bracket.depth, Bracket.closes, Bracket.opens, hopen] using ih h
  | case6 depth braces t ts hgoes hclose hopen ih =>
      simpa [Bracket.depth, Bracket.closes, Bracket.opens, hclose, hopen] using ih h

theorem brace_depth_closeBrace {t : Token} (h : t.kind = .closeBrace) (n : Nat) :
    Bracket.brace.depth n [t] = if n = 0 then none else some (n - 1) := by
  cases n <;> simp [Bracket.depth, Bracket.closes, h]

theorem brace_depth_other {t : Token} (hopen : t.kind ≠ .openBrace) (hclose : t.kind ≠ .closeBrace)
    (n : Nat) : Bracket.brace.depth n [t] = some n := by
  simp [Bracket.depth, Bracket.closes, Bracket.opens, hopen, hclose]

/-- A block of a rule body is closed where the first brace in it is. -/
theorem Segment.one_brace_of_block {before rest : List Token} {close : Token} {e b n : Nat}
    (hdepth : segmentDepth 0 0 before = some (e, b)) (hbraces : b ≤ 1)
    (hclose : close.kind = .closeBrace)
    (h : Bracket.brace.depth 0 (before ++ close :: rest) = some n) : b = 1 := by
  rw [← List.singleton_append, Bracket.depth_append, brace_depth_of_segmentDepth hdepth,
    Option.bind_some, Bracket.depth_append, brace_depth_closeBrace hclose] at h
  by_cases hb : b = 0
  · simp [hb] at h
  · omega

theorem Segment.Fits.balanced {segment : Segment} {rest : List Token} (h : segment.Fits rest)
    (hdepth : Bracket.brace.depth 0 (segment.tokens ++ rest) = some 0) :
    Bracket.brace.depth 0 segment.tokens = some 0 := by
  cases h with
  | whitespace hkind => exact brace_depth_other (by simp [hkind]) (by simp [hkind]) 0
  | comment hkind => exact brace_depth_other (by simp [hkind]) (by simp [hkind]) 0
  | ended hstarts hinner hstop =>
      simp only [tokens, Option.toList_some]
      rw [Bracket.depth_append, brace_depth_of_segmentDepth hinner, Option.bind_some]
      exact brace_depth_other (by simp [hstop]) (by simp [hstop]) 0
  | @blockEnded before close stop e b hstarts hbefore hbraces hclose hstop =>
      simp only [tokens, Option.toList_some, List.append_assoc, List.singleton_append] at hdepth ⊢
      obtain rfl := one_brace_of_block hbefore hbraces hclose hdepth
      rw [Bracket.depth_append, brace_depth_of_segmentDepth hbefore, Option.bind_some,
        ← List.singleton_append, Bracket.depth_append, brace_depth_closeBrace hclose]
      exact brace_depth_other (by simp [hstop]) (by simp [hstop]) 0
  | @block before close e b hstarts hbefore hbraces hclose hrest =>
      simp only [tokens, Option.toList_none, List.append_nil, List.append_assoc,
        List.singleton_append] at hdepth ⊢
      obtain rfl := one_brace_of_block hbefore hbraces hclose hdepth
      rw [Bracket.depth_append, brace_depth_of_segmentDepth hbefore, Option.bind_some,
        brace_depth_closeBrace hclose]
      rfl
  | last hrest _ _ => simpa [hrest] using hdepth

theorem ProperSegments.balanced {ss : List Segment} (h : ProperSegments ss)
    (hdepth : Bracket.brace.depth 0 (ss.flatMap Segment.tokens) = some 0) :
    ∀ segment ∈ ss, Bracket.brace.depth 0 segment.tokens = some 0 := by
  induction ss with
  | nil => simp
  | cons segment ss ih =>
      obtain ⟨hfits, hproper⟩ := h
      rw [List.flatMap_cons] at hdepth
      have hfirst := hfits.balanced hdepth
      rw [Bracket.depth_append, hfirst, Option.bind_some] at hdepth
      intro s hs
      rcases List.mem_cons.mp hs with rfl | hs
      · exact hfirst
      · exact ih hproper hdepth s hs

theorem brace_depth_flatMap {ss : List Segment}
    (h : ∀ segment ∈ ss, Bracket.brace.depth 0 segment.tokens = some 0) :
    Bracket.brace.depth 0 (ss.flatMap Segment.tokens) = some 0 := by
  induction ss with
  | nil => rfl
  | cons segment ss ih =>
      rw [List.flatMap_cons, Bracket.depth_append, h segment (by simp), Option.bind_some]
      exact ih fun s hs => h s (by simp [hs])

/-! ### Reading back the segments that are left -/

/-- The blank that two blanks make together. -/
def Token.joinBlank (t u : Token) : Token := ⟨⟨.whitespace, t.text ++ u.text⟩, t.span⟩

theorem Token.standsBefore_joinBlank {t u : Token} {r r' : Text} (ht : t.kind = .whitespace)
    (hu : u.kind = .whitespace) (hstand : t.toLexeme.StandsBefore r)
    (hstand' : u.toLexeme.StandsBefore r') : (t.joinBlank u).toLexeme.StandsBefore r' := by
  obtain ⟨⟨kind, x⟩, span⟩ := t
  obtain ⟨⟨kind', y⟩, span'⟩ := u
  subst ht hu
  obtain ⟨hx, hxspace, -⟩ := Lexeme.standsBefore_whitespace_iff.mp hstand
  obtain ⟨-, hyspace, hstop⟩ := Lexeme.standsBefore_whitespace_iff.mp hstand'
  refine Lexeme.standsBefore_whitespace_iff.mpr ⟨by simp [hx], ?_, hstop⟩
  intro c hc
  exact (List.mem_append.mp hc).elim (hxspace c) (hyspace c)

theorem Lexeme.StandsBefore.not_startsWith_isSpace {l : Lexeme} {r : Text} (h : l.StandsBefore r)
    (hkind : l.kind ≠ .whitespace) : Lexer.startsWith Lexer.isSpace (l.text ++ r) = false := by
  obtain ⟨c, tail, htext, hlexeme⟩ := h
  rw [htext, List.cons_append, Lexer.startsWith, Bool.eq_false_iff]
  intro hspace
  rw [Lexer.lexeme, if_pos hspace] at hlexeme
  exact hkind (congrArg Prod.fst hlexeme).symm

/-- A blank stands before tokens that do not start with another blank. -/
theorem Stand.cons_blank {t : Token} {ts : List Token} {r r' : Text} (ht : t.kind = .whitespace)
    (hstand : t.toLexeme.StandsBefore r') (hrest : Stand ts r)
    (hfirst : ∀ u more, ts = u :: more → u.kind ≠ .whitespace)
    (hr : ts = [] → Lexer.startsWith Lexer.isSpace r = false) : Stand (t :: ts) r := by
  refine ⟨?_, hrest⟩
  obtain ⟨⟨kind, x⟩, span⟩ := t
  subst ht
  obtain ⟨hx, hspace, -⟩ := Lexeme.standsBefore_whitespace_iff.mp hstand
  refine Lexeme.standsBefore_whitespace_iff.mpr ⟨hx, hspace, ?_⟩
  cases ts with
  | nil => exact hr rfl
  | cons u more =>
      rw [textOf_cons, List.append_assoc]
      exact hrest.1.not_startsWith_isSpace (hfirst u more rfl)

namespace Segment

theorem Fits.tokens_ne_nil {segment : Segment} {rest : List Token} (h : segment.Fits rest) :
    segment.tokens ≠ [] := by
  obtain ⟨t, ts, htokens, -⟩ := front_eq_of_fits h
  simp [htokens]

/-- The segment ends in a token that stands before every text. -/
theorem Fits.stand {segment : Segment} {rest : List Token} (h : segment.Fits rest)
    (hblank : ∀ t, segment ≠ .whitespace t) (hlast : rest ≠ []) {r : Text} (hr : r ≠ [])
    (hstand : Stand segment.tokens r) (r' : Text) : Stand segment.tokens r' := by
  cases h with
  | @whitespace t hkind => exact absurd rfl (hblank t)
  | @comment t hkind => exact @Stand.of_last [] _ _ hstand (Or.inr ⟨hkind, hr⟩) r'
  | @ended inner stop hstarts hdepth hstop =>
      exact Stand.of_last hstand (Or.inl (by simp [hstop, Kind.sign?])) r'
  | @blockEnded before close stop e b hstarts hdepth hbraces hclose hstop =>
      exact Stand.of_last hstand (Or.inl (by simp [hstop, Kind.sign?])) r'
  | @block before close e b hstarts hdepth hbraces hclose hrest =>
      simp only [tokens, Option.toList_none, List.append_nil] at hstand ⊢
      exact hstand.of_last (Or.inl (by simp [hclose, Kind.sign?])) r'
  | last hrest _ _ => exact absurd hrest hlast

/-- The first token of a segment is a semicolon only when that is the whole segment. -/
theorem Fits.eq_of_semicolon {segment : Segment} {rest more : List Token} {t : Token}
    (h : segment.Fits rest) (htokens : segment.tokens = t :: more) (ht : t.kind = .semicolon) :
    segment = .content [] (some t) := by
  have hnone : ∀ inner, segmentDepth 0 0 (t :: inner) = none := by
    intro inner
    simp [segmentDepth, ht]
  cases h with
  | @whitespace u hkind =>
      obtain ⟨rfl, -⟩ := List.cons.inj htokens
      simp [hkind] at ht
  | @comment u hkind =>
      obtain ⟨rfl, -⟩ := List.cons.inj htokens
      simp [hkind] at ht
  | @ended inner stop hstarts hdepth hstop =>
      cases inner with
      | nil => obtain ⟨rfl, -⟩ := List.cons.inj htokens; rfl
      | cons u inner =>
          obtain ⟨rfl, -⟩ := List.cons.inj htokens
          simp [hnone] at hdepth
  | @blockEnded before close stop e b hstarts hdepth hbraces hclose hstop =>
      cases before with
      | nil =>
          obtain ⟨rfl, -⟩ := List.cons.inj htokens
          simp [hclose] at ht
      | cons u before =>
          obtain ⟨rfl, -⟩ := List.cons.inj htokens
          simp [hnone] at hdepth
  | @block before close e b hstarts hdepth hbraces hclose hrest =>
      cases before with
      | nil =>
          obtain ⟨rfl, -⟩ := List.cons.inj htokens
          simp [hclose] at ht
      | cons u before =>
          obtain ⟨rfl, -⟩ := List.cons.inj htokens
          simp [hnone] at hdepth
  | @last inner hrest hstarts hdepth =>
      cases inner with
      | nil => simp [tokens] at htokens
      | cons u inner =>
          obtain ⟨rfl, -⟩ := List.cons.inj htokens
          simp [hnone] at hdepth

end Segment

theorem any_openBrace_of_depth {n m : Nat} {ts : List Token} (h : Bracket.brace.depth n ts = some m)
    (hlt : n < m) : ts.any (·.kind == .openBrace) = true := by
  fun_induction Bracket.depth .brace n ts with
  | case1 n => simp at h; omega
  | case2 => contradiction
  | case3 t ts hcloses n ih => simp [ih h (by omega)]
  | case4 n t ts hcloses hopens ih =>
      have hkind : t.kind = .openBrace := by simpa [Bracket.opens] using hopens
      simp [hkind]
  | case5 n t ts hcloses hopens ih => simp [ih h hlt]

theorem BodyItem.ofSegment_of_openBrace {inner : List Token} (semicolon : Option Token)
    (h : inner.any (·.kind == .openBrace) = true) :
    ofSegment (.content inner semicolon) =
      .raw ⟨textOf (inner ++ semicolon.toList), spanOf (inner ++ semicolon.toList)⟩ := by
  simp [ofSegment, Segment.declaration?, h]

/-- Before the text `r`, the segments `ps` are read back as `qs`. -/
structure ReadBack (r : Text) (ps qs : List Segment) : Prop where
  proper : ProperSegments qs
  balanced : ∀ segment ∈ qs, Bracket.brace.depth 0 segment.tokens = some 0
  stand : Stand (qs.flatMap Segment.tokens) r
  glued : Body.Glued (ps.map BodyItem.ofSegment) (qs.map BodyItem.ofSegment)

namespace ReadBack

variable {r : Text} {ps qs : List Segment}

theorem cons (h : ReadBack r ps qs) {segment : Segment}
    (hfits : segment.Fits (qs.flatMap Segment.tokens))
    (hbalanced : Bracket.brace.depth 0 segment.tokens = some 0)
    (hstand : Stand segment.tokens (textOf (qs.flatMap Segment.tokens) ++ r)) :
    ReadBack r (segment :: ps) (segment :: qs) where
  proper := ⟨hfits, h.proper⟩
  balanced := by
    intro s hs
    rcases List.mem_cons.mp hs with rfl | hs
    · exact hbalanced
    · exact h.balanced s hs
  stand := by
    rw [List.flatMap_cons, stand_append]
    exact ⟨hstand, h.stand⟩
  glued := .same rfl h.glued

theorem cons_blank (h : ReadBack r ps qs) {t : Token} {r' : Text} (ht : t.kind = .whitespace)
    (hr : Lexer.startsWith Lexer.isSpace r = false) (hstand : t.toLexeme.StandsBefore r') :
    ∃ qs', ReadBack r (.whitespace t :: ps) qs' := by
  have hbalanced : ∀ u : Token, u.kind = .whitespace →
      Bracket.brace.depth 0 (Segment.whitespace u).tokens = some 0 := by
    intro u hu
    exact brace_depth_other (by simp [hu]) (by simp [hu]) 0
  by_cases hblank : ∃ u more, qs = .whitespace u :: more
  · -- The blank takes the one after it.
    obtain ⟨u, more, rfl⟩ := hblank
    have hu : u.kind = .whitespace := by cases h.proper.1; assumption
    have hafter : Stand (u :: more.flatMap Segment.tokens) r := h.stand
    refine ⟨.whitespace (t.joinBlank u) :: more, ⟨.whitespace rfl, h.proper.2⟩, ?_, ?_, ?_⟩
    · intro s hs
      rcases List.mem_cons.mp hs with rfl | hs
      · exact hbalanced _ rfl
      · exact h.balanced s (List.mem_cons_of_mem _ hs)
    · exact ⟨Token.standsBefore_joinBlank ht hu hstand hafter.1, hafter.2⟩
    · exact .blank h.glued
  · refine ⟨.whitespace t :: qs, h.cons (.whitespace ht) (hbalanced t ht) ?_⟩
    have hstands : Stand (t :: qs.flatMap Segment.tokens) r := by
      refine Stand.cons_blank ht hstand h.stand ?_ (fun _ => hr)
      intro u more hfirst hu
      cases qs with
      | nil => contradiction
      | cons segment qs =>
          obtain ⟨v, vs, htokens, hfront⟩ := Segment.front_eq_of_fits h.proper.1
          rw [List.flatMap_cons, htokens] at hfirst
          obtain ⟨rfl, -⟩ := List.cons.inj hfirst
          simp only [Segment.front, hu] at hfront
          exact hblank ⟨v, qs, by rw [(Prod.mk.inj hfront).1]⟩
    exact ⟨hstands.1, trivial⟩

theorem cons_block (h : ReadBack r ps qs) {before : List Token} {close : Token} {e b : Nat}
    (hstarts : StartsContent (before ++ [close]))
    (hdepth : segmentDepth 0 0 before = some (e, b)) (hbraces : b ≤ 1)
    (hclose : close.kind = .closeBrace)
    (hbalanced : Bracket.brace.depth 0 (before ++ [close]) = some 0)
    (hstand : ∀ r', Stand (before ++ [close]) r') :
    ∃ qs', ReadBack r (.content (before ++ [close]) none :: ps) qs' := by
  have hopen : (before ++ [close]).any (·.kind == .openBrace) = true := by
    have hone := @Segment.one_brace_of_block _ [] _ _ _ _ hdepth hbraces hclose hbalanced
    have hbefore := any_openBrace_of_depth (brace_depth_of_segmentDepth hdepth) (by omega)
    rw [List.any_append, hbefore, Bool.true_or]
  by_cases hsemicolon : ∃ stop more, qs = .content [] (some stop) :: more
  · -- The block takes the semicolon after it.
    obtain ⟨stop, more, rfl⟩ := hsemicolon
    have hstop : stop.kind = .semicolon := h.proper.1.semicolon_kind
    refine ⟨.content (before ++ [close]) (some stop) :: more,
      ⟨.blockEnded hstarts hdepth hbraces hclose hstop, h.proper.2⟩, ?_, ?_, ?_⟩
    · intro s hs
      rcases List.mem_cons.mp hs with rfl | hs
      · simp only [Segment.tokens, Option.toList_some]
        rw [Bracket.depth_append, hbalanced, Option.bind_some]
        exact brace_depth_other (by simp [hstop]) (by simp [hstop]) 0
      · exact h.balanced s (List.mem_cons_of_mem _ hs)
    · have hafter : Stand (stop :: more.flatMap Segment.tokens) r := h.stand
      simp only [List.flatMap_cons, Segment.tokens, Option.toList_some]
      rw [List.append_assoc, stand_append]
      exact ⟨hstand _, hafter⟩
    · rw [List.map_cons, List.map_cons, BodyItem.ofSegment_of_openBrace none hopen,
        BodyItem.ofSegment_of_openBrace (some stop) hopen]
      refine .raw ?_ h.glued
      simp
  · refine ⟨.content (before ++ [close]) none :: qs, h.cons (.block hstarts hdepth hbraces hclose ?_)
      (by simpa [Segment.tokens] using hbalanced) (by simpa [Segment.tokens] using hstand _)⟩
    intro t more hfirst ht
    cases qs with
    | nil => contradiction
    | cons segment qs =>
        obtain ⟨u, us, htokens, -⟩ := Segment.front_eq_of_fits h.proper.1
        rw [List.flatMap_cons, htokens] at hfirst
        obtain ⟨rfl, -⟩ := List.cons.inj hfirst
        exact hsemicolon ⟨u, qs, by rw [h.proper.1.eq_of_semicolon htokens ht]⟩

end ReadBack

/-- Whatever segments of a rule body are left out, the rest is read back. -/
theorem exists_readBack {ss ps : List Segment} (hsub : ps.Sublist ss) (hproper : ProperSegments ss)
    (hbalanced : ∀ segment ∈ ss, Bracket.brace.depth 0 segment.tokens = some 0) {r : Text}
    (hr : r ≠ []) (hspace : Lexer.startsWith Lexer.isSpace r = false)
    (hstand : Stand (ss.flatMap Segment.tokens) r) : ∃ qs, ReadBack r ps qs := by
  induction hsub with
  | slnil => exact ⟨[], trivial, by simp, trivial, .nil⟩
  | @cons ps ss segment hsub ih =>
      rw [List.flatMap_cons, stand_append] at hstand
      exact ih hproper.2 (fun s hs => hbalanced s (List.mem_cons_of_mem _ hs)) hstand.2
  | @cons_cons ps ss segment hsub ih =>
      obtain ⟨hfits, hproper⟩ := hproper
      rw [List.flatMap_cons, stand_append] at hstand
      obtain ⟨hfirst, hrest⟩ := hstand
      obtain ⟨qs, hback⟩ := ih hproper (fun s hs => hbalanced s (List.mem_cons_of_mem _ hs)) hrest
      have hsegment := hbalanced segment (by simp)
      have hafter : textOf (ss.flatMap Segment.tokens) ++ r ≠ [] := by simp [hr]
      by_cases hlast : ss.flatMap Segment.tokens = []
      · -- Nothing comes after the segment.
        have hnil : ss = [] := by
          cases ss with
          | nil => rfl
          | cons s ss =>
              rw [List.flatMap_cons, List.append_eq_nil_iff] at hlast
              exact absurd hlast.1 hproper.1.tokens_ne_nil
        subst hnil
        obtain rfl := List.sublist_nil.mp hsub
        have hempty : ReadBack r [] [] := ⟨trivial, by simp, trivial, .nil⟩
        exact ⟨[segment], hempty.cons hfits hsegment hfirst⟩
      by_cases hblank : ∃ t, segment = .whitespace t
      · obtain ⟨t, rfl⟩ := hblank
        have ht : t.kind = .whitespace := by cases hfits; assumption
        exact hback.cons_blank ht hspace hfirst.1
      have hsealed : ∀ r', Stand segment.tokens r' :=
        hfits.stand (fun t heq => hblank ⟨t, heq⟩) hlast hafter hfirst
      cases hfits with
      | whitespace => exact absurd ⟨_, rfl⟩ hblank
      | comment hkind => exact ⟨_, hback.cons (.comment hkind) hsegment (hsealed _)⟩
      | ended hstarts hdepth hstop =>
          exact ⟨_, hback.cons (.ended hstarts hdepth hstop) hsegment (hsealed _)⟩
      | blockEnded hstarts hdepth hbraces hclose hstop =>
          exact ⟨_, hback.cons (.blockEnded hstarts hdepth hbraces hclose hstop) hsegment
            (hsealed _)⟩
      | block hstarts hdepth hbraces hclose hrest =>
          simp only [Segment.tokens, Option.toList_none, List.append_nil] at hsegment hsealed
          exact hback.cons_block hstarts hdepth hbraces hclose hsegment hsealed
      | last hrest _ _ => exact absurd hrest hlast

end StyleFlip
