import StyleFlip.Proofs.LeadingText
import StyleFlip.Proofs.Rebasing

/-!
# Texts one after the other

A rule, an at-rule with a block and a statement with its semicolon end by themselves: nothing that
comes later belongs to them or is guarded by a marker before them. If the last item of a text is one
of these, another text after it is read by itself, so the flipped text of both is the flipped texts
one after the other (`Stylesheet.parse_append`).
-/

namespace StyleFlip

/-- An item that ends by itself and not because something else comes or nothing is left. -/
def Item.isClosed : Item → Bool
  | .rule _ => true
  | .statement _ semicolon => semicolon
  | .verbatim _ _ => true
  | .group _ _ => true
  | _ => false

theorem Item.role_of_isClosed {item : Item} (h : item.isClosed = true) : item.role = .target := by
  cases item <;> first | rfl | contradiction

/-! ### Outlines -/

namespace Outline

theorem Proper.of_isClosed {entry : Outline} {rest : List Token} (h : entry.Proper rest)
    (hclosed : (Item.ofOutline entry).isClosed = true) (rest' : List Token) :
    entry.Proper rest' := by
  cases entry with
  | whitespace => contradiction
  | comment => contradiction
  | raw => contradiction
  | statement keyword params semicolon =>
      cases semicolon with
      | none => contradiction
      | some stop => exact h
  | _ => exact h

/-- An entry that ends by itself ends in punctuation. -/
theorem Proper.exists_sign {entry : Outline} {rest : List Token} (h : entry.Proper rest)
    (hclosed : (Item.ofOutline entry).isClosed = true) :
    ∃ ts last, entry.tokens = ts ++ [last] ∧ last.kind.sign? ≠ none := by
  cases entry with
  | whitespace => contradiction
  | comment => contradiction
  | raw => contradiction
  | rule selector opening body closing =>
      refine ⟨selector ++ opening :: body, closing, by simp [tokens], ?_⟩
      rw [RuleBlock.closing h]
      decide
  | statement keyword params semicolon =>
      cases semicolon with
      | none => contradiction
      | some stop =>
          refine ⟨keyword :: params, stop, by simp [tokens], ?_⟩
          rw [h.2.2]
          decide
  | verbatim keyword params opening block closing =>
      refine ⟨keyword :: (params ++ opening :: block), closing, by simp [tokens], ?_⟩
      rw [h.2.closing]
      decide
  | group keyword params opening items closing =>
      refine ⟨keyword :: (params ++ opening :: tokensAll items), closing, by simp [tokens], ?_⟩
      rw [h.2.1.closing]
      decide

theorem follows_append {ts : List Token} (h : ts ≠ []) (rest : List Token) :
    Follows ts (ts ++ rest) := by
  obtain ⟨t, ts, rfl⟩ := List.exists_cons_of_ne_nil h
  refine ⟨by simp, ?_⟩
  rintro ⟨u, more, hfirst, hkind⟩
  obtain ⟨rfl, -⟩ := List.cons.inj hfirst
  exact ⟨t, ts ++ rest, rfl, hkind⟩

end Outline

open Outline

theorem proper_of_outline_eq {ts : List Token} {es : List Outline} {entry : Outline}
    (h : outline ts = es ++ [entry]) : entry.Proper [] := by
  have hproper := properAll_outline ts
  rw [h] at hproper
  exact hproper.of_append.1

/-- What comes after an entry that ends by itself is read by itself. -/
theorem outline_append {a : List Token} {es : List Outline} {entry : Outline}
    (h : outline a = es ++ [entry]) (hclosed : (Item.ofOutline entry).isClosed = true)
    (b : List Token) : outline (a ++ b) = outline a ++ outline b := by
  have hproper := properAll_outline a
  have hentry := proper_of_outline_eq h
  have hfollows : Follows (tokensAll [entry]) (tokensAll (entry :: outline b)) := by
    simpa [tokensAll] using follows_append hentry.tokens_ne_nil (tokensAll (outline b))
  have hjoined : ProperAll (es ++ entry :: outline b) := by
    rw [h] at hproper
    exact hproper.append_of_follows hfollows ⟨hentry.of_isClosed hclosed _, properAll_outline b⟩
  have htokens : a ++ b = tokensAll (es ++ entry :: outline b) := by
    have hfront : a = tokensAll (es ++ [entry]) := by rw [← h, tokensAll_outline]
    rw [hfront]
    simp [tokensAll, tokensAll_outline]
  rw [htokens, outline_tokensAll _ hjoined, h, List.append_assoc, List.singleton_append]

/-! ### Stylesheets -/

namespace Item

theorem guardAfter_of_getLast? {items : List Item} {item : Item} (h : items.getLast? = some item)
    (hrole : item.role = .target) (guarded : Bool) : guardAfter guarded items = false := by
  obtain ⟨before, rfl⟩ := List.getLast?_eq_some_iff.mp h
  simp [guardAfter, hrole, Role.guardNext]

end Item

namespace Stylesheet

/-- A text after an item that ends by itself is read as it is read alone, at its own place. -/
theorem parse_append {a : Text} {item : Item} (h : (parse a).getLast? = some item)
    (hclosed : item.isClosed = true) (b : Text) :
    parse (a ++ b) = parse a ++ Item.mapSpansAll (Span.after a) (parse b) := by
  obtain ⟨es, entry, hentry, rfl⟩ : ∃ es entry, outline (tokenize a) = es ++ [entry] ∧
      Item.ofOutline entry = item := by
    rw [parse, Item.ofOutlines_eq_map, List.getLast?_map, Option.map_eq_some_iff] at h
    obtain ⟨entry, hlast, hitem⟩ := h
    obtain ⟨es, hes⟩ := List.getLast?_eq_some_iff.mp hlast
    exact ⟨es, entry, hes, hitem⟩
  have hstand : Stand (tokenize a) b := by
    obtain ⟨ts, last, htokens, hsign⟩ := (proper_of_outline_eq hentry).exists_sign hclosed
    have hends : tokenize a = (tokensAll es ++ ts) ++ [last] := by
      rw [← tokensAll_outline (tokenize a), hentry]
      simp [tokensAll, htokens]
    have hstand := stand_tokenize a
    rw [hends] at hstand ⊢
    exact hstand.of_last (.inl hsign) b
  rw [parse, tokenize_append hstand, outline_append hentry hclosed, Item.ofOutlines_append,
    Item.ofOutlines_outline_mapSpans (Span.keepsJoin_after _)]
  rfl

end Stylesheet

/-- Flipping two texts one after the other, where the first ends with an item that ends by itself,
gives the flipped texts one after the other, and the advice about both. -/
theorem flip_append_of_isClosed {a : Text}
    (h : (Stylesheet.parse a).getLast?.any Item.isClosed = true) (b : Text)
    (options : FlipOptions) :
    (flip (a ++ b) options).css = (flip a options).css ++ (flip b options).css ∧
      (flip (a ++ b) options).diagnostics = (flip a options).diagnostics ++
        (flip b options).diagnostics.map (Diagnostic.mapSpan (Span.after a)) := by
  obtain ⟨item, hlast, hclosed⟩ := (Option.any_eq_true _ _).mp h
  have hguard := Item.guardAfter_of_getLast? hlast (Item.role_of_isClosed hclosed) false
  have hparse := Stylesheet.parse_append hlast hclosed b
  constructor
  · calc (flip (a ++ b) options).css
        = Stylesheet.render (Stylesheet.flip options (Stylesheet.parse a)) ++
            Stylesheet.render (Stylesheet.flip options
              (Item.mapSpansAll (Span.after a) (Stylesheet.parse b))) := by
          simp only [flip, hparse, Stylesheet.flip, Item.flipAll_append, hguard, Stylesheet.render,
            Item.renderAll_append]
      _ = (flip a options).css ++ (flip b options).css := by
          rw [Stylesheet.render_flip_mapSpansAll]
          rfl
  · calc (flip (a ++ b) options).diagnostics
        = Stylesheet.advice options (Stylesheet.parse a) ++
            Stylesheet.advice options
              (Item.mapSpansAll (Span.after a) (Stylesheet.parse b)) := by
          simp only [flip, hparse, Stylesheet.advice, Item.gatherAll_append, hguard]
          split <;> rfl
      _ = (flip a options).diagnostics ++
            (flip b options).diagnostics.map (Diagnostic.mapSpan (Span.after a)) := by
          rw [Stylesheet.advice_mapSpansAll (Span.isUnknown_after _)]
          rfl

theorem flip_append_import :
    (flip ("@import x;".toList ++ "\n.a\x7bfloat:left;display:inline\x7d\x7d".toList)
          ⟨true, false, true, true⟩).css =
        (flip "@import x;".toList ⟨true, false, true, true⟩).css ++
          (flip "\n.a\x7bfloat:left;display:inline\x7d\x7d".toList ⟨true, false, true, true⟩).css ∧
      (flip ("@import x;".toList ++ "\n.a\x7bfloat:left;display:inline\x7d\x7d".toList)
          ⟨true, false, true, true⟩).diagnostics =
        (flip "@import x;".toList ⟨true, false, true, true⟩).diagnostics ++
          (flip "\n.a\x7bfloat:left;display:inline\x7d\x7d".toList
            ⟨true, false, true, true⟩).diagnostics.map
              (Diagnostic.mapSpan (Span.after "@import x;".toList)) :=
  flip_append_of_isClosed (by decide +kernel) _ _

end StyleFlip
