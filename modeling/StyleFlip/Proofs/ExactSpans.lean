import StyleFlip.Proofs.ExactPlaces
import StyleFlip.Proofs.Rebasing
import StyleFlip.Proofs.ThinnedSheet

/-!
# The spans of a tree

The span of a piece of a stylesheet is put together from the spans of its first and its last token.
Tokens lie side by side, so this is the span of all text between them (`Run.spanOf_eq`). In a tree
that was read from a text, every rule, at-rule, comment, declaration and piece of raw text therefore
tells exactly where its text stands. Siblings stand in a row, and children within their parent.
-/

namespace StyleFlip

/-! ### Spans of texts -/

theorem Text.byteSize_pos {text : Text} (h : text ≠ []) : 0 < Text.byteSize text := by
  obtain ⟨c, rest, rfl⟩ := List.exists_cons_of_ne_nil h
  have hchar := c.utf8Size_pos
  rw [Text.byteSize]
  omega

theorem Position.offset_after_origin (text : Text) :
    (origin.after text).offset = Text.byteSize text := by
  rw [offset_after, origin, Nat.zero_add]

namespace Span

theorem join_self (s : Span) : s.join s = s := by
  unfold join
  split
  · rfl
  · simp

/-- The span from a text to a later one is the span of both and of what stands between them. -/
theorem join_ofText {p : Position} (h : p.Counted) (a b c : Text) :
    (ofText p a).join (ofText (p.after (a ++ b)) c) = ofText p (a ++ b ++ c) := by
  have hfirst := isUnknown_ofText h a
  have hlast := isUnknown_ofText (h.after (a ++ b)) c
  have hstart : (ofText p a).start ≤ (ofText (p.after (a ++ b)) c).start := by
    simp only [ofText, Position.offset_after]
    omega
  have hstop : (ofText p a).stop ≤ (ofText (p.after (a ++ b)) c).stop := by
    simp only [ofText, Position.offset_after, Text.byteSize_append]
    omega
  simp only [join, hfirst, hlast, Bool.false_eq_true, if_false, if_pos hstart,
    Nat.min_eq_left hstart, Nat.max_eq_right hstop]
  simp only [ofText, Position.after_append]

end Span

/-! ### Runs of tokens -/

theorem spanOf_singleton (t : Token) : spanOf [t] = t.span := Span.join_self t.span

theorem spanOf_cons_append (first last : Token) (inner : List Token) :
    spanOf (first :: (inner ++ [last])) = first.span.join last.span := by
  rw [spanOf, ← List.cons_append, List.getLast?_concat]
  rfl

theorem spanOf_atBlock (keyword opening closing : Token) (params block : List Token) :
    spanOf (keyword :: (params ++ opening :: (block ++ [closing]))) =
      keyword.span.join closing.span := by
  rw [← spanOf_cons_append keyword closing (params ++ opening :: block)]
  simp

/-- Each token tells where its text stands if the first one starts at the given position. -/
def Placed (p : Position) : List Token → Prop
  | [] => True
  | t :: ts => t.span = .ofText p t.text ∧ Placed (p.after t.text) ts

theorem placed_append {p : Position} {a b : List Token} :
    Placed p (a ++ b) ↔ Placed p a ∧ Placed (p.after (textOf a)) b := by
  induction a generalizing p with
  | nil => simp [Placed]
  | cons t a ih => rw [List.cons_append, Placed, ih, Placed, textOf_cons, Position.after_append,
      and_assoc]

theorem placed_place (p : Position) (ls : List Lexeme) : Placed p (place p ls) := by
  induction ls generalizing p with
  | nil => trivial
  | cons l ls ih => exact ⟨rfl, ih (p.after l.text)⟩

/-- A part of the tokens of `css`, which stands after the text `before`. -/
structure Run (css before : Text) (ts : List Token) : Prop where
  placed : Placed (Position.origin.after before) ts
  spelled : SpelledAll ts
  texts : ∀ t ∈ ts, t.text ≠ []
  inside : before ++ textOf ts <+: css

theorem run_tokenize (css : Text) : Run css [] (tokenize css) where
  placed := placed_place .origin (lexemes css)
  spelled := spelledAll_tokenize css
  texts := fun _ ht => text_ne_nil_of_mem_tokenize ht
  inside := by simp [textOf_tokenize]

namespace Run

variable {css before : Text}

theorem append {a b : List Token} (h : Run css before (a ++ b)) :
    Run css before a ∧ Run css (before ++ textOf a) b := by
  obtain ⟨hplaced, hspelled, htexts, hinside⟩ := h
  rw [placed_append, ← Position.after_append] at hplaced
  rw [spelledAll_append] at hspelled
  rw [List.forall_mem_append] at htexts
  rw [textOf_append, ← List.append_assoc] at hinside
  exact ⟨⟨hplaced.1, hspelled.1, htexts.1, (List.prefix_append _ _).trans hinside⟩,
    ⟨hplaced.2, hspelled.2, htexts.2, hinside⟩⟩

theorem textOf_ne_nil {ts : List Token} (h : Run css before ts) (hne : ts ≠ []) :
    textOf ts ≠ [] := by
  obtain ⟨t, rest, rfl⟩ := List.exists_cons_of_ne_nil hne
  simp [h.texts t (by simp)]

/-- The span of a run is the span of its text. -/
theorem spanOf_eq {ts : List Token} (h : Run css before ts) (hne : ts ≠ []) :
    spanOf ts = .ofText (Position.origin.after before) (textOf ts) := by
  obtain ⟨init, last, rfl⟩ : ∃ init last, ts = init ++ [last] :=
    ⟨ts.dropLast, ts.getLast hne, (List.dropLast_concat_getLast hne).symm⟩
  obtain ⟨hinit, hlast, -⟩ := placed_append.mp h.placed
  cases init with
  | nil => simpa [spanOf_singleton] using hlast
  | cons first init =>
      -- The last token stands behind the text of all others, so the join covers them too.
      have hcounted := Position.counted_origin.after before
      rw [List.cons_append, spanOf_cons_append, hinit.1, hlast, textOf_cons,
        Span.join_ofText hcounted]
      simp

end Run

/-! ### Passages in a row -/

/-- A piece of a tree that has a span: where it is said to stand and what it prints. -/
structure Passage where
  span : Span
  text : Text
deriving DecidableEq

/-- A declaration is taken without its semicolon. -/
def BodyItem.passage? : BodyItem → Option Passage
  | .declaration d => some ⟨d.span, d.core⟩
  | .comment c => some ⟨c.span, (BodyItem.comment c).render⟩
  | .raw r => some ⟨r.span, (BodyItem.raw r).render⟩
  | .whitespace _ => none

def Item.span? : Item → Option Span
  | .rule r => some r.span
  | .statement head _ => some head.span
  | .verbatim head _ => some head.span
  | .group head _ => some head.span
  | .comment c => some c.span
  | .raw r => some r.span
  | .whitespace _ => none

def Item.passage? (item : Item) : Option Passage := item.span?.map (⟨·, item.render⟩)

/-- The passages stand one after the other in a text that comes after `before`. -/
inductive Row : (before text : Text) → List Passage → Prop
  | nil (before text : Text) : Row before text []
  | gap {before text : Text} {passages : List Passage} (between : Text)
      (h : Row (before ++ between) text passages) : Row before (between ++ text) passages
  | passage {before text : Text} {p : Passage} {passages : List Passage}
      (hspan : p.span = .ofText (Position.origin.after before) p.text) (hne : p.text ≠ [])
      (h : Row (before ++ p.text) text passages) : Row before (p.text ++ text) (p :: passages)

namespace Row

variable {css before text : Text} {passages : List Passage}

theorem places (h : Row before text passages) (hinside : before ++ text <+: css) :
    ∀ p ∈ passages, p.span.Places css p.text := by
  induction h with
  | nil => simp
  | gap between _ ih =>
      rw [← List.append_assoc] at hinside
      exact ih hinside
  | @passage before text p passages hspan _ _ ih =>
      rw [← List.append_assoc] at hinside
      obtain ⟨after, rfl⟩ := hinside
      rw [List.forall_mem_cons]
      refine ⟨⟨before, text ++ after, by simp, hspan⟩, ih (List.prefix_append _ _)⟩

theorem within (h : Row before text passages) :
    ∀ p ∈ passages, Text.byteSize before ≤ p.span.start ∧ p.span.start < p.span.stop ∧
      p.span.stop ≤ Text.byteSize (before ++ text) := by
  induction h with
  | nil => simp
  | @gap before text passages between _ ih =>
      intro p hn
      have hrest := ih p hn
      simp only [Text.byteSize_append] at hrest ⊢
      omega
  | @passage before text p passages hspan hne _ ih =>
      rw [List.forall_mem_cons]
      constructor
      · have hpos := Text.byteSize_pos hne
        simp only [hspan, Span.ofText, ← Position.after_append, Position.offset_after_origin,
          Text.byteSize_append]
        omega
      · intro m hm
        have hrest := ih m hm
        simp only [Text.byteSize_append] at hrest ⊢
        omega

theorem pairwise (h : Row before text passages) :
    passages.Pairwise fun a b => a.span.stop ≤ b.span.start := by
  induction h with
  | nil => exact .nil
  | gap _ _ ih => exact ih
  | @passage before text p passages hspan _ hrest ih =>
      refine .cons (fun m hm => ?_) ih
      have hstop : p.span.stop = Text.byteSize (before ++ p.text) := by
        rw [hspan, ← Position.offset_after_origin, Position.after_append]
        rfl
      rw [hstop]
      exact (hrest.within m hm).1

end Row

theorem Run.row_passage {css before text : Text} {ts : List Token} {passages : List Passage}
    (h : Run css before ts) (hne : ts ≠ []) (hrow : Row (before ++ textOf ts) text passages) :
    Row before (textOf ts ++ text) (⟨spanOf ts, textOf ts⟩ :: passages) :=
  .passage (p := ⟨spanOf ts, textOf ts⟩) (h.spanOf_eq hne) (h.textOf_ne_nil hne) hrow

/-! ### Bodies -/

theorem Declaration.span_of_read? {tokens : List Token} {semicolon : Bool} {d : Declaration}
    (h : Declaration.read? tokens semicolon = some d) : tokens ≠ [] ∧ d.span = spanOf tokens := by
  unfold Declaration.read? at h
  split at h
  · contradiction
  split at h
  · split at h
    · contradiction
    split at h
    · obtain rfl := Option.some.inj h
      exact ⟨by simp, rfl⟩
    · contradiction
  · contradiction

theorem filterMap_cons_toList {α β : Type} (f : α → Option β) (a : α) (as : List α) :
    (a :: as).filterMap f = (f a).toList ++ as.filterMap f := by
  cases h : f a <;> simp [h]

/-- One segment comes first in the row of a body. -/
theorem Segment.Fits.row {css before text : Text} {segment : Segment} {rest : List Token}
    {passages : List Passage} (hfits : segment.Fits rest) (h : Run css before segment.tokens)
    (hrow : Row (before ++ textOf segment.tokens) text passages) :
    Row before (textOf segment.tokens ++ text)
      ((BodyItem.ofSegment segment).passage?.toList ++ passages) := by
  have hne := hfits.tokens_ne_nil
  cases segment with
  | whitespace t => exact .gap _ hrow
  | comment t =>
      have hpassage := h.row_passage hne hrow
      rw [Segment.tokens, spanOf_singleton] at hpassage
      simpa [Segment.tokens, BodyItem.ofSegment, BodyItem.passage?, BodyItem.render] using hpassage
  | content inner semicolon =>
      cases hread : (Segment.content inner semicolon).declaration? with
      | none =>
          have hitem : BodyItem.ofSegment (.content inner semicolon) =
              .raw ⟨textOf (inner ++ semicolon.toList), spanOf (inner ++ semicolon.toList)⟩ := by
            simp only [BodyItem.ofSegment, hread]
          rw [hitem]
          exact h.row_passage hne hrow
      | some d =>
          have hitem : BodyItem.ofSegment (.content inner semicolon) = .declaration d := by
            simp only [BodyItem.ofSegment, hread]
          simp only [Segment.declaration?] at hread
          split at hread
          · contradiction
          obtain ⟨hinner, hsemicolon⟩ := h.append
          obtain ⟨hcore, -⟩ := Declaration.core_of_read? hinner.spelled hread
          obtain ⟨hinnerNe, hspan⟩ := Declaration.span_of_read? hread
          rw [Segment.tokens, textOf_append, ← List.append_assoc] at hrow
          rw [hitem, BodyItem.passage?, hcore, hspan, Segment.tokens, textOf_append,
            List.append_assoc]
          exact hinner.row_passage hinnerNe (.gap _ hrow)

theorem Body.row_read {css before : Text} {ts : List Token} (h : Run css before ts) :
    Row before (textOf ts) ((Body.read ts).filterMap BodyItem.passage?) := by
  have hparts : ∀ (parts : List Segment) (before : Text), ProperSegments parts →
      Run css before (parts.flatMap Segment.tokens) →
      Row before (textOf (parts.flatMap Segment.tokens))
        ((parts.map BodyItem.ofSegment).filterMap BodyItem.passage?) := by
    intro parts
    induction parts with
    | nil => intro before _ _; exact .nil _ _
    | cons segment more ih =>
        intro before hproper hrun
        rw [List.flatMap_cons] at hrun
        rw [List.map_cons, filterMap_cons_toList, List.flatMap_cons, textOf_append]
        exact hproper.1.row hrun.append.1 (ih _ hproper.2 hrun.append.2)
  have hread := hparts (segments ts) before (properSegments_segments ts)
  rw [flatMap_tokens_segments] at hread
  exact hread h

/-! ### Stylesheets -/

/-- What stands right below a rule or an at-rule with this span, or at the top of the tree. -/
structure Family where
  parent : Option Span
  members : List Passage
deriving DecidableEq

mutual

/-- The families below an item, at any depth. -/
def Item.families : Item → List Family
  | .rule r => [⟨some r.span, r.body.filterMap BodyItem.passage?⟩]
  | .group head items => ⟨some head.span, items.filterMap Item.passage?⟩ :: familiesAll items
  | _ => []

def Item.familiesAll : List Item → List Family
  | [] => []
  | item :: rest => families item ++ familiesAll rest

end

def Stylesheet.families (sheet : Stylesheet) : List Family :=
  ⟨none, sheet.filterMap Item.passage?⟩ :: Item.familiesAll sheet

/-- The members stand in a row in `css`, within the span of their parent. -/
def Family.Stands (css : Text) (family : Family) : Prop :=
  ∃ before text, before ++ text <+: css ∧ Row before text family.members ∧
    ∀ parent ∈ family.parent, parent.start ≤ Text.byteSize before ∧
      Text.byteSize (before ++ text) ≤ parent.stop

/-- What stands in a row between two parts of a run stands within the span of the run. -/
theorem Run.stands {css before : Text} {front inner back : List Token} {passages : List Passage}
    (h : Run css before (front ++ (inner ++ back))) (hne : front ≠ [])
    (hrow : Run css (before ++ textOf front) inner →
      Row (before ++ textOf front) (textOf inner) passages) :
    Family.Stands css ⟨some (spanOf (front ++ (inner ++ back))), passages⟩ := by
  have hinner := h.append.2.append.1
  refine ⟨before ++ textOf front, textOf inner, hinner.inside, hrow hinner, ?_⟩
  rintro parent ⟨⟩
  rw [h.spanOf_eq (by simp [hne])]
  simp only [Span.ofText, ← Position.after_append, Position.offset_after_origin, textOf_append,
    Text.byteSize_append]
  omega

theorem Item.passage?_ofOutline {entry : Outline} {rest : List Token} (hproper : entry.Proper rest)
    (hspelled : SpelledAll entry.tokens) (hblank : ∀ t, entry ≠ .whitespace t) :
    (ofOutline entry).passage? = some ⟨spanOf entry.tokens, textOf entry.tokens⟩ := by
  have hrender : (ofOutline entry).render = textOf entry.tokens := by
    cases entry with
    | group keyword params opening items closing =>
        have hall := (renderAll_ofOutlines [.group keyword params opening items closing]
          ⟨hproper, trivial⟩ (by simpa [Outline.tokensAll] using hspelled)).1
        simpa [ofOutlines, renderAll, Outline.tokensAll] using hall
    | _ => exact (render_ofOutline (by simp) hproper hspelled).1
  have hspan : (ofOutline entry).span? = some (spanOf entry.tokens) := by
    cases entry with
    | whitespace t => exact absurd rfl (hblank t)
    | comment t => rw [Outline.tokens, spanOf_singleton, ofOutline, span?]
    | verbatim => rw [Outline.tokens, spanOf_atBlock, ofOutline, span?, AtHead.read]
    | group => rw [Outline.tokens, spanOf_atBlock, ofOutline, span?, AtHead.read]
    | _ => rfl
  rw [passage?, hspan, hrender]
  rfl

theorem Outline.Proper.row {css before text : Text} {entry : Outline} {rest : List Token}
    {passages : List Passage} (hproper : entry.Proper rest) (h : Run css before entry.tokens)
    (hrow : Row (before ++ textOf entry.tokens) text passages) :
    Row before (textOf entry.tokens ++ text)
      ((Item.ofOutline entry).passage?.toList ++ passages) := by
  by_cases hblank : ∃ t, entry = .whitespace t
  · obtain ⟨t, rfl⟩ := hblank
    exact .gap _ hrow
  · have hpassage := Item.passage?_ofOutline hproper h.spelled (not_exists.mp hblank)
    rw [hpassage]
    exact h.row_passage hproper.tokens_ne_nil hrow

theorem Rule.stands_read {css before : Text} {selector body : List Token} {opening closing : Token}
    (h : Run css before (selector ++ opening :: (body ++ [closing]))) :
    Family.Stands css ⟨some (Rule.read selector opening body closing).span,
      (Body.read body).filterMap BodyItem.passage?⟩ := by
  have hparts : selector ++ opening :: (body ++ [closing]) =
      (selector ++ [opening]) ++ (body ++ [closing]) := by simp
  rw [Rule.read, hparts]
  rw [hparts] at h
  exact h.stands (by simp) Body.row_read

/-- The items of an outline stand in a row, and so does each family below them. -/
theorem Item.stands_ofOutlines {css : Text} (entries : List Outline) {before : Text}
    (hproper : Outline.ProperAll entries) (h : Run css before (Outline.tokensAll entries)) :
    Row before (textOf (Outline.tokensAll entries)) ((ofOutlines entries).filterMap passage?) ∧
      ∀ family ∈ familiesAll (ofOutlines entries), family.Stands css := by
  induction entries using Outline.listInduction generalizing before with
  | nil => exact ⟨.nil _ _, by simp [ofOutlines, familiesAll]⟩
  | group keyword params opening items closing rest ihitems ihrest =>
      obtain ⟨hentry, hrest⟩ := hproper
      rw [Outline.tokensAll] at h
      obtain ⟨hrow, hfamilies⟩ := ihrest hrest h.append.2
      rw [ofOutlines, filterMap_cons_toList, Outline.tokensAll, textOf_append]
      refine ⟨hentry.row h.append.1 hrow, ?_⟩
      -- The items of the block are a run between the header and the closing brace.
      have hparts : keyword :: (params ++ opening :: (Outline.tokensAll items ++ [closing])) =
          (keyword :: (params ++ [opening])) ++ (Outline.tokensAll items ++ [closing]) := by simp
      have hgroup := h.append.1
      rw [Outline.tokens, hparts] at hgroup
      have hinner := ihitems hentry.2.2 hgroup.append.2.append.1
      have hblock := hgroup.stands (by simp) fun _ => hinner.1
      rw [← hparts, spanOf_atBlock] at hblock
      rw [familiesAll, ofOutline, families, List.forall_mem_append, List.forall_mem_cons]
      exact ⟨⟨hblock, hinner.2⟩, hfamilies⟩
  | other entry rest hother ih =>
      obtain ⟨hentry, hrest⟩ := hproper
      rw [Outline.tokensAll] at h
      obtain ⟨hrow, hfamilies⟩ := ih hrest h.append.2
      rw [ofOutlines, filterMap_cons_toList, Outline.tokensAll, textOf_append]
      refine ⟨hentry.row h.append.1 hrow, ?_⟩
      rw [familiesAll, List.forall_mem_append]
      refine ⟨?_, hfamilies⟩
      cases entry with
      | rule selector opening body closing =>
          rw [ofOutline, families, List.forall_mem_singleton]
          exact Rule.stands_read h.append.1
      | group => exact absurd rfl (hother _ _ _ _ _)
      | _ => simp [ofOutline, families]

theorem Item.mem_familiesAll_of_mem_rulesAll {items : List Item} {r : Rule}
    (h : r ∈ rulesAll items) :
    (⟨some r.span, r.body.filterMap BodyItem.passage?⟩ : Family) ∈ familiesAll items := by
  induction items using listInduction with
  | nil => simp [rulesAll] at h
  | rule s rest ih =>
      rw [familiesAll, families, List.singleton_append, List.mem_cons]
      rcases List.mem_cons.mp h with rfl | hrest
      · exact .inl rfl
      · exact .inr (ih hrest)
  | group head items rest ihitems ihrest =>
      rw [rulesAll, rules, List.mem_append] at h
      rw [familiesAll, families, List.mem_append]
      exact h.imp (fun hitems => List.mem_cons_of_mem _ (ihitems hitems)) ihrest
  | plain item rest hplain ih =>
      rw [rulesAll, rules_of_isPlain hplain, List.nil_append] at h
      rw [familiesAll]
      exact List.mem_append_right _ (ih h)

theorem Stylesheet.stands_of_mem_families_parse {css : Text} {family : Family}
    (h : family ∈ (parse css).families) : family.Stands css := by
  have hrun := run_tokenize css
  rw [← tokensAll_outline (tokenize css)] at hrun
  obtain ⟨hrow, hfamilies⟩ := Item.stands_ofOutlines _ (properAll_outline (tokenize css)) hrun
  rcases List.mem_cons.mp h with rfl | hbelow
  · exact ⟨[], _, hrun.inside, hrow, by simp⟩
  · exact hfamilies family hbelow

theorem Stylesheet.places_of_mem_declarations {css : Text} {r : Rule} {d : Declaration}
    (hr : r ∈ (parse css).rules) (hd : d ∈ r.declarations) : d.span.Places css d.core := by
  have hfamily := Item.mem_familiesAll_of_mem_rulesAll hr
  obtain ⟨before, text, hinside, hrow, -⟩ :=
    stands_of_mem_families_parse (List.mem_cons_of_mem _ hfamily)
  apply hrow.places hinside ⟨d.span, d.core⟩
  obtain ⟨item, hitem, hread⟩ := List.mem_filterMap.mp hd
  refine List.mem_filterMap.mpr ⟨item, hitem, ?_⟩
  cases item with
  | declaration e => rw [BodyItem.passage?, Option.some.inj hread]
  | _ => contradiction

/-- The span of every rule, at-rule, comment, declaration and raw text of a tree holds exactly the
bytes that it prints, with the line and the column at which they start. Siblings come one after the
other and lie within their parent. -/
theorem Stylesheet.parse_spans_exact (css : Text) :
    ∀ family ∈ (parse css).families,
      (∀ p ∈ family.members,
        (Text.bytes css).extract p.span.start p.span.stop = Text.bytes p.text ∧
          (∃ before, before ++ p.text <+: css ∧ (Text.bytes before).size = p.span.start ∧
            p.span.line = 1 + before.count '\n' ∧
            p.span.column = 1 + (Text.lastLine before).length) ∧
          p.span.start < p.span.stop ∧
          ∀ parent ∈ family.parent,
            parent.start ≤ p.span.start ∧ p.span.stop ≤ parent.stop) ∧
        family.members.Pairwise fun a b => a.span.stop ≤ b.span.start := by
  intro family hfamily
  obtain ⟨before, text, hinside, hrow, hparent⟩ := stands_of_mem_families_parse hfamily
  refine ⟨fun p hn => ?_, hrow.pairwise⟩
  have hplaces := hrow.places hinside p hn
  have hwithin := hrow.within p hn
  refine ⟨hplaces.extract_bytes, hplaces.exists_before, hwithin.2.1, fun parent hmem => ?_⟩
  have hbounds := hparent parent hmem
  omega

/-- A declaration in a rule in an at-rule, behind a character of two bytes and a line feed. -/
theorem Stylesheet.parse_spans_exact_media :
    (⟨some ⟨18, 28, 2, 12⟩, [⟨⟨20, 26, 2, 14⟩, "left:0".toList⟩]⟩ : Family) ∈
        (parse "/*é*/\n@media all\x7ba\x7bleft:0;\x7d\x7d".toList).families ∧
      (Text.bytes "/*é*/\n@media all\x7ba\x7bleft:0;\x7d\x7d".toList).extract 20 26 =
        Text.bytes "left:0".toList := by
  have hmem : (⟨some ⟨18, 28, 2, 12⟩, [⟨⟨20, 26, 2, 14⟩, "left:0".toList⟩]⟩ : Family) ∈
      (parse "/*é*/\n@media all\x7ba\x7bleft:0;\x7d\x7d".toList).families := by
    decide +kernel
  obtain ⟨hmembers, -⟩ := parse_spans_exact _ _ hmem
  exact ⟨hmem, (hmembers _ (List.mem_singleton.mpr rfl)).1⟩

end StyleFlip
