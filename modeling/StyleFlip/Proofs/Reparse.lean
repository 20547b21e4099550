import StyleFlip.Proofs.Gluing
import StyleFlip.Proofs.Standing

/-!
# Reading a printed outline

If the tokens of a proper outline are what lexing makes of their text, then parsing this text gives
the stylesheet of the outline, up to spans and source texts.
-/

namespace StyleFlip

theorem Body.glued_of_map_bare {a b : Body} (h : a.map BodyItem.bare = b.map BodyItem.bare) :
    Body.Glued a b := by
  induction a generalizing b with
  | nil =>
      obtain rfl := List.map_eq_nil_iff.mp h.symm
      exact .nil
  | cons item a ih =>
      cases b with
      | nil => contradiction
      | cons item' b =>
          obtain ⟨hsame, hrest⟩ := List.cons.inj h
          exact .same hsame (ih hrest)

theorem Rule.glued_of_unplaced {r r' : Rule} (h : r.unplaced = r'.unplaced) : r.Glued r' := by
  have hselector : r.unplaced.selector = r'.unplaced.selector := by rw [h]
  have hbody : r.unplaced.body = r'.unplaced.body := by rw [h]
  exact ⟨hselector, Body.glued_of_map_bare hbody⟩

theorem Rule.unplaced_mapSpans (f : Span → Span) (r : Rule) :
    (r.mapSpans f).unplaced = r.unplaced := by
  have hbody : r.body.map (BodyItem.bare ∘ BodyItem.mapSpan f) = r.body.map BodyItem.bare :=
    List.map_congr_left fun item _ => BodyItem.bare_mapSpan f item
  simp only [Rule.unplaced, Rule.mapSpans, List.map_map, hbody]

namespace Item

theorem unplaced_of_isPlain {item : Item} (h : item.isPlain = true) : item.unplaced = item.bare := by
  cases item <;> first | rfl | contradiction

theorem isPlain_unplaced (item : Item) : item.unplaced.isPlain = item.isPlain := by
  cases item <;> rfl

/-- Items that differ in their spans and source texts only are glued. -/
theorem Glued.append_of_unplaced {a b c d : List Item} (h : unplacedAll a = unplacedAll b)
    (hrest : Glued c d) : Glued (a ++ c) (b ++ d) := by
  induction a using Item.listInduction generalizing b c d with
  | nil =>
      cases b with
      | nil => exact hrest
      | cons => simp [unplacedAll] at h
  | rule r a ih =>
      cases b with
      | nil => simp [unplacedAll] at h
      | cons item' b =>
          obtain ⟨hitem, htail⟩ := List.cons.inj h
          cases item' <;> simp only [unplaced, bare, reduceCtorEq, Item.rule.injEq] at hitem
          exact .rule (Rule.glued_of_unplaced hitem) (ih htail hrest)
  | group head items a ihitems ih =>
      cases b with
      | nil => simp [unplacedAll] at h
      | cons item' b =>
          obtain ⟨hitem, htail⟩ := List.cons.inj h
          cases item' <;> simp only [unplaced, bare, reduceCtorEq, Item.group.injEq] at hitem
          have hhead := congrArg AtHead.render hitem.1
          have hinner := ihitems hitem.2 .nil
          rw [List.append_nil, List.append_nil] at hinner
          exact .group hhead hinner (ih htail hrest)
  | plain item a hplain ih =>
      cases b with
      | nil => simp [unplacedAll] at h
      | cons item' b =>
          obtain ⟨hitem, htail⟩ := List.cons.inj h
          have hplain' : item'.isPlain = true := by
            rw [← isPlain_unplaced, ← hitem, isPlain_unplaced, hplain]
          rw [unplaced_of_isPlain hplain, unplaced_of_isPlain hplain'] at hitem
          exact .same hplain hplain' hitem (ih htail hrest)

theorem Glued.append_left (items : List Item) {a b : List Item} (h : Glued a b) :
    Glued (items ++ a) (items ++ b) := .append_of_unplaced rfl h

theorem glued_of_unplacedAll {a b : List Item} (h : unplacedAll a = unplacedAll b) : Glued a b := by
  have hglued := Glued.append_of_unplaced h .nil
  rwa [List.append_nil, List.append_nil] at hglued

theorem Glued.refl (items : List Item) : Glued items items := glued_of_unplacedAll rfl

theorem unplacedAll_eq_map (items : List Item) : unplacedAll items = items.map unplaced := by
  induction items with
  | nil => rfl
  | cons item items ih => rw [unplacedAll, ih, List.map_cons]

@[simp]
theorem unplacedAll_append (a b : List Item) :
    unplacedAll (a ++ b) = unplacedAll a ++ unplacedAll b := by
  rw [unplacedAll_eq_map, List.map_append, unplacedAll_eq_map, unplacedAll_eq_map]

/-- Items that differ in their spans only are the same without spans. -/
theorem unplacedAll_mapSpansAll (f : Span → Span) (items : List Item) :
    unplacedAll (mapSpansAll f items) = unplacedAll items := by
  induction items using Item.listInduction with
  | nil => rfl
  | rule r rest ih =>
      simp only [mapSpansAll, mapSpans, unplacedAll, unplaced, Rule.unplaced_mapSpans, ih]
  | group head items rest ihitems ih =>
      simp only [mapSpansAll, mapSpans, unplacedAll, unplaced, ihitems, ih, AtHead.mapSpan]
  | plain item rest hplain ih =>
      have hitem : (mapSpans f item).unplaced = item.unplaced := by
        cases item <;> first | rfl | contradiction
      rw [mapSpansAll, unplacedAll, hitem, ih, unplacedAll]

end Item

/-- Parsing the text of a proper outline gives its stylesheet. -/
theorem Stylesheet.unplaced_parse {es : List Outline} (hproper : Outline.ProperAll es)
    (hstand : Stand (Outline.tokensAll es) []) :
    Stylesheet.unplaced (Stylesheet.parse (textOf (Outline.tokensAll es))) =
      Stylesheet.unplaced (Item.ofOutlines es) := by
  have hunplaced : ∀ ts, Item.unplacedAll (Item.ofOutlines (outline ts)) =
      Item.unplacedAll (Item.ofOutlines (outline (bareAll ts))) := by
    intro ts
    rw [Item.ofOutlines_outline_bareAll, Item.unplacedAll_mapSpansAll]
  calc Stylesheet.unplaced (Stylesheet.parse (textOf (Outline.tokensAll es)))
      = Item.unplacedAll (Item.ofOutlines (outline
          (bareAll (tokenize (textOf (Outline.tokensAll es)))))) := hunplaced _
    _ = Item.unplacedAll (Item.ofOutlines (outline (bareAll (Outline.tokensAll es)))) := by
        rw [bareAll_eq_of_map_toLexeme (map_toLexeme_tokenize hstand)]
    _ = Stylesheet.unplaced (Item.ofOutlines es) := by
        rw [← hunplaced, outline_tokensAll es hproper, unplaced]

theorem Stylesheet.glued_parse {es : List Outline} (hproper : Outline.ProperAll es)
    (hstand : Stand (Outline.tokensAll es) []) :
    Item.Glued (Item.ofOutlines es) (Stylesheet.parse (textOf (Outline.tokensAll es))) :=
  Item.glued_of_unplacedAll (Stylesheet.unplaced_parse hproper hstand).symm

/-- The stylesheet of a proper outline whose tokens are read back is fresh. -/
theorem Stylesheet.fresh_ofOutlines {es : List Outline} (hproper : Outline.ProperAll es)
    (hstand : Stand (Outline.tokensAll es) []) : Stylesheet.Fresh (Item.ofOutlines es) :=
  (Item.renderAll_ofOutlines es hproper hstand.spelledAll).2

end StyleFlip
