import StyleFlip.Flip.Sheet
import StyleFlip.Proofs.Spans

/-!
# Flipping passes spans on

Flipping keeps the spans of what it changes and decides nothing by them. A tree with other spans
therefore prints the same text, flips to the flipped tree with these spans, and gets the same advice
with these spans in its locations.
-/

namespace StyleFlip

variable {f : Span → Span}

/-! ### Edits -/

/-- The edit of a value, seen through `g`. -/
def Edit.map {α : Type} (g : α → α) (e : Edit α) : Edit α := ⟨g e.value, e.changed⟩

/-- A step can be taken before or after `g`, if its account does not see `g`. -/
theorem Edit.step_map {α : Type} {notes : α → Bool} {g h : α → α} (hcomm : ∀ a, h (g a) = g (h a))
    (hnotes : ∀ a, notes (g a) = notes a) (e : Edit α) :
    (e.map g).step notes h = (e.step notes h).map g := by
  simp only [Edit.step, Edit.map, hcomm, hnotes]

theorem withGuards_map {α : Type} {role : α → Role} {g : α → α} (hrole : ∀ a, role (g a) = role a)
    (guarded : Bool) (items : List α) :
    withGuards role guarded (items.map g) =
      (withGuards role guarded items).map (Prod.map g id) := by
  induction items generalizing guarded with
  | nil => rfl
  | cons a items ih =>
      rw [List.map_cons, withGuards, withGuards, hrole, ih, List.map_cons]
      rfl

/-! ### Declarations -/

namespace Declaration

theorem flipProperty_mapSpan (d : Declaration) :
    (d.mapSpan f).flipProperty = d.flipProperty.mapSpan f := rfl

theorem flipShorthand_mapSpan (property : Text) (d : Declaration) :
    (d.mapSpan f).flipShorthand property = (d.flipShorthand property).mapSpan f := by
  unfold flipShorthand
  cases Shorthand.ofProperty? property <;> rfl

theorem flipKeywords_mapSpan (property : Text) (d : Declaration) :
    (d.mapSpan f).flipKeywords property = (d.flipKeywords property).mapSpan f := by
  unfold flipKeywords
  split <;> rfl

theorem flipUrls_mapSpan (d : Declaration) :
    (d.mapSpan f).flipUrls = d.flipUrls.mapSpan f := rfl

/-- No step looks at the span. -/
theorem flipSides_mapSpan (d : Declaration) :
    (d.mapSpan f).flipSides = d.flipSides.map (mapSpan f) := by
  have hstart : Edit.start (d.mapSpan f) = (Edit.start d).map (mapSpan f) := rfl
  have hproperty : (d.mapSpan f).property = d.property := rfl
  rw [flipSides, hproperty, hstart, Edit.step_map flipProperty_mapSpan (fun _ => rfl),
    Edit.step_map (flipShorthand_mapSpan d.property) (fun _ => rfl),
    Edit.step_map (flipKeywords_mapSpan d.property) (fun _ => rfl), flipSides]

theorem flip_mapSpan (options : FlipOptions) (d : Declaration) :
    (d.mapSpan f).flip options = (d.flip options).map (mapSpan f) := by
  unfold Declaration.flip Edit.stepIf
  rw [flipSides_mapSpan]
  split
  · exact Edit.step_map flipUrls_mapSpan (fun _ => rfl) _
  · rfl

end Declaration

/-! ### Bodies and rules -/

theorem BodyItem.role_mapSpan (item : BodyItem) : (item.mapSpan f).role = item.role := by
  cases item <;> rfl

theorem BodyItem.render_mapSpan (item : BodyItem) : (item.mapSpan f).render = item.render := by
  cases item <;> rfl

theorem BodyItem.declaration?_mapSpan (item : BodyItem) :
    (item.mapSpan f).declaration? = item.declaration?.map (Declaration.mapSpan f) := by
  cases item <;> rfl

theorem BodyItem.flip_mapSpan (options : FlipOptions) (guarded : Bool) (item : BodyItem) :
    (item.mapSpan f).flip options guarded =
      (item.flip options guarded).map (BodyItem.mapSpan f) := by
  cases item with
  | declaration d =>
      cases guarded with
      | true => rfl
      | false =>
          simp only [BodyItem.mapSpan, BodyItem.flip, Declaration.flip_mapSpan, Bool.false_eq_true,
            if_false]
          rfl
  | _ => rfl

theorem Body.flip_mapSpan (options : FlipOptions) (body : Body) :
    Body.flip options (body.map (BodyItem.mapSpan f)) =
      (Body.flip options body).map (List.map (BodyItem.mapSpan f)) := by
  unfold Body.flip
  rw [withGuards_map BodyItem.role_mapSpan, List.map_map]
  simp only [Edit.all, Edit.map, List.map_map, List.any_map, Function.comp_def, Prod.map,
    BodyItem.flip_mapSpan, id]

theorem Body.declarations_mapSpan (body : Body) :
    Body.declarations (body.map (BodyItem.mapSpan f)) =
      body.declarations.map (Declaration.mapSpan f) := by
  simp only [Body.declarations, List.filterMap_map, List.map_filterMap, Function.comp_def,
    BodyItem.declaration?_mapSpan]

theorem Body.unguarded_mapSpan (body : Body) :
    Body.unguarded (body.map (BodyItem.mapSpan f)) =
      body.unguarded.map (Declaration.mapSpan f) := by
  unfold Body.unguarded
  rw [withGuards_map BodyItem.role_mapSpan, List.filterMap_map, List.map_filterMap]
  congr 1
  funext ⟨item, guarded⟩
  cases guarded with
  | true => rfl
  | false => exact BodyItem.declaration?_mapSpan item

theorem Rule.flip_mapSpans (options : FlipOptions) (r : Rule) :
    (r.mapSpans f).flip options = (r.flip options).mapSpans f := by
  have hbody : Body.flip options (r.mapSpans f).body =
      (Body.flip options r.body).map (List.map (BodyItem.mapSpan f)) :=
    Body.flip_mapSpan options r.body
  rw [Rule.flip, Rule.isChangedBy, hbody]
  rfl

theorem Rule.render_mapSpans (r : Rule) : (r.mapSpans f).render = r.render := by
  have hbody : Body.render (r.body.map (BodyItem.mapSpan f)) = Body.render r.body := by
    simp only [Body.render, List.flatMap_map, BodyItem.render_mapSpan]
  simp only [Rule.render, Rule.partsText, Rule.mapSpans, hbody]

/-! ### Advice -/

/-- Replaces the location of a diagnostic. -/
def Diagnostic.mapSpan (f : Span → Span) (d : Diagnostic) : Diagnostic :=
  { d with location := d.location.map f }

section Advice

variable (hknown : ∀ s, (f s).isUnknown = s.isUnknown)

include hknown

theorem Diagnostic.about_mapSpan (concern : Concern) (selector : Text) (span : Span) :
    about concern selector (f span) = (about concern selector span).mapSpan f := by
  simp only [about, Diagnostic.mapSpan, hknown]
  split <;> rfl

theorem Declaration.advice_mapSpan (selector : Text) (d : Declaration) :
    (d.mapSpan f).advice selector = (d.advice selector).map (Diagnostic.mapSpan f) := by
  have hold : (d.mapSpan f).property = d.property := rfl
  have hproperty : (d.flipSides.value.mapSpan f).property = d.flipSides.value.property := rfl
  have hvalue : (d.flipSides.value.mapSpan f).value = d.flipSides.value.value := rfl
  have htext : (d.flipSides.value.mapSpan f).valueText = d.flipSides.value.valueText := rfl
  have hspan : (d.flipSides.value.mapSpan f).span = f d.flipSides.value.span := rfl
  simp only [Declaration.advice, flipSides_mapSpan, Edit.map, hold, hproperty, hvalue, htext, hspan,
    Diagnostic.about_mapSpan hknown]
  split <;> rfl

theorem Rule.advice_mapSpans (options : FlipOptions) (r : Rule) :
    (r.mapSpans f).advice options = (r.advice options).map (Diagnostic.mapSpan f) := by
  have htitle : ((r.flip options).mapSpans f).title = (r.flip options).title := rfl
  have hdeclarations : ((r.flip options).mapSpans f).declarations =
      (r.flip options).declarations.map (Declaration.mapSpan f) := Body.declarations_mapSpan _
  have hfloat : ((r.flip options).mapSpans f).sideFloat? =
      (r.flip options).sideFloat?.map (Declaration.mapSpan f) := by
    rw [sideFloat?, hdeclarations, List.find?_map]
    rfl
  have hinline : ((r.flip options).mapSpans f).isInline = (r.flip options).isInline := by
    rw [isInline, hdeclarations, List.any_map]
    rfl
  have hunguarded : (r.mapSpans f).body.unguarded =
      r.body.unguarded.map (Declaration.mapSpan f) := Body.unguarded_mapSpan r.body
  simp only [Rule.advice, Rule.flip_mapSpans, hunguarded, htitle, hfloat, hinline,
    List.flatMap_map, List.map_append, List.map_flatMap, Declaration.advice_mapSpan hknown]
  congr 1
  cases (r.flip options).sideFloat? with
  | none => rfl
  | some d =>
      simp only [Option.map_some, Declaration.mapSpan, Diagnostic.about_mapSpan hknown]
      split <;> rfl

end Advice

/-! ### Stylesheets -/

namespace Item

theorem role_mapSpans (item : Item) : (mapSpans f item).role = item.role := by
  cases item <;> rfl

theorem renderAll_mapSpansAll (items : List Item) :
    renderAll (mapSpansAll f items) = renderAll items := by
  induction items using listInduction with
  | nil => rfl
  | rule r rest ih => simp only [mapSpansAll, mapSpans, renderAll, render, Rule.render_mapSpans, ih]
  | group head items rest ihitems ih =>
      simp only [mapSpansAll, mapSpans, renderAll, render, ihitems, ih]
      rfl
  | plain item rest hplain ih =>
      have hrender : (mapSpans f item).render = item.render := by
        cases item <;> first | rfl | contradiction
      rw [mapSpansAll, renderAll, renderAll, hrender, ih]

theorem flipAll_mapSpansAll (options : FlipOptions) (guarded : Bool) (items : List Item) :
    flipAll options guarded (mapSpansAll f items) =
      mapSpansAll f (flipAll options guarded items) := by
  induction items using listInduction generalizing guarded with
  | nil => rfl
  | rule r rest ih =>
      simp only [mapSpansAll, flipAll, mapSpans, flip, role, ih]
      cases guarded <;> simp [mapSpans, Rule.flip_mapSpans]
  | group head items rest ihitems ih =>
      simp only [mapSpansAll, flipAll, mapSpans, flip, role, ihitems, ih]
      cases guarded <;> simp [mapSpans]
  | plain item rest hplain ih =>
      have hplain' : (mapSpans f item).isPlain = true := by
        cases item <;> first | rfl | contradiction
      rw [mapSpansAll, flipAll, flipAll, flip_of_isPlain hplain, flip_of_isPlain hplain', ite_self,
        ite_self, role_mapSpans, ih, mapSpansAll]

theorem gatherAll_mapSpansAll {β : Type} (g : Bool → Rule → List β) (guarded : Bool)
    (items : List Item) :
    gatherAll g guarded (mapSpansAll f items) =
      gatherAll (fun guarded r => g guarded (r.mapSpans f)) guarded items := by
  induction items using listInduction generalizing guarded with
  | nil => rfl
  | rule r rest ih => simp only [mapSpansAll, gatherAll, mapSpans, gather, role, ih]
  | group head items rest ihitems ih =>
      simp only [mapSpansAll, gatherAll, mapSpans, gather, role, ihitems, ih]
  | plain item rest hplain ih =>
      have hplain' : (mapSpans f item).isPlain = true := by
        cases item <;> first | rfl | contradiction
      rw [mapSpansAll, gatherAll, gatherAll, gather_of_isPlain hplain, gather_of_isPlain hplain',
        role_mapSpans, ih]

end Item

namespace Stylesheet

theorem render_flip_mapSpansAll (options : FlipOptions) (sheet : Stylesheet) :
    render (flip options (Item.mapSpansAll f sheet)) = render (flip options sheet) := by
  rw [flip, Item.flipAll_mapSpansAll, render, Item.renderAll_mapSpansAll]
  rfl

theorem advice_mapSpansAll (hknown : ∀ s, (f s).isUnknown = s.isUnknown) (options : FlipOptions)
    (sheet : Stylesheet) :
    advice options (Item.mapSpansAll f sheet) =
      (advice options sheet).map (Diagnostic.mapSpan f) := by
  unfold advice
  split
  · rw [Item.gatherAll_mapSpansAll, Item.map_gatherAll]
    congr 1
    funext guarded r
    cases guarded with
    | true => rfl
    | false => exact Rule.advice_mapSpans hknown options r
  · rfl

end Stylesheet

end StyleFlip
