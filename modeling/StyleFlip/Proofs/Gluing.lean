import StyleFlip.Proofs.Bare
import StyleFlip.Proofs.FlipSpans
import StyleFlip.Proofs.Freshness

/-!
# Trees that print and flip alike

When part of a stylesheet is removed, pieces that stood apart come to stand side by side, and reading
the printed text takes two blanks, or two pieces of raw text in a rule body, as one. A tree is glued
to another when the other has the same items up to their spans and their source texts, with some
neighbours taken as one in this way. Flipping does not see the difference: fresh trees that are glued
print the same text, flip to glued trees, and get the same advice but for its locations.
-/

namespace StyleFlip

/-! ### Bodies -/

inductive Body.Glued : Body → Body → Prop
  | nil : Glued [] []
  | same {item item' : BodyItem} {a b : Body} (hsame : item.bare = item'.bare) (h : Glued a b) :
      Glued (item :: a) (item' :: b)
  | blank {x y : Text} {a b : Body} (h : Glued a (.whitespace y :: b)) :
      Glued (.whitespace x :: a) (.whitespace (x ++ y) :: b)
  | raw {x y z : Raw} {a b : Body} (hz : z.text = x.text ++ y.text) (h : Glued a (.raw y :: b)) :
      Glued (.raw x :: a) (.raw z :: b)

theorem BodyItem.render_of_bare {item item' : BodyItem} (h : item.bare = item'.bare) :
    item.render = item'.render := by
  have hrender : ∀ item : BodyItem, item.bare.render = item.render := by
    intro item
    cases item <;> rfl
  rw [← hrender item, h, hrender]

theorem BodyItem.role_of_bare {item item' : BodyItem} (h : item.bare = item'.bare) :
    item.role = item'.role := by
  have hrole : ∀ item : BodyItem, item.bare.role = item.role := by
    intro item
    cases item <;> rfl
  rw [← hrole item, h, hrole]

theorem Body.Glued.render_eq {a b : Body} (h : Body.Glued a b) : Body.render a = Body.render b := by
  induction h with
  | nil => rfl
  | same hsame _ ih =>
      rw [Body.render] at ih ⊢
      rw [List.flatMap_cons, ih, BodyItem.render_of_bare hsame]
      rfl
  | blank _ ih =>
      rw [Body.render] at ih ⊢
      rw [List.flatMap_cons, ih]
      simp [Body.render, BodyItem.render]
  | raw hz _ ih =>
      rw [Body.render] at ih ⊢
      rw [List.flatMap_cons, ih]
      simp [Body.render, BodyItem.render, hz]

theorem Declaration.bare_flipSides (d : Declaration) :
    d.bare.flipSides.value = d.flipSides.value.bare :=
  congrArg Edit.value (Declaration.flipSides_mapSpan (f := fun _ => .unknown) d)

theorem BodyItem.bare_flip (options : FlipOptions) (guarded : Bool) (item : BodyItem) :
    (item.bare.flip options guarded).value = (item.flip options guarded).value.bare := by
  rw [bare_eq_mapSpan, BodyItem.flip_mapSpan, bare_eq_mapSpan]
  rfl

/-- The flipped items of a body, as `Body.flip` gives them. -/
def Body.flipFrom (options : FlipOptions) (guarded : Bool) : Body → Body
  | [] => []
  | item :: rest =>
    (item.flip options guarded).value ::
      Body.flipFrom options (item.role.guardNext guarded) rest

theorem Body.value_flip (options : FlipOptions) (body : Body) :
    (Body.flip options body).value = Body.flipFrom options false body := by
  have hfrom : ∀ guarded, (Edit.all ((withGuards BodyItem.role guarded body).map
      fun pair => pair.1.flip options pair.2)).value =
      Body.flipFrom options guarded body := by
    induction body with
    | nil => intro guarded; rfl
    | cons item rest ih =>
        intro guarded
        have htail := ih (item.role.guardNext guarded)
        simp only [Edit.all] at htail
        simp only [withGuards, List.map_cons, Edit.all, Body.flipFrom, htail]
  exact hfrom false

theorem Body.Glued.flipFrom {a b : Body} (h : Body.Glued a b) (options : FlipOptions)
    (guarded : Bool) :
    Body.Glued (Body.flipFrom options guarded a) (Body.flipFrom options guarded b) := by
  induction h generalizing guarded with
  | nil => exact .nil
  | @same item item' a b hsame _ ih =>
      rw [Body.flipFrom, Body.flipFrom, BodyItem.role_of_bare hsame]
      refine .same ?_ (ih _)
      rw [← BodyItem.bare_flip, hsame, BodyItem.bare_flip]
  | blank _ ih => exact .blank (ih guarded)
  | raw hz _ ih => exact .raw hz (ih false)

theorem Body.Glued.flip {a b : Body} (h : Body.Glued a b) (options : FlipOptions) :
    Body.Glued (Body.flip options a).value (Body.flip options b).value := by
  rw [Body.value_flip, Body.value_flip]
  exact h.flipFrom options false

theorem BodyItem.declaration?_of_bare {item item' : BodyItem} (h : item.bare = item'.bare) :
    item.declaration?.map Declaration.bare = item'.declaration?.map Declaration.bare := by
  have hbare : ∀ item : BodyItem, item.bare.declaration? = item.declaration?.map Declaration.bare := by
    intro item
    cases item <;> rfl
  rw [← hbare item, h, hbare]

/-- Glued bodies have the same declarations, also if only those that `keep` admits are counted. -/
theorem Body.Glued.filterMap {a b : Body} (h : Body.Glued a b) (keep : Bool → Bool)
    (guarded : Bool) :
    ((withGuards BodyItem.role guarded a).filterMap fun (item, guarded) =>
        if keep guarded then item.declaration?.map Declaration.bare else none) =
      (withGuards BodyItem.role guarded b).filterMap fun (item, guarded) =>
        if keep guarded then item.declaration?.map Declaration.bare else none := by
  induction h generalizing guarded with
  | nil => rfl
  | @same item item' a b hsame _ ih =>
      rw [withGuards, withGuards, List.filterMap_cons, List.filterMap_cons,
        BodyItem.role_of_bare hsame, ih]
      dsimp only
      rw [BodyItem.declaration?_of_bare hsame]
  | blank _ ih =>
      have htail := ih guarded
      cases hkeep : keep guarded <;>
        simp_all [withGuards, BodyItem.declaration?, BodyItem.role, Role.guardNext]
  | raw _ _ ih =>
      have htail := ih false
      cases hkeep : keep guarded <;> cases hfirst : keep false <;>
        simp_all [withGuards, BodyItem.declaration?, BodyItem.role, Role.guardNext]

theorem withGuards_map_fst {α : Type} (role : α → Role) (guarded : Bool) (items : List α) :
    (withGuards role guarded items).map (·.1) = items := by
  induction items generalizing guarded with
  | nil => rfl
  | cons item rest ih => simp [withGuards, ih]

theorem Body.Glued.declarations {a b : Body} (h : Body.Glued a b) :
    a.declarations.map Declaration.bare = b.declarations.map Declaration.bare := by
  have hall := h.filterMap (fun _ => true) false
  have hfirst : ∀ body : Body, body.declarations.map Declaration.bare =
      (withGuards BodyItem.role false body).filterMap fun (item, _) =>
        item.declaration?.map Declaration.bare := by
    intro body
    rw [Body.declarations, List.map_filterMap]
    conv => lhs; rw [← withGuards_map_fst BodyItem.role false body]
    rw [List.filterMap_map]
    rfl
  rw [hfirst, hfirst]
  exact hall

theorem Body.Glued.unguarded {a b : Body} (h : Body.Glued a b) :
    a.unguarded.map Declaration.bare = b.unguarded.map Declaration.bare := by
  have hkept := h.filterMap (fun guarded => !guarded) false
  have hmap : ∀ body : Body, body.unguarded.map Declaration.bare =
      (withGuards BodyItem.role false body).filterMap fun (item, guarded) =>
        if !guarded then item.declaration?.map Declaration.bare else none := by
    intro body
    rw [Body.unguarded, List.map_filterMap]
    congr 1
    funext ⟨item, guarded⟩
    cases guarded <;> rfl
  rw [hmap, hmap]
  exact hkept

/-! ### Rules -/

/-- The same rule up to its span and source text, with some pieces of its body taken as one. -/
structure Rule.Glued (r r' : Rule) : Prop where
  selector : r.selector = r'.selector
  body : Body.Glued r.body r'.body

theorem Rule.Glued.partsText_eq {r r' : Rule} (h : r.Glued r') : r.partsText = r'.partsText := by
  rw [Rule.partsText, Rule.partsText, h.selector, h.body.render_eq]

theorem Rule.Glued.flip {r r' : Rule} (h : r.Glued r') (options : FlipOptions) :
    (r.flip options).Glued (r'.flip options) where
  selector := by simp only [Rule.flip, h.selector]
  body := h.body.flip options

/-- Advice without its location. -/
def Diagnostic.unplaced (d : Diagnostic) : Diagnostic := { d with location := none }

theorem Declaration.unplaced_advice (selector : Text) (d : Declaration) :
    (d.advice selector).map Diagnostic.unplaced =
      (d.bare.advice selector).map Diagnostic.unplaced := by
  unfold Declaration.advice
  rw [bare_flipSides]
  have hold : d.bare.property = d.property := rfl
  have hproperty : d.flipSides.value.bare.property = d.flipSides.value.property := rfl
  have hvalue : d.flipSides.value.bare.value = d.flipSides.value.value := rfl
  have htext : d.flipSides.value.bare.valueText = d.flipSides.value.valueText := rfl
  simp only [hold, hproperty, hvalue, htext]
  split <;> rfl

theorem find?_bare {p : Declaration → Bool} (hp : ∀ d : Declaration, p d.bare = p d)
    {ds ds' : List Declaration} (h : ds.map Declaration.bare = ds'.map Declaration.bare) :
    (ds.find? p).isSome = (ds'.find? p).isSome := by
  have hmap : ∀ ds : List Declaration,
      (ds.find? p).map Declaration.bare = (ds.map Declaration.bare).find? p := by
    intro ds
    have hcomp : p ∘ Declaration.bare = p := funext hp
    rw [List.find?_map, hcomp]
  rw [← Option.isSome_map (f := Declaration.bare), hmap, h, ← hmap, Option.isSome_map]

theorem any_bare {p : Declaration → Bool} (hp : ∀ d : Declaration, p d.bare = p d)
    {ds ds' : List Declaration} (h : ds.map Declaration.bare = ds'.map Declaration.bare) :
    ds.any p = ds'.any p := by
  have hmap : ∀ ds : List Declaration, ds.any p = (ds.map Declaration.bare).any p := by
    intro ds
    have hcomp : p ∘ Declaration.bare = p := funext hp
    rw [List.any_map, hcomp]
  rw [hmap, h, ← hmap]

theorem Rule.Glued.advice {r r' : Rule} (h : r.Glued r') (options : FlipOptions) :
    (r.advice options).map Diagnostic.unplaced = (r'.advice options).map Diagnostic.unplaced := by
  have hflip := h.flip options
  have htitle : (r.flip options).title = (r'.flip options).title := by
    rw [Rule.title, Rule.title, hflip.selector]
  have hfloat : (r.flip options).sideFloat?.isSome = (r'.flip options).sideFloat?.isSome :=
    find?_bare (fun _ => rfl) hflip.body.declarations
  have hinline : (r.flip options).isInline = (r'.flip options).isInline :=
    any_bare (fun _ => rfl) hflip.body.declarations
  have hdeclared : (r.body.unguarded.flatMap (·.advice (r'.flip options).title)).map
        Diagnostic.unplaced =
      (r'.body.unguarded.flatMap (·.advice (r'.flip options).title)).map Diagnostic.unplaced := by
    have hmap : ∀ ds : List Declaration, (ds.flatMap (·.advice (r'.flip options).title)).map
          Diagnostic.unplaced =
        (ds.map Declaration.bare).flatMap fun d =>
          (d.advice (r'.flip options).title).map Diagnostic.unplaced := by
      intro ds
      rw [List.map_flatMap, List.flatMap_map, funext (Declaration.unplaced_advice _)]
    rw [hmap, h.body.unguarded, ← hmap]
  unfold Rule.advice
  simp only [htitle, hinline, List.map_append, hdeclared]
  congr 1
  cases hleft : (r.flip options).sideFloat? with
  | none =>
      cases hright : (r'.flip options).sideFloat? with
      | none => rfl
      | some d' => simp [hleft, hright] at hfloat
  | some d =>
      cases hright : (r'.flip options).sideFloat? with
      | none => simp [hleft, hright] at hfloat
      | some d' => dsimp only; split <;> rfl

/-! ### Stylesheets -/

/-- An item without its span, where that is all there is to leave out. -/
def Item.bare : Item → Item
  | .statement head semicolon => .statement { head with span := .unknown } semicolon
  | .verbatim head block => .verbatim { head with span := .unknown } block
  | .comment c => .comment { c with span := .unknown }
  | .raw r => .raw { r with span := .unknown }
  | item => item

def Rule.unplaced (r : Rule) : Rule where
  selector := r.selector
  body := r.body.map BodyItem.bare
  span := .unknown
  source := none

mutual

/-- An item without spans and source texts, at any depth. -/
def Item.unplaced : Item → Item
  | .rule r => .rule r.unplaced
  | .group head items => .group { head with span := .unknown } (Item.unplacedAll items)
  | item => item.bare

def Item.unplacedAll : List Item → List Item
  | [] => []
  | item :: rest => Item.unplaced item :: Item.unplacedAll rest

end

/-- A stylesheet without spans and source texts. -/
def Stylesheet.unplaced (sheet : Stylesheet) : Stylesheet := Item.unplacedAll sheet

inductive Item.Glued : List Item → List Item → Prop
  | nil : Glued [] []
  | rule {r r' : Rule} {a b : List Item} (hrule : r.Glued r') (h : Glued a b) :
      Glued (.rule r :: a) (.rule r' :: b)
  | group {head head' : AtHead} {items items' a b : List Item} (hhead : head.render = head'.render)
      (hitems : Glued items items') (h : Glued a b) :
      Glued (.group head items :: a) (.group head' items' :: b)
  | same {item item' : Item} {a b : List Item} (hplain : item.isPlain = true)
      (hplain' : item'.isPlain = true) (hsame : item.bare = item'.bare) (h : Glued a b) :
      Glued (item :: a) (item' :: b)
  | blank {x y : Text} {a b : List Item} (h : Glued a (.whitespace y :: b)) :
      Glued (.whitespace x :: a) (.whitespace (x ++ y) :: b)

namespace Item

theorem render_of_bare {item item' : Item} (h : item.bare = item'.bare) :
    item.isPlain = true → item'.isPlain = true → item.render = item'.render := by
  have hrender : ∀ item : Item, item.isPlain = true → item.bare.render = item.render := by
    intro item hplain
    cases item with
    | rule => contradiction
    | group => contradiction
    | _ => rfl
  intro hplain hplain'
  rw [← hrender item hplain, h, hrender item' hplain']

theorem role_of_bare {item item' : Item} (h : item.bare = item'.bare) : item.role = item'.role := by
  have hrole : ∀ item : Item, item.bare.role = item.role := by
    intro item
    cases item <;> rfl
  rw [← hrole item, h, hrole]

theorem Glued.flipAll {a b : List Item} (h : Glued a b) (options : FlipOptions) (guarded : Bool) :
    Glued (Item.flipAll options guarded a) (Item.flipAll options guarded b) := by
  induction h generalizing guarded with
  | nil => exact .nil
  | rule hrule _ ih =>
      rw [Item.flipAll, Item.flipAll]
      cases guarded with
      | true => exact .rule hrule (ih _)
      | false => exact .rule (hrule.flip options) (ih _)
  | group hhead hitems _ ihitems ih =>
      rw [Item.flipAll, Item.flipAll]
      cases guarded with
      | true => exact .group hhead hitems (ih _)
      | false => exact .group hhead (ihitems false) (ih _)
  | same hplain hplain' hsame _ ih =>
      rw [Item.flipAll, Item.flipAll, flip_of_isPlain hplain, flip_of_isPlain hplain', ite_self,
        ite_self, role_of_bare hsame]
      exact .same hplain hplain' hsame (ih _)
  | blank _ ih =>
      have hglued := ih guarded
      simp only [Item.flipAll, Item.flip, ite_self] at hglued ⊢
      exact .blank hglued

theorem Glued.renderAll_eq {a b : List Item} (h : Glued a b) :
    Stylesheet.Fresh a → Stylesheet.Fresh b → renderAll a = renderAll b := by
  induction h with
  | nil => intro _ _; rfl
  | @rule r r' a b hrule _ ih =>
      intro ha hb
      obtain ⟨hr, ha⟩ := Stylesheet.fresh_cons.mp ha
      obtain ⟨hr', hb⟩ := Stylesheet.fresh_cons.mp hb
      rw [renderAll, renderAll, ih ha hb, render, render,
        Rule.render_of_fresh (hr r (by simp [rules])),
        Rule.render_of_fresh (hr' r' (by simp [rules])), hrule.partsText_eq]
  | group hhead hitems _ ihitems ih =>
      intro ha hb
      obtain ⟨hin, ha⟩ := Stylesheet.fresh_cons.mp ha
      obtain ⟨hin', hb⟩ := Stylesheet.fresh_cons.mp hb
      rw [renderAll, renderAll, ih ha hb, render, render, hhead, ihitems hin hin']
  | same hplain hplain' hsame _ ih =>
      intro ha hb
      rw [renderAll, renderAll, ih (Stylesheet.fresh_cons.mp ha).2 (Stylesheet.fresh_cons.mp hb).2,
        render_of_bare hsame hplain hplain']
  | blank _ ih =>
      intro ha hb
      simp only [Stylesheet.fresh_cons, rules] at ha hb ih
      rw [renderAll, ih ha.2 hb]
      simp [renderAll, render]

theorem Glued.gatherAll {a b : List Item} (h : Glued a b) {f : Bool → Rule → List Diagnostic}
    (hf : ∀ guarded r r', r.Glued r' → f guarded r = f guarded r') (guarded : Bool) :
    Item.gatherAll f guarded a = Item.gatherAll f guarded b := by
  induction h generalizing guarded with
  | nil => rfl
  | rule hrule _ ih => rw [Item.gatherAll, Item.gatherAll, gather, gather, hf _ _ _ hrule, role,
      role, ih]
  | group hhead hitems _ ihitems ih =>
      rw [Item.gatherAll, Item.gatherAll, gather, gather, ihitems, role, role, ih]
  | same hplain hplain' hsame _ ih =>
      rw [Item.gatherAll, Item.gatherAll, gather_of_isPlain hplain, gather_of_isPlain hplain',
        role_of_bare hsame, ih]
  | blank _ ih => exact ih guarded

end Item

/-- Fresh trees that are glued flip to trees that print the same text. -/
theorem Stylesheet.render_flip_of_glued {a b : Stylesheet} (h : Item.Glued a b)
    (ha : Stylesheet.Fresh a) (hb : Stylesheet.Fresh b) (options : FlipOptions) :
    Stylesheet.render (Stylesheet.flip options a) =
      Stylesheet.render (Stylesheet.flip options b) :=
  (h.flipAll options false).renderAll_eq (Item.fresh_flipAll options false a ha)
    (Item.fresh_flipAll options false b hb)

theorem Stylesheet.unplaced_advice_of_glued {a b : Stylesheet} (h : Item.Glued a b)
    (options : FlipOptions) :
    (Stylesheet.advice options a).map Diagnostic.unplaced =
      (Stylesheet.advice options b).map Diagnostic.unplaced := by
  unfold Stylesheet.advice
  split
  · rw [Item.map_gatherAll, Item.map_gatherAll]
    refine h.gatherAll (fun guarded r r' hrule => ?_) false
    cases guarded with
    | true => rfl
    | false => exact hrule.advice options
  · rfl

end StyleFlip
