import Mathlib.Data.List.Forall2
import StyleFlip.Proofs.FlipSettles

/-!
# What a flip leaves alone

A flip keeps the items of a stylesheet and of its rules, one by one and at every depth. It may
change the parts of selectors that the options name, the properties that have a counterpart, and the
values that speak about sides. Frames say what stays: `Item.Framed` for trees, and for what is in
them `Rule.Frame`, `SelectorPart.Frame` and `Declaration.Frame`.

Strings, numbers, hashes and comments in a value are never changed. They move with the components of
a shorthand, and the second of three corners comes twice.
-/

namespace StyleFlip

/-! ### Literals in values -/

/-- Leaves whose text no flip may change. -/
def LeafKind.isLiteral : LeafKind → Bool
  | .string => true
  | .number => true
  | .hash => true
  | .comment => true
  | _ => false

namespace Component

mutual

/-- The literals in a component, at any depth. -/
def literals : Component → List (LeafKind × Text)
  | .leaf kind text => if kind.isLiteral then [(kind, text)] else []
  | .function _ args _ => literalsAll args

def literalsAll : List Component → List (LeafKind × Text)
  | [] => []
  | c :: rest => literals c ++ literalsAll rest

end

theorem literalsAll_eq_flatMap (components : List Component) :
    literalsAll components = components.flatMap literals := by
  induction components with
  | nil => rfl
  | cons c rest ih => rw [literalsAll, ih, List.flatMap_cons]

@[simp]
theorem literalsAll_append (a b : List Component) :
    literalsAll (a ++ b) = literalsAll a ++ literalsAll b := by
  simp only [literalsAll_eq_flatMap, List.flatMap_append]

theorem literalsAll_perm {a b : List Component} (h : a.Perm b) :
    (literalsAll a).Perm (literalsAll b) := by
  rw [literalsAll_eq_flatMap, literalsAll_eq_flatMap]
  exact h.flatMap_right literals

theorem literalsAll_mapLeavesAll (enter : Text → Bool) {f : LeafKind → Text → Text}
    (hf : ∀ kind text, kind.isLiteral = true → f kind text = text) (components : List Component) :
    literalsAll (mapLeavesAll enter f components) = literalsAll components := by
  induction components using listInduction with
  | nil => rfl
  | leaf kind text rest ih =>
      rw [mapLeavesAll, mapLeaves, literalsAll, literalsAll, ih, literals, literals]
      by_cases hkind : kind.isLiteral = true
      · rw [hf kind text hkind]
      · rw [if_neg hkind, if_neg hkind]
  | function name args closed rest ihargs ihrest =>
      rw [mapLeavesAll, mapLeaves, literalsAll, literalsAll, ihrest, literals, literals]
      split
      · rw [ihargs]
      · rfl

end Component

open Component

/-! ### Literals in shorthands -/

namespace Value

/-- A value with its slots filled holds its blanks and comments and what fills the slots. -/
theorem fill_perm (value : Value) {runs : List (List Component)}
    (h : (slotsOf value).length = runs.length) :
    (fill value runs).Perm (value.filter isTrivia ++ runs.flatten) := by
  induction value generalizing runs with
  | nil =>
      obtain rfl := List.length_eq_zero_iff.mp h.symm
      exact .refl _
  | cons c value ih =>
      cases hc : c.isTrivia with
      | true =>
          rw [slotsOf_trivia hc] at h
          have hfill : fill (c :: value) runs = c :: fill value runs := by simp [fill, hc]
          rw [hfill, List.filter_cons_of_pos hc]
          exact (ih h).cons c
      | false =>
          rw [slotsOf_slot hc] at h
          cases runs with
          | nil => contradiction
          | cons run runs =>
              have hfill : fill (c :: value) (run :: runs) = run ++ fill value runs := by
                simp [fill, hc]
              rw [hfill, List.filter_cons_of_neg (by simp [hc]), List.flatten_cons]
              apply ((ih (Nat.succ.inj h)).append_left run).trans
              exact List.perm_append_comm_assoc ..

theorem perm_filter_append_slotsOf (value : Value) :
    value.Perm (value.filter isTrivia ++ slotsOf value) := by
  have hlength : (slotsOf value).length = ((slotsOf value).map ([·])).length := by simp
  have hperm := fill_perm value hlength
  rwa [fill_slotsOf, ← List.flatMap_def, List.flatMap_singleton'] at hperm

/-- Rearranging the slots of a value changes its literals as it changes those of the slots. -/
theorem literalsAll_rearrange {f : List Component → List (List Component)} {value : Value}
    (hf : Slotwise (slots value) (f (slots value))) {more : List (LeafKind × Text)}
    (h : (literalsAll (f (slots value)).flatten).Perm (literalsAll (slots value) ++ more)) :
    (literalsAll (rearrange f value)).Perm (literalsAll value ++ more) := by
  have hnew := literalsAll_perm (fill_perm (front value) hf.length.symm)
  have hold : (literalsAll (front value)).Perm
      (literalsAll ((front value).filter isTrivia ++ slots value)) :=
    literalsAll_perm (perm_filter_append_slotsOf (front value))
  conv => rhs; rw [← front_append_back value]
  rw [rearrange, literalsAll_append, literalsAll_append]
  rw [literalsAll_append] at hnew hold
  apply List.perm_iff_count.mpr
  intro literal
  have hslots := h.count_eq literal
  have hnew := hnew.count_eq literal
  have hold := hold.count_eq literal
  simp only [List.count_append] at hslots hnew hold ⊢
  omega

end Value

/-- The corner that flipping a list of corners shows twice: the second of three. -/
def copiedCorner : List Component → List Component
  | [_, second, _] => [second]
  | _ => []

/-- The components of a value that flipping a shorthand shows twice. -/
def Shorthand.copied : Shorthand → Value → List Component
  | .box, _ => []
  | .corners, value => (Value.groupsAt '/' (Value.slots value)).flatMap copiedCorner

theorem copiedCorner_eq_nil {group : List Component} (h : group.length ≠ 3) :
    copiedCorner group = [] := by
  unfold copiedCorner
  split
  · simp at h
  · rfl

theorem literalsAll_flipCornerGroup (group : List Component) :
    (literalsAll (flipCornerGroup group).flatten).Perm
      (literalsAll group ++ literalsAll (copiedCorner group)) := by
  by_cases hthree : group.length = 3
  · obtain ⟨a, b, c, rfl⟩ := List.length_eq_three.mp hthree
    have hflip : (flipCornerGroup [a, b, c]).flatten =
        [b] ++ [a, b, .leaf .whitespace [' '], c] := rfl
    have hcopied : copiedCorner [a, b, c] = [b] := rfl
    have hblank : literalsAll [a, b, .leaf .whitespace [' '], c] = literalsAll [a, b, c] := by
      simp [literalsAll, literals, LeafKind.isLiteral]
    rw [hflip, hcopied, literalsAll_append, hblank]
    exact List.perm_append_comm
  · rw [flipCornerGroup_eq hthree, ← List.flatMap_def, List.flatMap_singleton',
      copiedCorner_eq_nil hthree]
    simpa [literalsAll] using literalsAll_perm (groupOrder_perm group)

theorem literalsAll_flipCorners (slots : List Component) :
    (literalsAll (flipCorners slots).flatten).Perm
      (literalsAll slots ++ literalsAll ((Value.groupsAt '/' slots).flatMap copiedCorner)) := by
  induction slots using slashInduction with
  | plain group hgroup =>
      rw [flipCorners_of_plain hgroup, groupsAt_of_plain hgroup, List.flatMap_singleton]
      exact literalsAll_flipCornerGroup group
  | cut group rest hgroup ih =>
      have hslash : literals slash = [] := rfl
      rw [flipCorners_cut hgroup, groupsAt_cut hgroup, List.flatMap_cons, List.flatten_append,
        List.flatten_cons]
      apply List.perm_iff_count.mpr
      intro literal
      have hgroup' := (literalsAll_flipCornerGroup group).count_eq literal
      have hrest := ih.count_eq literal
      simp only [literalsAll_append, literalsAll, hslash, List.count_append, List.count_nil]
        at hgroup' hrest ⊢
      omega

/-- Flipping a shorthand moves literals and shows some twice. -/
theorem Shorthand.literalsAll_flip (shorthand : Shorthand) (value : Value) :
    (literalsAll (shorthand.flip value)).Perm
      (literalsAll value ++ literalsAll (shorthand.copied value)) := by
  rw [flip_eq_rearrange]
  cases shorthand with
  | box =>
      apply Value.literalsAll_rearrange (slotwise_flipBox _)
      rw [flipBox, ← List.flatMap_def, List.flatMap_singleton']
      simpa [copied, literalsAll] using literalsAll_perm (boxOrder_perm (Value.slots value))
  | corners =>
      apply Value.literalsAll_rearrange (slotwise_byGroups slotwise_flipCornerGroup _)
      exact literalsAll_flipCorners (Value.slots value)

/-! ### Declarations -/

theorem Value.flipUrls_eq_self {value : Value} (h : ∀ url ∈ urlsAll value, flipUrl url = url) :
    flipUrls value = value := by
  unfold flipUrls
  induction value using Component.listInduction with
  | nil => rfl
  | leaf kind text rest ih =>
      have hrest := ih fun url hurl => h url (by simp [urlsAll, hurl])
      have htext : (if kind = .url then flipUrl text else text) = text := by
        split
        · rename_i hkind
          subst hkind
          exact h text (by simp [urlsAll, urls])
        · rfl
      rw [mapLeavesAll, mapLeaves, htext, hrest]
  | function name args closed rest ihargs ihrest =>
      have hargs := ihargs fun url hurl => h url (by simp [urlsAll, urls, hurl])
      have hrest := ihrest fun url hurl => h url (by simp [urlsAll, hurl])
      rw [mapLeavesAll, mapLeaves, if_pos rfl, hargs, hrest]

namespace Declaration

/-- The components of a declaration that a flip shows twice. -/
def copied (d : Declaration) : List Component :=
  match Shorthand.ofProperty? d.property with
  | some shorthand => shorthand.copied d.value
  | none => []

/-- What a flip keeps of a declaration. -/
structure Frame (options : FlipOptions) (d d' : Declaration) : Prop where
  colon : d'.colon = d.colon
  semicolon : d'.semicolon = d.semicolon
  span : d'.span = d.span
  property : sideProperties.counterpart? d.property = none → d'.property = d.property
  /-- The value stays if the property says nothing about sides and there is no url to flip. -/
  value : Shorthand.ofProperty? d.property = none → hasSideKeywords d.property = false →
    (options.flipUrls = true → ∀ url ∈ urlsAll d.value, flipUrl url = url) → d'.value = d.value
  literals : (literalsAll d'.value).Perm (literalsAll d.value ++ literalsAll d.copied)

theorem literalsAll_flipLeaves (options : FlipOptions) (property : Text) (value : Value) :
    literalsAll (flipLeaves options property value) = literalsAll value := by
  have hkeywords : ∀ value, literalsAll (Value.flipKeywords value) = literalsAll value := by
    apply literalsAll_mapLeavesAll
    intro kind text hkind
    cases kind <;> first | rfl | contradiction
  have hurls : ∀ value, literalsAll (Value.flipUrls value) = literalsAll value := by
    apply literalsAll_mapLeavesAll
    intro kind text hkind
    cases kind <;> first | rfl | contradiction
  unfold flipLeaves
  cases options.flipUrls <;> cases hasSideKeywords property <;> simp [hkeywords, hurls]

theorem literalsAll_moveSlots (d : Declaration) :
    (literalsAll (moveSlots d.property d.value)).Perm
      (literalsAll d.value ++ literalsAll d.copied) := by
  unfold moveSlots copied
  cases Shorthand.ofProperty? d.property with
  | none => simp [literalsAll]
  | some shorthand => exact shorthand.literalsAll_flip d.value

theorem frame_flip (options : FlipOptions) (d : Declaration) :
    d.Frame options (d.flip options).value := by
  rw [value_flip]
  constructor
  case colon => rfl
  case semicolon => rfl
  case span => rfl
  case property =>
    intro hnone
    simp only [Pairs.flip, hnone]
  case value =>
    intro hshorthand hkeywords hurls
    simp only [moveSlots, hshorthand, flipLeaves, hkeywords, Bool.false_eq_true, if_false]
    split
    · exact Value.flipUrls_eq_self (hurls ‹_›)
    · rfl
  case literals =>
    rw [literalsAll_flipLeaves]
    exact literalsAll_moveSlots d

end Declaration

/-! ### Selectors, bodies and rules -/

/-- What a flip keeps of a part of a selector. -/
inductive SelectorPart.Frame (options : FlipOptions) : SelectorPart → SelectorPart → Prop
  | same (part : SelectorPart) : Frame options part part
  | pseudo (hswap : options.swapPseudo = true) (text text' : Text) :
      Frame options (.pseudo text) (.pseudo text')
  | className (hflip : options.flipSelectors = true) (name name' : Text) :
      Frame options (.className name) (.className name')
  | idName (hflip : options.flipSelectors = true) (name name' : Text) :
      Frame options (.idName name) (.idName name')
  | attr (hflip : options.flipSelectors = true) (a : Attribute) (value : Text) :
      Frame options (.attr a) (.attr { a with value })

theorem SelectorPart.frame_flip (options : FlipOptions) (part : SelectorPart) :
    part.Frame options (part.flip options) := by
  cases part with
  | pseudo text =>
      rw [flip_pseudo, flipPseudo]
      split
      · exact .pseudo ‹_› _ _
      · exact .same _
  | className name =>
      rw [flip_className, flipName]
      split
      · exact .className ‹_› _ _
      · exact .same _
  | idName name =>
      rw [flip_idName, flipName]
      split
      · exact .idName ‹_› _ _
      · exact .same _
  | attr a =>
      rw [flip_attr, flipName]
      split
      · exact .attr ‹_› a _
      · exact .same _
  | _ =>
      rw [flip_of_isFixed rfl]
      exact .same _

inductive BodyItem.Frame (options : FlipOptions) : BodyItem → BodyItem → Prop
  | same (item : BodyItem) : Frame options item item
  | declaration {d d' : Declaration} (h : d.Frame options d') :
      Frame options (.declaration d) (.declaration d')

theorem BodyItem.frame_mapDeclaration (options : FlipOptions) (item : BodyItem) :
    item.Frame options (item.mapDeclaration fun d => (d.flip options).value) := by
  cases item with
  | declaration d => exact .declaration (d.frame_flip options)
  | _ => exact .same _

theorem Body.forall₂_frame_flip (options : FlipOptions) (body : Body) :
    List.Forall₂ (BodyItem.Frame options) body (Body.flip options body).value := by
  have hfrom : ∀ guarded, List.Forall₂ (BodyItem.Frame options) body
      (mapFrom (fun d => (d.flip options).value) guarded body) := by
    induction body with
    | nil => exact fun _ => .nil
    | cons item rest ih =>
        intro guarded
        refine .cons ?_ (ih _)
        cases guarded with
        | true => exact .same item
        | false => exact item.frame_mapDeclaration options
  rw [Body.value_flip, flipFrom_eq_mapFrom]
  exact hfrom false

/-- What a flip keeps of a rule. The source text is dropped when something else changes. -/
structure Rule.Frame (options : FlipOptions) (r r' : Rule) : Prop where
  selector : List.Forall₂ (SelectorPart.Frame options) r.selector r'.selector
  body : List.Forall₂ (BodyItem.Frame options) r.body r'.body
  span : r'.span = r.span
  source : r'.source = r.source ∨ r'.source = none

theorem Rule.frame_flip (options : FlipOptions) (r : Rule) : r.Frame options (r.flip options) where
  selector := by
    rw [Rule.flip, Selector.value_flip, List.forall₂_map_right_iff, List.forall₂_same]
    exact fun part _ => part.frame_flip options
  body := Body.forall₂_frame_flip options r.body
  span := rfl
  source := by
    rw [source_flip]
    split
    · exact .inr rfl
    · exact .inl rfl

/-! ### Stylesheets -/

/-- What a flip keeps of a list of items: all but what is in rules, at any depth. -/
inductive Item.Framed (options : FlipOptions) : List Item → List Item → Prop
  | nil : Framed options [] []
  | same (item : Item) {a b : List Item} (h : Framed options a b) :
      Framed options (item :: a) (item :: b)
  | rule {r r' : Rule} {a b : List Item} (hrule : r.Frame options r') (h : Framed options a b) :
      Framed options (.rule r :: a) (.rule r' :: b)
  | group (head : AtHead) {items items' a b : List Item} (hitems : Framed options items items')
      (h : Framed options a b) : Framed options (.group head items :: a) (.group head items' :: b)

theorem Item.framed_flipAll (options : FlipOptions) (guarded : Bool) (items : List Item) :
    Framed options items (flipAll options guarded items) := by
  induction items using Item.listInduction generalizing guarded with
  | nil => exact .nil
  | rule r rest ih =>
      rw [flipAll]
      cases guarded with
      | true => exact .same _ (ih _)
      | false => exact .rule (r.frame_flip options) (ih _)
  | group head items rest ihitems ih =>
      rw [flipAll]
      cases guarded with
      | true => exact .same _ (ih _)
      | false => exact .group head (ihitems false) (ih _)
  | plain item rest hplain ih =>
      rw [flipAll, flip_of_isPlain hplain, ite_self]
      exact .same item (ih _)

/-- A flip changes only what it may change. -/
theorem Stylesheet.framed_flip (options : FlipOptions) (sheet : Stylesheet) :
    Item.Framed options sheet (Stylesheet.flip options sheet) :=
  Item.framed_flipAll options false sheet

end StyleFlip
