import StyleFlip.Flip.Rule
import StyleFlip.Proofs.Gluing
import StyleFlip.Proofs.MirroredSelector
import StyleFlip.Proofs.MirroredShorthand

/-!
# Rules that flip back

Which steps a flip of a declaration takes depends on the property. A property that has a counterpart
is neither a shorthand nor one with side keywords, so the flipped property leads to the same steps.
Steps about different things commute, so two flips take each step twice (`value_flip_flip`).
-/

namespace StyleFlip

/-! ### Properties -/

theorem Text.lower_lower (text : Text) : Text.lower (Text.lower text) = Text.lower text := by
  refine Text.lower_of_not_isUpper ?_
  rw [List.any_eq_false]
  intro c hc
  obtain ⟨d, -, rfl⟩ := List.mem_map.mp hc
  rw [isUpper_iff, toNat_toLower]
  split
  · rename_i hupper
    have hrange := isUpper_iff.mp hupper
    omega
  · rename_i hupper
    rwa [isUpper_iff] at hupper

theorem Text.sameIgnoringCase_of_lower {a b : Text} (h : Text.lower a = Text.lower b) (text : Text) :
    Text.sameIgnoringCase a text = Text.sameIgnoringCase b text := by
  rw [Text.sameIgnoringCase, Text.sameIgnoringCase, h]

theorem Shorthand.ofProperty?_of_lower {a b : Text} (h : Text.lower a = Text.lower b) :
    ofProperty? a = ofProperty? b := by
  simp only [ofProperty?, Text.sameIgnoringCase_of_lower h]

theorem hasSideKeywords_of_lower {a b : Text} (h : Text.lower a = Text.lower b) :
    hasSideKeywords a = hasSideKeywords b := by
  have hsame : Text.sameIgnoringCase a = Text.sameIgnoringCase b :=
    funext (Text.sameIgnoringCase_of_lower h)
  rw [hasSideKeywords, hasSideKeywords, listed, listed, hsame]

/-- Only the name of a property is flipped if it has a counterpart. -/
def isNameOnly (property : Text) : Bool :=
  (Shorthand.ofProperty? property).isNone && !hasSideKeywords property

theorem isNameOnly_of_lower {a b : Text} (h : Text.lower a = Text.lower b) :
    isNameOnly a = isNameOnly b := by
  rw [isNameOnly, isNameOnly, Shorthand.ofProperty?_of_lower h, hasSideKeywords_of_lower h]

theorem isNameOnly_sideProperties : (Pairs.names sideProperties).all isNameOnly = true := by
  decide +kernel

theorem not_hasSideKeywords_shorthands :
    shorthands.all (fun entry => !hasSideKeywords entry.1) = true := by
  decide +kernel

theorem isNameOnly_of_counterpart? {property other : Text}
    (h : sideProperties.counterpart? property = some other) :
    isNameOnly property = true ∧ isNameOnly (sideProperties.flip property) = true := by
  obtain ⟨-, -, -, hmem, hmemOther, -⟩ := Pairs.counterpart?_symm Pairs.isSound_sideProperties h
  have hall := List.all_eq_true.mp isNameOnly_sideProperties
  constructor
  · rw [← isNameOnly_of_lower (Text.lower_lower property)]
    exact hall _ hmem
  · have hflip : Text.lower (sideProperties.flip property) = Text.lower other := by
      rw [Pairs.flip, h, Text.lower_inCaseOf]
    rw [isNameOnly_of_lower hflip]
    exact hall _ hmemOther

theorem Shorthand.ofProperty?_flip (property : Text) :
    ofProperty? (sideProperties.flip property) = ofProperty? property := by
  cases hother : sideProperties.counterpart? property with
  | none => rw [Pairs.flip, hother]
  | some other =>
      obtain ⟨hold, hnew⟩ := isNameOnly_of_counterpart? hother
      simp only [isNameOnly, Bool.and_eq_true, Option.isNone_iff_eq_none] at hold hnew
      rw [hold.1, hnew.1]

theorem hasSideKeywords_flip (property : Text) :
    hasSideKeywords (sideProperties.flip property) = hasSideKeywords property := by
  cases hother : sideProperties.counterpart? property with
  | none => rw [Pairs.flip, hother]
  | some other =>
      obtain ⟨hold, hnew⟩ := isNameOnly_of_counterpart? hother
      simp only [isNameOnly, Bool.and_eq_true, Bool.not_eq_true'] at hold hnew
      rw [hold.2, hnew.2]

theorem Shorthand.not_hasSideKeywords {property : Text} {shorthand : Shorthand}
    (h : ofProperty? property = some shorthand) : hasSideKeywords property = false := by
  obtain ⟨entry, hfind, -⟩ := Option.map_eq_some_iff.mp h
  have hsame := List.find?_some hfind
  have hmem := List.mem_of_find?_eq_some hfind
  rw [Text.sameIgnoringCase, beq_iff_eq] at hsame
  rw [hasSideKeywords_of_lower hsame]
  simpa using List.all_eq_true.mp not_hasSideKeywords_shorthands entry hmem

/-! ### Declarations -/

namespace Declaration

/-- The value with its slots rearranged, if the property is a shorthand. -/
def moveSlots (property : Text) (value : Value) : Value :=
  match Shorthand.ofProperty? property with
  | some shorthand => shorthand.flip value
  | none => value

/-- The value with its words flipped. -/
def flipLeaves (options : FlipOptions) (property : Text) (value : Value) : Value :=
  let worded := if hasSideKeywords property then Value.flipKeywords value else value
  if options.flipUrls then Value.flipUrls worded else worded

theorem value_flipSides (d : Declaration) :
    d.flipSides.value =
      { d with
        property := sideProperties.flip d.property
        value := if hasSideKeywords d.property then Value.flipKeywords (moveSlots d.property d.value)
          else moveSlots d.property d.value } := by
  simp only [flipSides, Edit.step, Edit.start, flipKeywords, flipShorthand, flipProperty, moveSlots]
  cases Shorthand.ofProperty? d.property <;>
    · dsimp only
      split <;> rfl

theorem value_flip (options : FlipOptions) (d : Declaration) :
    (d.flip options).value =
      { d with
        property := sideProperties.flip d.property
        value := flipLeaves options d.property (moveSlots d.property d.value) } := by
  rw [Declaration.flip, Edit.stepIf, flipLeaves]
  split
  · rw [Edit.step, value_flipSides]
    rfl
  · rw [value_flipSides]

theorem moveSlots_flip (property : Text) (value : Value) :
    moveSlots (sideProperties.flip property) value = moveSlots property value := by
  rw [moveSlots, moveSlots, Shorthand.ofProperty?_flip]

theorem flipLeaves_flip (options : FlipOptions) (property : Text) (value : Value) :
    flipLeaves options (sideProperties.flip property) value = flipLeaves options property value := by
  rw [flipLeaves, flipLeaves, hasSideKeywords_flip]

theorem moveSlots_flipLeaves (options : FlipOptions) (property : Text) (value : Value) :
    moveSlots property (flipLeaves options property value) =
      flipLeaves options property (moveSlots property value) := by
  unfold moveSlots flipLeaves
  cases hshorthand : Shorthand.ofProperty? property with
  | none => rfl
  | some shorthand =>
      simp only [Shorthand.not_hasSideKeywords hshorthand, Bool.false_eq_true, if_false]
      split
      · exact Shorthand.flip_flipUrls shorthand value
      · rfl

/-- The value with a fourth corner in every list of three corners, if the property lists corners. -/
def settleSlots (property : Text) (value : Value) : Value :=
  match Shorthand.ofProperty? property with
  | some shorthand => shorthand.settle value
  | none => value

/-- The value with the words that flipping it flips in their regular letter case. -/
def settleLeaves (options : FlipOptions) (property : Text) (value : Value) : Value :=
  let worded := if hasSideKeywords property then Value.settleKeywords value else value
  if options.flipUrls then Value.settleUrls worded else worded

/-- The declaration that two flips lead to. -/
def settle (options : FlipOptions) (d : Declaration) : Declaration :=
  { d with
    property := sideProperties.settle d.property
    value := settleLeaves options d.property (settleSlots d.property d.value) }

theorem moveSlots_moveSlots (property : Text) (value : Value) :
    moveSlots property (moveSlots property value) = settleSlots property value := by
  unfold moveSlots settleSlots
  cases Shorthand.ofProperty? property with
  | none => rfl
  | some shorthand => exact shorthand.flip_flip value

theorem settleSlots_moveSlots (property : Text) (value : Value) :
    settleSlots property (moveSlots property value) = moveSlots property value := by
  unfold moveSlots settleSlots
  cases Shorthand.ofProperty? property with
  | none => rfl
  | some shorthand => exact shorthand.settle_flip value

theorem flipLeaves_flipLeaves (options : FlipOptions) (property : Text) (value : Value) :
    flipLeaves options property (flipLeaves options property value) =
      settleLeaves options property value := by
  have hcomm := Value.mapKeywords_mapUrls sideKeywords.flip flipUrl (Value.flipKeywords value)
  unfold flipLeaves settleLeaves
  cases hasSideKeywords property <;> cases options.flipUrls <;>
    simp only [Bool.false_eq_true, if_false, if_true]
  · exact Value.flipUrls_flipUrls value
  · exact Value.flipKeywords_flipKeywords value
  · rw [← Value.flipKeywords_flipKeywords, ← Value.flipUrls_flipUrls]
    exact congrArg Value.flipUrls hcomm

theorem settleLeaves_flipLeaves (options : FlipOptions) (property : Text) (value : Value) :
    settleLeaves options property (flipLeaves options property value) =
      flipLeaves options property value := by
  have hcomm := Value.mapKeywords_mapUrls sideKeywords.settle flipUrl (Value.flipKeywords value)
  unfold flipLeaves settleLeaves
  cases hasSideKeywords property <;> cases options.flipUrls <;>
    simp only [Bool.false_eq_true, if_false, if_true]
  · exact Value.settleUrls_flipUrls value
  · exact Value.settleKeywords_flipKeywords value
  · calc Value.settleUrls (Value.settleKeywords (Value.flipUrls (Value.flipKeywords value)))
        = Value.settleUrls (Value.flipUrls (Value.settleKeywords (Value.flipKeywords value))) :=
          congrArg Value.settleUrls hcomm
      _ = Value.flipUrls (Value.flipKeywords value) := by
          rw [Value.settleKeywords_flipKeywords, Value.settleUrls_flipUrls]

theorem value_flip_flip (options : FlipOptions) (d : Declaration) :
    ((d.flip options).value.flip options).value = d.settle options := by
  rw [value_flip, value_flip, settle]
  dsimp only
  rw [Pairs.flip_flip Pairs.isSound_sideProperties, moveSlots_flip, flipLeaves_flip,
    moveSlots_flipLeaves, moveSlots_moveSlots, flipLeaves_flipLeaves]

theorem value_flip_flip_flip (options : FlipOptions) (d : Declaration) :
    (((d.flip options).value.flip options).value.flip options).value = (d.flip options).value := by
  have hproperty : sideProperties.settle (sideProperties.flip d.property) =
      sideProperties.flip d.property := Pairs.settle_flip Pairs.isSound_sideProperties d.property
  rw [value_flip_flip, value_flip, settle]
  dsimp only
  rw [hproperty]
  congr 1
  -- The flipped property takes the steps that the property takes.
  have hleaves : ∀ value, settleLeaves options (sideProperties.flip d.property) value =
      settleLeaves options d.property value := by
    intro value
    rw [settleLeaves, settleLeaves, hasSideKeywords_flip]
  have hslots : ∀ value, settleSlots (sideProperties.flip d.property) value =
      settleSlots d.property value := by
    intro value
    rw [settleSlots, settleSlots, Shorthand.ofProperty?_flip]
  rw [hleaves, hslots, ← moveSlots_moveSlots, moveSlots_flipLeaves, moveSlots_flipLeaves,
    moveSlots_moveSlots, settleSlots_moveSlots, settleLeaves_flipLeaves]

/-- Whether a second flip of a declaration restores it. -/
def admits (options : FlipOptions) (d : Declaration) : Bool :=
  sideProperties.admits d.property &&
    (match Shorthand.ofProperty? d.property with
      | some shorthand => shorthand.flip d.value = d.value || shorthand.admits d.value
      | none => true) &&
    (!hasSideKeywords d.property || Value.admitsKeywords d.value) &&
    (!options.flipUrls || Value.admitsUrls d.value)

/-- Whether the components of a declaration can be moved as a flip moves them, if it moves any. -/
def canMove (d : Declaration) : Bool :=
  match Shorthand.ofProperty? d.property with
  | some shorthand => shorthand.flip d.value = d.value || shorthand.canMove d.value
  | none => true

variable {options : FlipOptions} {d : Declaration}

theorem shorthand_of_admits (h : d.admits options = true) {shorthand : Shorthand}
    (hshorthand : Shorthand.ofProperty? d.property = some shorthand) :
    shorthand.flip d.value = d.value ∨ shorthand.admits d.value = true := by
  simp only [admits, hshorthand, Bool.and_eq_true, Bool.or_eq_true, decide_eq_true_eq] at h
  exact h.1.1.2

theorem canMove_of_admits (h : d.admits options = true) : d.canMove = true := by
  unfold canMove
  split
  · rename_i shorthand hshorthand
    rw [Bool.or_eq_true, decide_eq_true_eq]
    exact (shorthand_of_admits h hshorthand).imp_right Shorthand.canMove_of_admits
  · rfl

theorem settleSlots_of_admits (h : d.admits options = true) :
    settleSlots d.property d.value = d.value := by
  unfold settleSlots
  cases hshorthand : Shorthand.ofProperty? d.property with
  | none => rfl
  | some shorthand =>
      rcases shorthand_of_admits h hshorthand with hsame | hadmits
      · dsimp only
        rw [← shorthand.flip_flip, hsame, hsame]
      · exact Shorthand.settle_of_admits hadmits

/-- A second flip of a declaration restores it. -/
theorem settle_of_admits (h : d.admits options = true) : d.settle options = d := by
  have hslots := settleSlots_of_admits h
  simp only [admits, Bool.and_eq_true] at h
  obtain ⟨⟨⟨hproperty, -⟩, hkeywords⟩, hurls⟩ := h
  have hworded : (if hasSideKeywords d.property then Value.settleKeywords d.value else d.value) =
      d.value := by
    split
    · rename_i hkeyword
      exact Value.settleKeywords_of_admits (by simpa [hkeyword] using hkeywords)
    · rfl
  rw [settle, Pairs.settle_of_admits hproperty, hslots, settleLeaves, hworded]
  split
  · rename_i hurl
    rw [Value.settleUrls_of_admits (by simpa [hurl] using hurls)]
  · rfl

end Declaration

/-! ### Bodies and rules -/

/-- Replaces the declaration that an item is. -/
def BodyItem.mapDeclaration (f : Declaration → Declaration) : BodyItem → BodyItem
  | .declaration d => .declaration (f d)
  | item => item

namespace Body

/-- Replaces the declarations that no marker guards; `guarded` is about the first item. -/
def mapFrom (f : Declaration → Declaration) (guarded : Bool) : Body → Body
  | [] => []
  | item :: rest =>
    (if guarded then item else item.mapDeclaration f) ::
      mapFrom f (item.role.guardNext guarded) rest

theorem flipFrom_eq_mapFrom (options : FlipOptions) (guarded : Bool) (body : Body) :
    flipFrom options guarded body = mapFrom (fun d => (d.flip options).value) guarded body := by
  induction body generalizing guarded with
  | nil => rfl
  | cons item rest ih =>
      rw [flipFrom, mapFrom, ih]
      congr 1
      cases item <;> cases guarded <;> rfl

theorem mapFrom_mapFrom (f g : Declaration → Declaration) (guarded : Bool) (body : Body) :
    mapFrom f guarded (mapFrom g guarded body) = mapFrom (fun d => f (g d)) guarded body := by
  induction body generalizing guarded with
  | nil => rfl
  | cons item rest ih =>
      have hrole : (if guarded then item else item.mapDeclaration g).role = item.role := by
        cases item <;> cases guarded <;> rfl
      rw [mapFrom, mapFrom, hrole, ih, mapFrom]
      congr 1
      cases item <;> cases guarded <;> rfl

/-- The body that two flips lead to. -/
def settle (options : FlipOptions) (body : Body) : Body :=
  mapFrom (Declaration.settle options) false body

theorem value_flip_flip (options : FlipOptions) (body : Body) :
    (Body.flip options (Body.flip options body).value).value = body.settle options := by
  rw [value_flip, value_flip, flipFrom_eq_mapFrom, flipFrom_eq_mapFrom, mapFrom_mapFrom,
    funext (Declaration.value_flip_flip options), settle]

theorem value_flip_flip_flip (options : FlipOptions) (body : Body) :
    (Body.flip options (Body.flip options (Body.flip options body).value).value).value =
      (Body.flip options body).value := by
  simp only [value_flip, flipFrom_eq_mapFrom, mapFrom_mapFrom, Declaration.value_flip_flip_flip]

/-- The declarations that no marker guards; `guarded` is about the first item. -/
def unguardedFrom (guarded : Bool) : Body → List Declaration
  | [] => []
  | item :: rest =>
    (if guarded then [] else item.declaration?.toList) ++
      unguardedFrom (item.role.guardNext guarded) rest

theorem unguarded_eq (body : Body) : body.unguarded = unguardedFrom false body := by
  have hfrom : ∀ guarded, ((withGuards BodyItem.role guarded body).filterMap
      fun pair => if pair.2 then none else pair.1.declaration?) =
        unguardedFrom guarded body := by
    induction body with
    | nil => intro guarded; rfl
    | cons item rest ih =>
        intro guarded
        rw [unguardedFrom, ← ih, withGuards]
        cases guarded with
        | true => rfl
        | false => cases hitem : item.declaration? <;> simp [hitem]
  exact hfrom false

theorem mapFrom_eq_self {f : Declaration → Declaration} {guarded : Bool} {body : Body}
    (h : ∀ d ∈ unguardedFrom guarded body, f d = d) : mapFrom f guarded body = body := by
  induction body generalizing guarded with
  | nil => rfl
  | cons item rest ih =>
      rw [mapFrom, ih fun d hd => h d (List.mem_append_right _ hd)]
      congr 1
      cases item with
      | declaration d =>
          cases guarded with
          | true => rfl
          | false =>
              have hd := h d (by simp [unguardedFrom, BodyItem.declaration?])
              exact congrArg BodyItem.declaration hd
      | _ => cases guarded <;> rfl

end Body

theorem Selector.value_flip_flip (options : FlipOptions) (selector : Selector) :
    (Selector.flip options (Selector.flip options selector).value).value =
      selector.map (SelectorPart.settle options) := by
  rw [Selector.value_flip, Selector.value_flip, List.map_map]
  exact List.map_congr_left fun part _ => SelectorPart.flip_flip options part

namespace Rule

/-- The rule that two flips lead to. -/
def settle (options : FlipOptions) (r : Rule) : Rule where
  selector := r.selector.map (SelectorPart.settle options)
  body := r.body.settle options
  span := r.span
  source := if r.isChangedBy options then none else r.source

theorem flip_of_unchanged {options : FlipOptions} {r : Rule} (h : r.isChangedBy options = false) :
    r.flip options = r := by
  have hparts := h
  rw [isChangedBy, Bool.or_eq_false_iff] at hparts
  rw [flip, Selector.flip_from options r.selector hparts.1, Body.flip_from options r.body hparts.2, h]
  rfl

theorem source_flip (options : FlipOptions) (r : Rule) :
    (r.flip options).source = if r.isChangedBy options then none else r.source := rfl

/-- A source text that is lost does not come back. -/
theorem source_flip_flip (options : FlipOptions) (r : Rule) :
    ((r.flip options).flip options).source = (r.flip options).source := by
  cases hchanged : r.isChangedBy options with
  | false => rw [flip_of_unchanged hchanged, flip_of_unchanged hchanged]
  | true =>
      rw [source_flip, source_flip, hchanged]
      split <;> rfl

theorem flip_flip (options : FlipOptions) (r : Rule) :
    (r.flip options).flip options = r.settle options := by
  have hselector := Selector.value_flip_flip options r.selector
  have hbody := Body.value_flip_flip options r.body
  have hsource := source_flip_flip options r
  rw [flip, settle, Rule.mk.injEq]
  exact ⟨hselector, hbody, rfl, hsource⟩

theorem flip_flip_flip (options : FlipOptions) (r : Rule) :
    ((r.flip options).flip options).flip options = r.flip options := by
  have hselector : (Selector.flip options (Selector.flip options
      (Selector.flip options r.selector).value).value).value =
        (Selector.flip options r.selector).value := by
    rw [Selector.value_flip_flip, Selector.value_flip, List.map_map]
    exact List.map_congr_left fun part _ => SelectorPart.settle_flip options part
  have hbody := Body.value_flip_flip_flip options r.body
  have hsource := (source_flip_flip options (r.flip options)).trans (source_flip_flip options r)
  rw [flip, Rule.mk.injEq]
  exact ⟨hselector, hbody, rfl, hsource⟩

/-- Whether a second flip of a rule restores its parts. -/
def admits (options : FlipOptions) (r : Rule) : Bool :=
  r.selector.all (SelectorPart.admits options) &&
    r.body.unguarded.all (Declaration.admits options)

/-- A second flip of a rule restores its text. -/
theorem partsText_flip_flip {options : FlipOptions} {r : Rule} (h : r.admits options = true) :
    ((r.flip options).flip options).partsText = r.partsText := by
  rw [admits, Bool.and_eq_true, Body.unguarded_eq] at h
  have hselector : r.selector.map (SelectorPart.settle options) = r.selector := by
    conv => rhs; rw [← List.map_id r.selector]
    refine List.map_congr_left fun part hpart => ?_
    exact SelectorPart.settle_of_admits (List.all_eq_true.mp h.1 part hpart)
  have hbody : r.body.settle options = r.body := by
    refine Body.mapFrom_eq_self fun d hd => ?_
    exact Declaration.settle_of_admits (List.all_eq_true.mp h.2 d hd)
  rw [flip_flip, settle, partsText, hselector, hbody, partsText]

end Rule

end StyleFlip
