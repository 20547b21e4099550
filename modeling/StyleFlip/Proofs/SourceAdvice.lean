import Mathlib.Data.List.Flatten
import StyleFlip.Proofs.ExactSpans
import StyleFlip.Proofs.FlipSettles
import StyleFlip.Proofs.GuardedItems

/-!
# Advice is about the source

The advice about a position is read off a declaration whose property and value are flipped already,
and the advice about a float off the whole flipped rule. Still it can be told from the source
(`Rule.advice_eq_findings`). A flip moves names and words only within its tables, and what advice
looks for is either in none of them or there with its counterpart.
-/

namespace StyleFlip

/-! ### Words -/

theorem Pairs.counterpart?_of_lower {a b : Text} (h : Text.lower a = Text.lower b)
    (pairs : Pairs) : pairs.counterpart? a = pairs.counterpart? b := by
  simp only [counterpart?, Text.sameIgnoringCase_of_lower h]

/-- Whether a text is a name that is not in the table does not depend on a flip. -/
theorem Pairs.sameIgnoringCase_flip {pairs : Pairs} (hsound : isSound pairs = true) {name : Text}
    (hname : Text.lower name ∉ names pairs) (text : Text) :
    Text.sameIgnoringCase (pairs.flip text) name = Text.sameIgnoringCase text name := by
  cases hother : pairs.counterpart? text with
  | none => rw [flip, hother]
  | some other =>
      obtain ⟨-, hisName, -, hmem, hmemOther, -⟩ := counterpart?_symm hsound hother
      have hold : Text.lower text ≠ Text.lower name := fun heq => hname (heq ▸ hmem)
      have hnew : Text.lower (pairs.flip text) ≠ Text.lower name := by
        rw [flip, hother, Text.lower_inCaseOf, lower_of_isName hisName]
        exact fun heq => hname (heq ▸ hmemOther)
      rw [Text.sameIgnoringCase, Text.sameIgnoringCase, beq_false_of_ne hold, beq_false_of_ne hnew]

/-- The properties that advice looks for. -/
def advisedProperties : List Text := positionProperties ++ ["float", "display"].map String.toList

/-- They have no counterpart, and they are no shorthands. -/
theorem of_mem_advisedProperties :
    ∀ name ∈ advisedProperties,
      Text.lower name ∉ Pairs.names sideProperties ∧ Shorthand.ofProperty? name = none := by
  decide +kernel

theorem sameIgnoringCase_flip_advised {name : Text} (h : name ∈ advisedProperties)
    (property : Text) :
    Text.sameIgnoringCase (sideProperties.flip property) name =
      Text.sameIgnoringCase property name :=
  Pairs.sameIgnoringCase_flip Pairs.isSound_sideProperties (of_mem_advisedProperties name h).1
    property

theorem isPosition_flip (property : Text) :
    isPosition (sideProperties.flip property) = isPosition property := by
  rw [Bool.eq_iff_iff]
  simp only [isPosition, listed, List.any_eq_true]
  refine exists_congr fun name => and_congr_right fun hmem => ?_
  rw [sameIgnoringCase_flip_advised (List.mem_append_left _ hmem)]

/-- The keyword of the left or the right side. -/
def isSideName (text : Text) : Bool :=
  Text.sameIgnoringCase text "left".toList || Text.sameIgnoringCase text "right".toList

theorem isSideName_iff {text : Text} :
    isSideName text = true ↔
      Text.lower text = "left".toList ∨ Text.lower text = "right".toList := by
  have hleft : Text.lower "left".toList = "left".toList := by decide
  have hright : Text.lower "right".toList = "right".toList := by decide
  rw [isSideName, Bool.or_eq_true, Text.sameIgnoringCase, Text.sameIgnoringCase, beq_iff_eq,
    beq_iff_eq, hleft, hright]

theorem isSideName_of_counterpart? {text other : Text} (h : isSideName text = true)
    (hother : sideKeywords.counterpart? text = some other) : isSideName other = true := by
  have hleft : sideKeywords.counterpart? "left".toList = some "right".toList := by decide
  have hright : sideKeywords.counterpart? "right".toList = some "left".toList := by decide
  rw [← Pairs.counterpart?_of_lower (Text.lower_lower text)] at hother
  rcases isSideName_iff.mp h with hlower | hlower
  · rw [hlower, hleft] at hother
    obtain rfl := Option.some.inj hother
    decide
  · rw [hlower, hright] at hother
    obtain rfl := Option.some.inj hother
    decide

theorem isSideName_of_lower {a b : Text} (h : Text.lower a = Text.lower b) :
    isSideName a = isSideName b := by
  rw [isSideName, isSideName, Text.sameIgnoringCase_of_lower h, Text.sameIgnoringCase_of_lower h]

theorem isSideName_flip (text : Text) : isSideName (sideKeywords.flip text) = isSideName text := by
  cases hother : sideKeywords.counterpart? text with
  | none => rw [Pairs.flip, hother]
  | some other =>
      -- Each of the two texts is the counterpart of the other, up to case.
      have hback := Pairs.counterpart?_flip Pairs.isSound_sideKeywords hother
      have hflip : isSideName (sideKeywords.flip text) = isSideName other := by
        apply isSideName_of_lower
        rw [Pairs.flip, hother, Text.lower_inCaseOf]
      rw [Bool.eq_iff_iff]
      constructor
      · intro h
        rw [← isSideName_of_lower (Text.lower_lower text)]
        exact isSideName_of_counterpart? h hback
      · intro h
        rw [hflip]
        exact isSideName_of_counterpart? h hother

/-! ### Values -/

namespace Component

def flipKeywords : Component → Component :=
  mapLeaves (fun name => !Text.sameIgnoringCase name "var".toList)
    fun kind text => if kind = .ident then sideKeywords.flip text else text

def flipUrls : Component → Component :=
  mapLeaves (fun _ => true) fun kind text => if kind = .url then flipUrl text else text

def isVertical (c : Component) : Bool := c.isWord "top".toList || c.isWord "bottom".toList

/-- A word of the left or the right side. -/
def isSide (c : Component) : Bool := c.isWord "left".toList || c.isWord "right".toList

theorem keeps_flipKeywords : Keeps flipKeywords := by
  apply keeps_mapLeaves
  rintro kind text (rfl | rfl) <;> rfl

theorem isWord_flipKeywords {word : Text} (h : Text.lower word ∉ Pairs.names sideKeywords)
    (c : Component) : c.flipKeywords.isWord word = c.isWord word := by
  cases c with
  | function => rfl
  | leaf kind text =>
      cases kind with
      | ident => exact Pairs.sameIgnoringCase_flip Pairs.isSound_sideKeywords h text
      | _ => rfl

theorem isVertical_flipKeywords (c : Component) : c.flipKeywords.isVertical = c.isVertical := by
  have htop : Text.lower "top".toList ∉ Pairs.names sideKeywords := by decide
  have hbottom : Text.lower "bottom".toList ∉ Pairs.names sideKeywords := by decide
  rw [isVertical, isWord_flipKeywords htop, isWord_flipKeywords hbottom, isVertical]

theorem isSide_flipKeywords (c : Component) : c.flipKeywords.isSide = c.isSide := by
  cases c with
  | function => rfl
  | leaf kind text =>
      cases kind with
      | ident => exact isSideName_flip text
      | _ => rfl

theorem isWord_flipUrls (word : Text) (c : Component) : c.flipUrls.isWord word = c.isWord word := by
  cases c with
  | function => rfl
  | leaf kind text => cases kind <;> rfl

theorem isSide_flipUrls (c : Component) : c.flipUrls.isSide = c.isSide := by
  rw [isSide, isWord_flipUrls, isWord_flipUrls, isSide]

end Component

namespace Value

theorem flipKeywords_eq_map (value : Value) : flipKeywords value = value.map (·.flipKeywords) :=
  Component.mapLeavesAll_eq_map _ _ value

theorem flipUrls_eq_map (value : Value) : flipUrls value = value.map (·.flipUrls) :=
  Component.mapLeavesAll_eq_map _ _ value

theorem hasWord_left_or_right (value : Value) :
    (hasWord "left".toList value || hasWord "right".toList value) = value.any (·.isSide) := by
  rw [Bool.eq_iff_iff]
  simp only [hasWord, Component.isSide, Bool.or_eq_true, List.any_eq_true, and_or_left, exists_or]

theorem groupsAt_eq_splitOnP (mark : Char) (slots : List Component) :
    groupsAt mark slots = slots.splitOnP (·.isDelim mark) := by
  induction slots with
  | nil => rfl
  | cons c rest ih =>
      have hne := List.splitOnP_ne_nil (·.isDelim mark) rest
      obtain ⟨group, more, hsplit⟩ := List.exists_cons_of_ne_nil hne
      rw [groupsAt, ih, List.splitOnP_cons_eq_if_modifyHead, hsplit]
      rfl

theorem groupsAt_map {g : Component → Component} (hg : Component.Keeps g) (mark : Char)
    (slots : List Component) :
    groupsAt mark (slots.map g) = (groupsAt mark slots).map (List.map g) := by
  induction slots with
  | nil => rfl
  | cons c rest ih =>
      rw [List.map_cons, groupsAt, groupsAt, hg.delim, ih]
      split
      · rfl
      · cases groupsAt mark rest <;> rfl

end Value

/-! ### Declarations -/

namespace Declaration

/-- The component that says where a layer of a position stands horizontally. -/
inductive Horizontal : List Component → Component → Prop
  | only (c : Component) : Horizontal [c] c
  | first {c : Component} (other : Component) (h : c.isVertical = false) : Horizontal [c, other] c
  | second {vertical : Component} (c : Component) (h : vertical.isVertical = true) :
      Horizontal [vertical, c] c

/-- A number or a call of `calc`. -/
inductive Length : Component → Prop
  | number (text : Text) : Length (.leaf .number text)
  | call {name : Text} (args : List Component) (closed : Bool)
      (h : Text.lower name = "calc".toList) : Length (.function name args closed)

/-- A position of which some layer has a length as its horizontal component. -/
structure IsAmbiguous (d : Declaration) : Prop where
  property : d.hasProperty "background-position".toList = true ∨
    d.hasProperty "background-position-x".toList = true
  layer : ∃ layer ∈ (Value.slots d.value).splitOnP (·.isDelim ','),
    ∃ c, Horizontal layer c ∧ Length c

theorem horizontalSlot?_pair (first second : Component) :
    horizontalSlot? [first, second] = if first.isVertical then some second else some first := rfl

theorem horizontal_iff {layer : List Component} {c : Component} :
    Horizontal layer c ↔ c ∈ horizontalSlot? layer := by
  constructor
  · intro h
    cases h with
    | only => rfl
    | first other h => simp [horizontalSlot?_pair, h]
    | second c h => simp [horizontalSlot?_pair, h]
  · intro h
    match layer with
    | [] => contradiction
    | [only] =>
        obtain rfl := Option.some.inj h
        exact .only only
    | [first, second] =>
        cases hvertical : first.isVertical with
        | false =>
            obtain rfl : first = c := by simpa [horizontalSlot?_pair, hvertical] using h
            exact .first second hvertical
        | true =>
            obtain rfl : second = c := by simpa [horizontalSlot?_pair, hvertical] using h
            exact .second second hvertical
    | _ :: _ :: _ :: _ => contradiction

theorem length_iff {c : Component} : Length c ↔ isOffset c = true := by
  have hcalc : Text.lower "calc".toList = "calc".toList := by decide
  constructor
  · intro h
    cases h with
    | number => rfl
    | call args closed h => rw [isOffset, Text.sameIgnoringCase, h, hcalc, beq_self_eq_true]
  · intro h
    unfold isOffset at h
    split at h
    · exact .number _
    · rw [Text.sameIgnoringCase, beq_iff_eq, hcalc] at h
      exact .call _ _ h
    · contradiction

theorem isAmbiguous_iff {d : Declaration} :
    d.IsAmbiguous ↔ (isPosition d.property && hasHorizontalOffset d.value) = true := by
  have hproperty : isPosition d.property = true ↔
      d.hasProperty "background-position".toList = true ∨
        d.hasProperty "background-position-x".toList = true := by
    simp [isPosition, listed, positionProperties, hasProperty]
  have hlayer : hasHorizontalOffset d.value = true ↔
      ∃ layer ∈ (Value.slots d.value).splitOnP (·.isDelim ','),
        ∃ c, Horizontal layer c ∧ Length c := by
    simp only [hasHorizontalOffset, Value.groupsAt_eq_splitOnP, List.any_eq_true,
      Option.any_eq_true, horizontal_iff, length_iff, Option.mem_def]
  rw [Bool.and_eq_true, hproperty, hlayer]
  exact ⟨fun h => ⟨h.property, h.layer⟩, fun h => ⟨h.1, h.2⟩⟩

instance (d : Declaration) : Decidable d.IsAmbiguous := decidable_of_iff _ isAmbiguous_iff.symm

theorem horizontalSlot?_flipKeywords (layer : List Component) :
    horizontalSlot? (layer.map (·.flipKeywords)) =
      (horizontalSlot? layer).map (·.flipKeywords) := by
  match layer with
  | [] => rfl
  | [_] => rfl
  | [first, second] =>
      simp only [List.map_cons, List.map_nil, horizontalSlot?_pair,
        Component.isVertical_flipKeywords]
      split <;> rfl
  | _ :: _ :: _ :: _ => rfl

theorem isOffset_flipKeywords (c : Component) : isOffset c.flipKeywords = isOffset c := by
  cases c with
  | function => rfl
  | leaf kind text => cases kind <;> rfl

theorem hasHorizontalOffset_flipKeywords (value : Value) :
    hasHorizontalOffset (Value.flipKeywords value) = hasHorizontalOffset value := by
  rw [hasHorizontalOffset, Value.flipKeywords_eq_map, Value.slots_map Component.keeps_flipKeywords,
    Value.groupsAt_map Component.keeps_flipKeywords, List.any_map, hasHorizontalOffset]
  congr 1
  funext layer
  rw [Function.comp_apply, horizontalSlot?_flipKeywords, Option.any_map]
  congr 1
  funext c
  exact isOffset_flipKeywords c

theorem moveSlots_advised {property name : Text} (h : name ∈ advisedProperties)
    (hsame : Text.sameIgnoringCase property name = true) (value : Value) :
    moveSlots property value = value := by
  rw [moveSlots, Shorthand.ofProperty?_of_lower (beq_iff_eq.mp hsame),
    (of_mem_advisedProperties name h).2]

/-- A flip neither makes a position ambiguous nor stops it from being so. -/
theorem isPosition_and_hasHorizontalOffset_flipSides (d : Declaration) :
    (isPosition d.property && hasHorizontalOffset d.flipSides.value.value) =
      (isPosition d.property && hasHorizontalOffset d.value) := by
  cases hposition : isPosition d.property with
  | false => rfl
  | true =>
      obtain ⟨name, hmem, hsame⟩ := List.any_eq_true.mp hposition
      rw [value_flipSides, moveSlots_advised (List.mem_append_left _ hmem) hsame]
      dsimp only
      split
      · rw [hasHorizontalOffset_flipKeywords]
      · rfl

theorem any_flipLeaves {p : Component → Bool} (hkeywords : ∀ c, p c.flipKeywords = p c)
    (hurls : ∀ c, p c.flipUrls = p c) (options : FlipOptions) (property : Text) (value : Value) :
    (flipLeaves options property value).any p = value.any p := by
  have hworded : ∀ v : Value, (Value.flipKeywords v).any p = v.any p := by
    intro v
    rw [Value.flipKeywords_eq_map, List.any_map]
    exact congrArg v.any (funext hkeywords)
  have hurled : ∀ v : Value, (Value.flipUrls v).any p = v.any p := by
    intro v
    rw [Value.flipUrls_eq_map, List.any_map]
    exact congrArg v.any (funext hurls)
  unfold flipLeaves
  split <;> split <;> simp only [hworded, hurled]

/-- A flip keeps whether a declaration is one of an advised property with a component that `p` looks
for, if it keeps what `p` looks for in each component. -/
theorem hasProperty_and_any_flip {name : Text} (hname : name ∈ advisedProperties)
    {p : Component → Bool} (hkeywords : ∀ c, p c.flipKeywords = p c)
    (hurls : ∀ c, p c.flipUrls = p c) (options : FlipOptions) (d : Declaration) :
    ((d.flip options).value.hasProperty name && (d.flip options).value.value.any p) =
      (d.hasProperty name && d.value.any p) := by
  rw [value_flip]
  dsimp only [hasProperty]
  rw [sameIgnoringCase_flip_advised hname]
  cases hsame : Text.sameIgnoringCase d.property name with
  | false => rfl
  | true => rw [moveSlots_advised hname hsame, any_flipLeaves hkeywords hurls]

def floatsAside (d : Declaration) : Bool :=
  d.hasProperty "float".toList && d.value.any (·.isSide)

def showsInline (d : Declaration) : Bool :=
  d.hasProperty "display".toList && Value.hasWord "inline".toList d.value

theorem floatsAside_flip (options : FlipOptions) (d : Declaration) :
    (d.flip options).value.floatsAside = d.floatsAside :=
  hasProperty_and_any_flip (by simp [advisedProperties]) Component.isSide_flipKeywords
    Component.isSide_flipUrls options d

theorem showsInline_flip (options : FlipOptions) (d : Declaration) :
    (d.flip options).value.showsInline = d.showsInline :=
  hasProperty_and_any_flip (by simp [advisedProperties])
    (Component.isWord_flipKeywords (by decide +kernel)) (Component.isWord_flipUrls _) options d

theorem span_flip (options : FlipOptions) (d : Declaration) :
    (d.flip options).value.span = d.span := by
  rw [value_flip]

end Declaration

/-! ### Rules -/

inductive Topic
  | ambiguousPosition
  | inlineFloat
deriving DecidableEq

def Concern.topic : Concern → Topic
  | .inlineFloat => .inlineFloat
  | .ambiguousPosition _ _ => .ambiguousPosition

/-- What is to be said about a declaration. -/
structure Finding where
  topic : Topic
  declaration : Declaration

def Diagnostic.subject (d : Diagnostic) : Topic × Option Span := (d.concern.topic, d.location)

def Finding.subject (f : Finding) : Topic × Option Span :=
  (f.topic, if f.declaration.span.isUnknown then none else some f.declaration.span)

/-- What is said about a declaration; a position is quoted as it is flipped. -/
def Finding.concern (f : Finding) : Concern :=
  match f.topic with
  | .inlineFloat => .inlineFloat
  | .ambiguousPosition =>
    .ambiguousPosition f.declaration.flipSides.value.property
      f.declaration.flipSides.value.valueText

def Finding.diagnostic (selector : Text) (f : Finding) : Diagnostic :=
  .about f.concern selector f.declaration.span

theorem Finding.subject_diagnostic (selector : Text) (f : Finding) :
    (f.diagnostic selector).subject = f.subject := by
  obtain ⟨topic, d⟩ := f
  cases topic <;> rfl

theorem Declaration.advice_eq (selector : Text) (d : Declaration) :
    d.advice selector =
      if d.IsAmbiguous then [(Finding.mk .ambiguousPosition d).diagnostic selector] else [] := by
  have hspan : d.flipSides.value.span = d.span := by rw [value_flipSides]
  rw [advice, isPosition_and_hasHorizontalOffset_flipSides]
  by_cases h : d.IsAmbiguous
  · rw [if_pos (isAmbiguous_iff.mp h), if_pos h, hspan]
    rfl
  · rw [if_neg (mt isAmbiguous_iff.mpr h), if_neg h]

namespace Body

/-- What a flip keeps of each declaration, it keeps of the declarations of a body. -/
theorem map_declarations_mapFrom {β : Type} {key : Declaration → β} {f : Declaration → Declaration}
    (hkey : ∀ d, key (f d) = key d) (guarded : Bool) (body : Body) :
    (mapFrom f guarded body).declarations.map key = body.declarations.map key := by
  induction body generalizing guarded with
  | nil => rfl
  | cons item rest ih =>
      have hitem : (if guarded then item else item.mapDeclaration f).declaration?.toList.map key =
          item.declaration?.toList.map key := by
        cases item with
        | declaration d =>
            cases guarded with
            | true => rfl
            | false => exact congrArg ([·]) (hkey d)
        | _ => cases guarded <;> rfl
      have hrest := ih (item.role.guardNext guarded)
      rw [declarations, declarations] at hrest ⊢
      rw [mapFrom, filterMap_cons_toList, filterMap_cons_toList, List.map_append, List.map_append,
        hitem, hrest]

theorem unguarded_eq_dropAt (body : Body) :
    body.unguarded = declarations (dropAt (Guarded (body.map BodyItem.role)) body) := by
  rw [unguarded, withGuards_eq_map, declarations, dropAt, List.filterMap_map, List.filterMap_map,
    List.filterMap_filter]
  congr 1
  funext p
  by_cases h : Guarded (body.map BodyItem.role) p.2 <;> simp [h]

end Body

namespace Rule

/-- The declarations of a rule that no marker guards. -/
def exposed (r : Rule) : List Declaration :=
  Body.declarations (dropAt (Guarded (r.body.map BodyItem.role)) r.body)

/-- What is to be said about a rule: first each ambiguous position that no marker guards, then the
first declaration that floats to a side, if the rule shows elements inline. -/
def findings (r : Rule) : List Finding :=
  (r.exposed.filter (·.IsAmbiguous)).map (⟨.ambiguousPosition, ·⟩) ++
    if r.declarations.any (·.showsInline) then
      (r.declarations.find? (·.floatsAside)).toList.map (⟨.inlineFloat, ·⟩)
    else []

theorem map_declarations_flip {β : Type} (key : Declaration → β) {options : FlipOptions}
    (hkey : ∀ d : Declaration, key (d.flip options).value = key d) (r : Rule) :
    (r.flip options).declarations.map key = r.declarations.map key := by
  rw [declarations, flip, Body.value_flip, Body.flipFrom_eq_mapFrom,
    Body.map_declarations_mapFrom hkey, declarations]

theorem sideFloat?_eq (r : Rule) : r.sideFloat? = r.declarations.find? (·.floatsAside) := by
  rw [sideFloat?]
  congr 1
  funext d
  rw [Value.hasWord_left_or_right, Declaration.floatsAside]

theorem isInline_eq (r : Rule) : r.isInline = r.declarations.any (·.showsInline) := rfl

theorem isInline_flip (options : FlipOptions) (r : Rule) :
    (r.flip options).isInline = r.declarations.any (·.showsInline) := by
  have hkeys := map_declarations_flip _ (Declaration.showsInline_flip options) r
  have hany : ∀ ds : List Declaration,
      ds.any (·.showsInline) = (ds.map (·.showsInline)).any id := by
    intro ds
    rw [List.any_map]
    rfl
  rw [isInline_eq, hany, hkeys, ← hany]

/-- The declaration that a flipped rule is advised about is the first that floats to a side in the
source. -/
theorem span_sideFloat?_flip (options : FlipOptions) (r : Rule) :
    (r.flip options).sideFloat?.map (·.span) =
      (r.declarations.find? (·.floatsAside)).map (·.span) := by
  -- The search looks at two things only, and a flip of a declaration keeps both.
  have hfind : ∀ ds : List Declaration, (ds.find? (·.floatsAside)).map (·.span) =
      ((ds.map fun d => (d.floatsAside, d.span)).find? (·.1)).map (·.2) := by
    intro ds
    rw [List.find?_map, Option.map_map]
    rfl
  have hkey : ∀ d : Declaration, ((d.flip options).value.floatsAside, (d.flip options).value.span) =
      (d.floatsAside, d.span) := by
    intro d
    rw [Declaration.floatsAside_flip, Declaration.span_flip]
  rw [sideFloat?_eq, hfind, map_declarations_flip (fun d => (d.floatsAside, d.span)) hkey, ← hfind]

/-- The advice about a rule says what is found in its source, under the flipped selector. -/
theorem advice_eq_map (options : FlipOptions) (r : Rule) :
    r.advice options = r.findings.map (Finding.diagnostic (r.flip options).title) := by
  have hpositions : ∀ (selector : Text) (ds : List Declaration),
      ds.flatMap (·.advice selector) =
        ((ds.filter (·.IsAmbiguous)).map (⟨.ambiguousPosition, ·⟩)).map
          (Finding.diagnostic selector) := by
    intro selector ds
    induction ds with
    | nil => rfl
    | cons d ds ih =>
        rw [List.flatMap_cons, Declaration.advice_eq, ih, List.filter_cons]
        by_cases h : d.IsAmbiguous <;> simp [h]
  have hspan := span_sideFloat?_flip options r
  rw [advice, findings, List.map_append, hpositions, Body.unguarded_eq_dropAt, isInline_flip]
  congr 1
  cases hfloat : r.declarations.find? (·.floatsAside) with
  | none =>
      rw [hfloat, Option.map_none, Option.map_eq_none_iff] at hspan
      simp [hspan]
  | some d =>
      obtain ⟨d', hd', hsame⟩ : ∃ d', (r.flip options).sideFloat? = some d' ∧ d'.span = d.span := by
        simpa [hfloat] using hspan
      rw [hd']
      dsimp only
      rw [hsame]
      split <;> rfl

/-- The advice about a rule is about what is found in its source. -/
theorem advice_eq_findings (options : FlipOptions) (r : Rule) :
    (r.advice options).map Diagnostic.subject = r.findings.map Finding.subject := by
  rw [advice_eq_map, List.map_map]
  exact List.map_congr_left fun f _ => f.subject_diagnostic _

end Rule

/-! ### Stylesheets -/

theorem flatten_dropAt_map {α β : Type} (p : Nat → Prop) [DecidablePred p] (g : α → List β)
    (items : List α) :
    (dropAt p (items.map g)).flatten =
      items.zipIdx.flatMap fun entry => if p entry.2 then [] else g entry.1 := by
  rw [dropAt, List.zipIdx_map, List.filter_map, List.map_map]
  induction items.zipIdx with
  | nil => rfl
  | cons entry rest ih => by_cases h : p entry.2 <;> simp [h, ih]

mutual

/-- The rules of an item that no marker guards, neither themselves nor an at-rule around them. -/
def Item.exposed : Item → List Rule
  | .rule r => [r]
  | .group _ items => (dropAt (Guarded (items.map Item.role)) (exposedEach items)).flatten
  | _ => []

def Item.exposedEach : List Item → List (List Rule)
  | [] => []
  | item :: rest => exposed item :: exposedEach rest

end

namespace Stylesheet

/-- The rules of a stylesheet that no marker guards, in document order. -/
def exposed (sheet : Stylesheet) : List Rule :=
  (dropAt (Guarded (sheet.map Item.role)) (Item.exposedEach sheet)).flatten

/-- What is to be said about a stylesheet, in the order in which it is said. -/
def findings (sheet : Stylesheet) : List Finding := sheet.exposed.flatMap Rule.findings

end Stylesheet

namespace Item

theorem exposedEach_eq_map (items : List Item) : exposedEach items = items.map exposed := by
  induction items with
  | nil => rfl
  | cons item items ih => rw [exposedEach, ih, List.map_cons]

theorem exposed_of_isPlain {item : Item} (h : item.isPlain = true) : item.exposed = [] := by
  cases item <;> first | rfl | contradiction

/-- What is gathered from the items of a list is gathered from its exposed rules. -/
theorem gatherAll_of_gather {β : Type} {f : Rule → List β} {items : List Item}
    (h : ∀ item ∈ items, gather (fun guarded r => if guarded then [] else f r) false item =
      item.exposed.flatMap f) :
    gatherAll (fun guarded r => if guarded then [] else f r) false items =
      (Stylesheet.exposed items).flatMap f := by
  rw [gatherAll_eq_flatMap, withGuards_eq_map, List.flatMap_map, Stylesheet.exposed,
    exposedEach_eq_map, flatten_dropAt_map, List.flatMap_assoc]
  -- A guarded item gives nothing on either side, an at-rule with all that is in it.
  refine List.flatMap_congr fun entry hentry => ?_
  by_cases hguarded : Guarded (items.map role) entry.2
  · simp [hguarded, gather_of_guarded]
  · simp [hguarded, h entry.1 (List.fst_mem_of_mem_zipIdx hentry)]

theorem gather_eq_flatMap_exposed {β : Type} (f : Rule → List β) (items : List Item) :
    ∀ item ∈ items, gather (fun guarded r => if guarded then [] else f r) false item =
      item.exposed.flatMap f := by
  induction items using listInduction with
  | nil => simp
  | rule r rest ih =>
      rw [List.forall_mem_cons]
      exact ⟨by simp [gather, exposed], ih⟩
  | group head items rest ihitems ihrest =>
      rw [List.forall_mem_cons]
      exact ⟨gatherAll_of_gather ihitems, ihrest⟩
  | plain item rest hplain ih =>
      rw [List.forall_mem_cons, gather_of_isPlain hplain, exposed_of_isPlain hplain]
      exact ⟨rfl, ih⟩

theorem flatten_exposedEach_sublist (items : List Item) :
    (exposedEach items).flatten.Sublist (rulesAll items) := by
  induction items using listInduction with
  | nil => exact .slnil
  | rule r rest ih => exact ih.cons_cons r
  | group head items rest ihitems ihrest =>
      have hblock := (dropAt_sublist (p := Guarded (items.map role)) (exposedEach items)).flatten
      exact (hblock.trans ihitems).append ihrest
  | plain item rest hplain ih =>
      rw [exposedEach, exposed_of_isPlain hplain, rulesAll, rules_of_isPlain hplain]
      exact ih

end Item

namespace Stylesheet

theorem exposed_sublist (sheet : Stylesheet) : sheet.exposed.Sublist sheet.rules := by
  have hdrop := dropAt_sublist (p := Guarded (sheet.map Item.role)) (Item.exposedEach sheet)
  exact hdrop.flatten.trans (Item.flatten_exposedEach_sublist sheet)

theorem advice_eq_findings (options : FlipOptions) (h : options.warnings = true)
    (sheet : Stylesheet) :
    (advice options sheet).map Diagnostic.subject = sheet.findings.map Finding.subject := by
  rw [advice, if_pos h, Item.gatherAll_of_gather (Item.gather_eq_flatMap_exposed _ sheet), findings,
    List.map_flatMap, List.map_flatMap]
  congr 1
  funext r
  exact r.advice_eq_findings options

end Stylesheet

theorem Rule.mem_declarations_of_mem_findings {r : Rule} {f : Finding} (h : f ∈ r.findings) :
    f.declaration ∈ r.declarations := by
  rw [findings, List.mem_append] at h
  rcases h with hposition | hfloat
  · obtain ⟨d, hd, rfl⟩ := List.mem_map.mp hposition
    exact ((dropAt_sublist r.body).filterMap _).subset (List.mem_filter.mp hd).1
  · split at hfloat
    · obtain ⟨d, hd, rfl⟩ := List.mem_map.mp hfloat
      exact List.mem_of_find?_eq_some (Option.mem_toList.mp hd)
    · contradiction

theorem Stylesheet.places_of_mem_findings {css : Text} {f : Finding}
    (h : f ∈ (parse css).findings) :
    f.declaration.span.Places css f.declaration.core := by
  obtain ⟨r, hr, hf⟩ := List.mem_flatMap.mp h
  exact places_of_mem_declarations ((exposed_sublist _).subset hr)
    (Rule.mem_declarations_of_mem_findings hf)

theorem Span.Places.isUnknown {css text : Text} {s : Span} (h : s.Places css text) :
    s.isUnknown = false := by
  obtain ⟨before, after, -, rfl⟩ := h
  exact isUnknown_ofText (Position.counted_origin.after before) text

theorem Stylesheet.flip_warnings (options : FlipOptions) (on off : Bool) (sheet : Stylesheet) :
    flip { options with warnings := off } sheet = flip { options with warnings := on } sheet := by
  rw [flip, flip, Item.flipAll_eq_mapUnguardedAll, Item.flipAll_eq_mapUnguardedAll]
  rfl

/-- Advice is about the source. With warnings on, its topics and locations are those of what is
found in the source, in order, and each location holds the source text of the declaration that was
found. With warnings off there is no advice, and the text is the same. -/
theorem flip_advises_on_source (css : Text) (options : FlipOptions) :
    ((flip css { options with warnings := true }).diagnostics.map fun d =>
        (d.concern.topic, d.location)) =
      (Stylesheet.parse css).findings.map (fun f => (f.topic, some f.declaration.span)) ∧
    (∀ f ∈ (Stylesheet.parse css).findings,
      (Text.bytes css).extract f.declaration.span.start f.declaration.span.stop =
        Text.bytes f.declaration.core) ∧
    flip css { options with warnings := false } =
      ⟨(flip css { options with warnings := true }).css, []⟩ := by
  refine ⟨?_, fun f hf => (Stylesheet.places_of_mem_findings hf).extract_bytes, ?_⟩
  · have hsubjects := Stylesheet.advice_eq_findings { options with warnings := true } rfl
      (Stylesheet.parse css)
    refine hsubjects.trans (List.map_congr_left fun f hf => ?_)
    rw [Finding.subject, (Stylesheet.places_of_mem_findings hf).isUnknown]
    rfl
  · rw [flip, flip, Stylesheet.flip_warnings options true false]
    rfl

/-- The second rule is guarded. In the first one the flip moves the float to the other side. -/
example :
    ((Stylesheet.parse ("a\x7bfloat:left;background-position:0 top;display:inline\x7d" ++
      "/*@noflip*/b\x7bbackground-position:0\x7d").toList).findings.map (·.topic)) =
      [.ambiguousPosition, .inlineFloat] := by
  decide +kernel

end StyleFlip
