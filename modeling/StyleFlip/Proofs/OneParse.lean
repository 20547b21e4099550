import StyleFlip.Proofs.LeadingText

/-!
# Flipping the cleaned text

Cleaning and flipping with one parse gives what flipping the cleaned text gives. The preface is read
back as a rule where it stands in front, or after a statement that has its semicolon. After a
statement without one it is no rule any more, but then no other rule is there either, and flipping
would not have changed the preface.
-/

namespace StyleFlip

/-! ### Where the preface goes -/

theorem Thinned.append {α : Type} {p : α → Prop} {a b a' b' : List α} (ha : Thinned p a a')
    (hb : Thinned p b b') : Thinned p (a ++ b) (a' ++ b') := by
  induction ha with
  | nil => exact hb
  | keep x _ ih => exact .keep x ih
  | drop hx _ ih => exact .drop hx ih

namespace Outline

/-- No entry depends on what an at-rule after it is like. -/
theorem follows_of_atKeyword {keyword : Token} (h : keyword.kind = .atKeyword)
    (ts rest' : List Token) : Follows (keyword :: ts) rest' := by
  refine ⟨by simp, ?_⟩
  rintro ⟨t, more, hfirst, hkind⟩
  obtain ⟨rfl, -⟩ := List.cons.inj hfirst
  simp [h] at hkind

theorem showsBracesAll_append (a b : List Outline) :
    showsBracesAll (a ++ b) = (showsBracesAll a && showsBracesAll b) := by
  induction a with
  | nil => rfl
  | cons entry a ih => simp [showsBracesAll, ih, Bool.and_assoc]

theorem showsBraces_preface (d : Direction) : (Outline.preface d).showsBraces = true := by
  simp [showsBraces, Outline.preface, Token.word]

end Outline

/-! ### The preface as a rule -/

/-- The rule that the preface is read back as. -/
def Rule.readPreface (d : Direction) : Rule :=
  (Rule.read [.word "body".toList] (.sign .openBrace '{') (prefaceBody d)
    (.sign .closeBrace '}')).clean d

theorem Rule.glued_preface (d : Direction) : (Rule.preface d).Glued (Rule.readPreface d) where
  selector := by
    show _ = Selector.read [.word "body".toList]
    simp [Rule.preface, Selector.read, selectorPart, Token.word]
  body := by
    rw [Rule.readPreface, Rule.clean_eq]
    show Body.Glued _ (strip BodyItem.role d none (Body.read (prefaceBody d)))
    rw [Body.read_prefaceBody]
    exact .same rfl .nil

theorem Rule.fresh_readPreface (d : Direction) : (Rule.readPreface d).Fresh := by
  exact Rule.fresh_clean (Rule.fresh_read (Outline.proper_preface d [])
    (stand_preface d []).spelledAll) d

namespace Outline

variable {d : Direction} {es : List Outline}

/-- In front of all items the preface is read back as a rule. -/
theorem exists_readBack_preface_first {items : List Item}
    (hthin : Thinned (fun item => item.role ≠ .other) items (Item.cleanEach d (Item.ofOutlines es)))
    (hproper : ProperAll es) (hshown : showsBracesAll es = true)
    (hstand : Stand (tokensAll es) []) :
    ∃ es₀ es', ReadBack [] (.rule (Rule.readPreface d) :: items) es₀ es' := by
  have hthin' : Thinned (fun item => item.role ≠ .other) (.rule (Rule.readPreface d) :: items)
      (Item.cleanEach d (Item.ofOutlines (.preface d :: es))) := .keep _ hthin
  refine ⟨.preface d :: es, exists_readBack d hthin' ⟨proper_preface d _, hproper⟩ ?_ rfl ?_⟩
  · simp [showsBracesAll, showsBraces_preface, hshown]
  · rw [tokensAll, stand_append]
    exact ⟨stand_preface d _, hstand⟩

/-- After a statement with its semicolon the preface is read back as a rule. -/
theorem exists_readBack_preface_after {keyword stop : Token} {params : List Token}
    {es₁ es₂ : List Outline} {front back : List Item}
    (hfront : Thinned (fun item => item.role ≠ .other) front
      (Item.cleanEach d (Item.ofOutlines es₁)))
    (hback : Thinned (fun item => item.role ≠ .other) back
      (Item.cleanEach d (Item.ofOutlines es₂)))
    (hproper : ProperAll (es₁ ++ .statement keyword params (some stop) :: es₂))
    (hshown : showsBracesAll (es₁ ++ .statement keyword params (some stop) :: es₂) = true)
    (hstand : Stand (tokensAll (es₁ ++ .statement keyword params (some stop) :: es₂)) []) :
    ∃ es₀ es', ReadBack [] (front ++ Item.ofOutline (.statement keyword params (some stop)) ::
      .rule (Rule.readPreface d) :: back) es₀ es' := by
  obtain ⟨hstatement, hafter⟩ := hproper.of_append
  have hkeyword : keyword.kind = .atKeyword := hstatement.1
  have hstop : stop.kind = .semicolon := hstatement.2.2
  rw [Item.cleanEach_ofOutlines] at hfront hback
  refine ⟨es₁ ++ .statement keyword params (some stop) :: .preface d :: es₂,
    exists_readBack d ?_ ?_ ?_ rfl ?_⟩
  · rw [Item.cleanEach_ofOutlines, List.map_append, List.map_cons, List.map_cons]
    exact hfront.append (.keep _ (.keep _ hback))
  · exact hproper.append_of_follows (follows_of_atKeyword hkeyword _ _)
      ⟨hstatement, proper_preface d _, hafter⟩
  · rw [showsBracesAll_append, showsBracesAll, Bool.and_eq_true, Bool.and_eq_true] at hshown
    simp [showsBracesAll_append, showsBracesAll, hshown.1, hshown.2.1, hshown.2.2,
      showsBraces_preface]
  · have hsplit : tokensAll (es₁ ++ .statement keyword params (some stop) :: es₂) =
        (tokensAll es₁ ++ keyword :: params ++ [stop]) ++ tokensAll es₂ := by
      simp [tokensAll, tokens]
    rw [hsplit, stand_append] at hstand
    have hsplit' : tokensAll (es₁ ++ .statement keyword params (some stop) :: .preface d :: es₂) =
        (tokensAll es₁ ++ keyword :: params ++ [stop]) ++
          ((Outline.preface d).tokens ++ tokensAll es₂) := by
      simp [tokensAll, tokens]
    rw [hsplit', stand_append]
    exact ⟨hstand.1.of_last (Or.inl (by simp [hstop, Kind.sign?])) _,
      stand_append.mpr ⟨stand_preface d _, hstand.2⟩⟩

end Outline

/-! ### The preface after a statement without its semicolon -/

namespace Item

/-- Flipping changes nothing where there are no rules, and has nothing to say. -/
theorem flipAll_of_rulesAll_eq_nil (options : FlipOptions) {items : List Item}
    (h : rulesAll items = []) (guarded : Bool) : flipAll options guarded items = items := by
  induction items using listInduction generalizing guarded with
  | nil => rfl
  | rule => simp [rulesAll, rules] at h
  | group head items rest ihitems ihrest =>
      simp only [rulesAll, rules, List.append_eq_nil_iff] at h
      rw [flipAll, flip, ihitems h.1, ihrest h.2, ite_self]
  | plain item rest hplain ih =>
      rw [rulesAll, rules_of_isPlain hplain, List.nil_append] at h
      rw [flipAll, flip_of_isPlain hplain, ite_self, ih h]

theorem gatherAll_of_rulesAll_eq_nil {β : Type} (f : Bool → Rule → List β) {items : List Item}
    (h : rulesAll items = []) (guarded : Bool) : gatherAll f guarded items = [] := by
  induction items using listInduction generalizing guarded with
  | nil => rfl
  | rule => simp [rulesAll, rules] at h
  | group head items rest ihitems ihrest =>
      simp only [rulesAll, rules, List.append_eq_nil_iff] at h
      rw [gatherAll, gather, ihitems h.1, ihrest h.2, ite_self, List.append_nil]
  | plain item rest hplain ih =>
      rw [rulesAll, rules_of_isPlain hplain, List.nil_append] at h
      rw [gatherAll, gather_of_isPlain hplain, ih h, List.append_nil]

end Item

/-- The direction is no property that flipping looks at. -/
theorem Declaration.flipSides_direction (value : Text) :
    (Declaration.simple "direction".toList value).flipSides.value =
      .simple "direction".toList value := by
  have hproperty : sideProperties.flip "direction".toList = "direction".toList := by
    simp [Pairs.flip, Pairs.counterpart?, sideProperties, Pairs.ofStrings, Text.sameIgnoringCase,
      Text.lower]
  have hshorthand : Shorthand.ofProperty? "direction".toList = none := by
    simp [Shorthand.ofProperty?, shorthands, Text.sameIgnoringCase, Text.lower]
  have hkeywords : hasSideKeywords "direction".toList = false := by
    simp [hasSideKeywords, listed, keywordProperties, Text.sameIgnoringCase, Text.lower]
  simp only [flipSides, Edit.step, Edit.start, simple, flipProperty, hproperty, flipShorthand,
    hshorthand, flipKeywords, hkeywords]
  rfl

theorem Declaration.flip_direction (value : Text) (options : FlipOptions) :
    ((Declaration.simple "direction".toList value).flip options).value =
      .simple "direction".toList value := by
  unfold Declaration.flip Edit.stepIf
  split
  · simp only [Edit.step, flipSides_direction]
    rfl
  · exact flipSides_direction value

/-- Flipping leaves the preface as it is, whatever the options. -/
theorem Rule.flip_preface (d : Direction) (options : FlipOptions) :
    (Rule.preface d).flip options = Rule.preface d := by
  have hselector : (Selector.flip options [.element "body".toList]).value =
      [.element "body".toList] := by
    unfold Selector.flip Edit.stepIf
    split <;> split <;> rfl
  have hbody : (Body.flip options (Rule.preface d).body).value = (Rule.preface d).body := by
    rw [Body.value_flip, Rule.preface, Body.flipFrom]
    simp only [BodyItem.flip, Declaration.flip_direction]
    rfl
  unfold Rule.flip
  rw [hbody, show (Rule.preface d).selector = [.element "body".toList] from rfl, hselector,
    show (Rule.preface d).source = none from rfl, ite_self]
  rfl

theorem Rule.advice_preface (d : Direction) (options : FlipOptions) :
    (Rule.preface d).advice options = [] := by
  have hposition : isPosition "direction".toList = false := by
    simp [isPosition, listed, positionProperties, Text.sameIgnoringCase, Text.lower]
  have hfloat : Text.sameIgnoringCase "direction".toList "float".toList = false := by
    simp [Text.sameIgnoringCase, Text.lower]
  have hdeclared : ∀ selector, (Declaration.simple "direction".toList d.name).advice selector = [] := by
    intro selector
    unfold Declaration.advice
    rw [Declaration.flipSides_direction]
    show (if (isPosition "direction".toList && _) = true then _ else _) = _
    rw [hposition]
    rfl
  have hnone : (Rule.preface d).sideFloat? = none := by
    have hother : ((Declaration.simple "direction".toList d.name).hasProperty "float".toList) =
        false := hfloat
    unfold Rule.sideFloat?
    rw [show (Rule.preface d).declarations = [.simple "direction".toList d.name] from rfl,
      List.find?_singleton, hother]
    rfl
  have hunguarded : (Rule.preface d).body.unguarded =
      [.simple "direction".toList d.name] := rfl
  unfold Rule.advice
  rw [Rule.flip_preface, hunguarded]
  dsimp only
  rw [hnone, List.flatMap_singleton, hdeclared]
  rfl

theorem Item.flipAll_append_of_isPlain (options : FlipOptions) {front : List Item}
    (h : ∀ item ∈ front, item.isPlain = true) (guarded : Bool) (rest : List Item) :
    ∃ guarded', flipAll options guarded (front ++ rest) = front ++ flipAll options guarded' rest ∧
      ∀ f : Bool → Rule → List Diagnostic,
        gatherAll f guarded (front ++ rest) = gatherAll f guarded' rest := by
  have hrules := rulesAll_eq_nil_of_isPlain h
  refine ⟨guardAfter guarded front, ?_, fun f => ?_⟩
  · rw [flipAll_append, flipAll_of_rulesAll_eq_nil options hrules]
  · rw [gatherAll_append, gatherAll_of_rulesAll_eq_nil f hrules, List.nil_append]

/-- Where the preface is the only rule, flipping changes nothing and has nothing to say. -/
theorem Stylesheet.flip_preface_last (options : FlipOptions) {front : List Item}
    (h : ∀ item ∈ front, item.isPlain = true) (d : Direction) :
    Stylesheet.flip options (front ++ [.rule (.preface d)]) = front ++ [.rule (.preface d)] ∧
      Stylesheet.advice options (front ++ [.rule (.preface d)]) = [] := by
  obtain ⟨guarded, hflip, hgather⟩ :=
    Item.flipAll_append_of_isPlain options h false [.rule (.preface d)]
  constructor
  · rw [Stylesheet.flip, hflip, Item.flipAll, Item.flip, Rule.flip_preface, ite_self, Item.flipAll]
  · unfold Stylesheet.advice
    rw [hgather, Item.gatherAll, Item.gather, Item.gatherAll]
    cases guarded <;> simp [Rule.advice_preface]

theorem flip_of_rules_eq_nil {css : Text} (h : Stylesheet.rules (Stylesheet.parse css) = [])
    (options : FlipOptions) : StyleFlip.flip css options = ⟨css, []⟩ := by
  unfold StyleFlip.flip Stylesheet.flip Stylesheet.advice
  dsimp only
  rw [Item.flipAll_of_rulesAll_eq_nil options h, Item.gatherAll_of_rulesAll_eq_nil _ h, ite_self,
    Stylesheet.render_parse]

/-- Flipping the text of a cleaned stylesheet gives what flipping the cleaned stylesheet gives. -/
theorem Stylesheet.flip_render_clean {es : List Outline} (hproper : Outline.ProperAll es)
    (hshown : Outline.showsBracesAll es = true) (hstand : Stand (Outline.tokensAll es) [])
    (d : Direction) (options : FlipOptions) :
    let sheet := Stylesheet.clean d (Item.ofOutlines es)
    (StyleFlip.flip (Stylesheet.render sheet) options).css =
        Stylesheet.render (Stylesheet.flip options sheet) ∧
      (StyleFlip.flip (Stylesheet.render sheet) options).diagnostics.map Diagnostic.unplaced =
        (Stylesheet.advice options sheet).map Diagnostic.unplaced := by
  intro sheet
  have hfresh : Stylesheet.Fresh sheet :=
    Stylesheet.fresh_clean (Stylesheet.fresh_ofOutlines hproper hstand) d
  rcases hsplit : Item.splitLeading (Item.cleanAll d (Item.ofOutlines es)) with ⟨leading, after⟩
  have hsheet : sheet = leading ++ .rule (.preface d) :: after := by
    simp only [sheet, Stylesheet.clean, Stylesheet.addPreface, hsplit]
  by_cases hopen : Item.endsOpen leading = true
  · obtain ⟨rfl, hrules⟩ := Stylesheet.rules_parse_of_endsOpen d hproper hstand hsplit hopen
    have hplain : ∀ item ∈ leading, item.isPlain = true := by
      intro item hitem
      have hmem : item ∈ (Item.splitLeading (Item.cleanAll d (Item.ofOutlines es))).1 := by
        rwa [hsplit]
      exact Item.isPlain_of_goesFirst (Item.goesFirst_of_mem_splitLeading hmem)
    have hpreface := Stylesheet.flip_preface_last options hplain d
    rw [← hsheet] at hpreface
    rw [hpreface.1, hpreface.2, flip_of_rules_eq_nil hrules]
    exact ⟨rfl, rfl⟩
  -- Else the preface is read back as a rule, and so are the items around it.
  obtain ⟨es₀, es', hback⟩ :
      ∃ es₀ es', Outline.ReadBack [] (leading ++ .rule (Rule.readPreface d) :: after) es₀ es' := by
    rcases Outline.splitLeading_cleanAll_cases d hsplit with
      rfl | ⟨front, es₁, keyword, params, stop, es₂, rfl, rfl, -, -, hfront, hafter⟩
    · have happend := Item.splitLeading_append (Item.cleanAll d (Item.ofOutlines es))
      rw [hsplit] at happend
      have hthin := thinned_strip Item.role d none (Item.cleanEach d (Item.ofOutlines es)) (by simp)
      rw [← Item.cleanAll_eq_strip, ← happend] at hthin
      exact Outline.exists_readBack_preface_first hthin hproper hshown hstand
    · have hstop : stop ≠ none := by simpa [Item.ofOutline] using hopen
      obtain ⟨stop, rfl⟩ := Option.ne_none_iff_exists'.mp hstop
      rw [List.append_assoc, List.singleton_append]
      exact Outline.exists_readBack_preface_after hfront hafter hproper hshown hstand
  refine Stylesheet.flip_render_of_readBack ?_ hfresh ?_ hback options
  · rw [hsheet]
    exact Item.Glued.append_left leading (.rule (Rule.glued_preface d) (.refl after))
  · rw [hsheet, Stylesheet.fresh_append, Stylesheet.fresh_cons] at hfresh
    rw [Stylesheet.fresh_append, Stylesheet.fresh_cons]
    exact ⟨hfresh.1, by simpa [Item.rules] using Rule.fresh_readPreface d, hfresh.2.2⟩

/-- Cleaning and flipping a text with one parse gives what flipping the cleaned text gives, and the
same advice but for its locations. No `{` may be hidden in a selector or in front of a block. -/
theorem transform_eq_flip_clean (css : Text) (d : Direction) (options : FlipOptions)
    (hshown : Outline.showsBracesAll (outline (tokenize css)) = true) :
    (transform css ⟨some d, false, options⟩).css = (flip (clean css d) options).css ∧
      (transform css ⟨some d, false, options⟩).diagnostics.map Diagnostic.unplaced =
        (flip (clean css d) options).diagnostics.map Diagnostic.unplaced := by
  have hstand := stand_tokenize css
  rw [← tokensAll_outline (tokenize css)] at hstand
  obtain ⟨hcss, hadvice⟩ :=
    Stylesheet.flip_render_clean (properAll_outline _) hshown hstand d options
  exact ⟨hcss.symm, hadvice.symm⟩

theorem transform_import_rule :
    (transform "@import url(x);a\x7bfloat:left\x7d".toList ⟨some .rtl, false, {}⟩).css =
      (flip (clean "@import url(x);a\x7bfloat:left\x7d".toList .rtl) {}).css :=
  (transform_eq_flip_clean "@import url(x);a\x7bfloat:left\x7d".toList .rtl {} (by decide +kernel)).1

end StyleFlip
