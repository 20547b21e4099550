import StyleFlip.Proofs.MarkerLoop
import StyleFlip.Proofs.NotedChanges
import StyleFlip.Proofs.Printing
import StyleFlip.Session

/-!
# Source texts are never out of date

A tree is fresh when every rule in it that still has its source text would print the same text from
its parts. Reading gives fresh trees. In a fresh tree it makes no difference to the printed text
which rules are touched, and every step of a session keeps the tree fresh.
-/

namespace StyleFlip

def Stylesheet.Fresh (sheet : Stylesheet) : Prop := ∀ r ∈ Stylesheet.rules sheet, r.Fresh

theorem Stylesheet.fresh_nil : Stylesheet.Fresh [] := by
  simp [Stylesheet.Fresh, Stylesheet.rules, Item.rulesAll]

theorem Stylesheet.fresh_cons {item : Item} {rest : Stylesheet} :
    Stylesheet.Fresh (item :: rest) ↔ (∀ r ∈ Item.rules item, r.Fresh) ∧ Stylesheet.Fresh rest := by
  simp [Stylesheet.Fresh, Stylesheet.rules, Item.rulesAll, or_imp, forall_and]

theorem Stylesheet.fresh_append {a b : Stylesheet} :
    Stylesheet.Fresh (a ++ b) ↔ Stylesheet.Fresh a ∧ Stylesheet.Fresh b := by
  simp [Stylesheet.Fresh, Stylesheet.rules, or_imp, forall_and]

theorem Stylesheet.render_parse (css : Text) : Stylesheet.render (Stylesheet.parse css) = css := by
  have hspelled := spelledAll_tokenize css
  rw [← tokensAll_outline (tokenize css)] at hspelled
  obtain ⟨hrender, -⟩ := Item.renderAll_ofOutlines _ (properAll_outline (tokenize css)) hspelled
  rw [Stylesheet.render, Stylesheet.parse, hrender, tokensAll_outline, textOf_tokenize]

theorem Stylesheet.fresh_parse (css : Text) : Stylesheet.Fresh (Stylesheet.parse css) := by
  have hspelled := spelledAll_tokenize css
  rw [← tokensAll_outline (tokenize css)] at hspelled
  exact (Item.renderAll_ofOutlines _ (properAll_outline (tokenize css)) hspelled).2

/-! ### Touching some of the rules -/

theorem Rule.fresh_touch (r : Rule) : r.touch.Fresh := by
  intro text hsource
  contradiction

theorem Rule.render_touch_of_fresh {r : Rule} (h : r.Fresh) : r.touch.render = r.render := by
  rw [Rule.render_touch, Rule.render_of_fresh h]

namespace Item

mutual

/-- Touches the chosen rules of an item, where the rules are numbered in document order and the
first of them has number `n`. -/
def touchFrom (chosen : Nat → Bool) (n : Nat) : Item → Item
  | .rule r => .rule (if chosen n then r.touch else r)
  | .group head items => .group head (touchAllFrom chosen n items)
  | item => item

def touchAllFrom (chosen : Nat → Bool) (n : Nat) : List Item → List Item
  | [] => []
  | item :: rest =>
    touchFrom chosen n item :: touchAllFrom chosen (n + (rules item).length) rest

end

theorem touchFrom_of_isPlain {item : Item} (h : item.isPlain = true) (chosen : Nat → Bool)
    (n : Nat) : touchFrom chosen n item = item := by
  cases item <;> first | rfl | contradiction

theorem rulesAll_touchAllFrom (chosen : Nat → Bool) (n : Nat) (items : List Item) :
    rulesAll (touchAllFrom chosen n items) =
      (rulesAll items).mapIdx fun i r => if chosen (n + i) then r.touch else r := by
  induction items using listInduction generalizing n with
  | nil => rfl
  | rule r rest ih =>
      simp [touchAllFrom, touchFrom, rulesAll, rules, ih, List.mapIdx_cons, Nat.add_comm,
        Nat.add_left_comm]
  | group head items rest ihitems ihrest =>
      simp [touchAllFrom, touchFrom, rulesAll, rules, ihitems, ihrest, List.mapIdx_append,
        Nat.add_comm, Nat.add_left_comm]
  | plain item rest hplain ih =>
      simp [touchAllFrom, touchFrom_of_isPlain hplain, rulesAll, rules_of_isPlain hplain, ih]

theorem renderAll_touchAllFrom (chosen : Nat → Bool) (n : Nat) (items : List Item)
    (hfresh : Stylesheet.Fresh items) :
    renderAll (touchAllFrom chosen n items) = renderAll items := by
  induction items using listInduction generalizing n with
  | nil => rfl
  | rule r rest ih =>
      obtain ⟨hrule, hrest⟩ := Stylesheet.fresh_cons.mp hfresh
      have htouch : (if chosen n then r.touch else r).render = r.render := by
        split
        · exact Rule.render_touch_of_fresh (hrule r (by simp [rules]))
        · rfl
      rw [touchAllFrom, touchFrom, renderAll, render, htouch, ih _ hrest, renderAll, render]
  | group head items rest ihitems ihrest =>
      obtain ⟨hitems, hrest⟩ := Stylesheet.fresh_cons.mp hfresh
      rw [touchAllFrom, touchFrom, renderAll, render, ihitems n hitems, ihrest _ hrest, renderAll,
        render]
  | plain item rest hplain ih =>
      obtain ⟨-, hrest⟩ := Stylesheet.fresh_cons.mp hfresh
      rw [touchAllFrom, touchFrom_of_isPlain hplain, renderAll, ih _ hrest, renderAll]

theorem mapRulesAll_touch (items : List Item) :
    mapRulesAll Rule.touch items = touchAllFrom (fun _ => true) 0 items := by
  have hfrom : ∀ n, mapRulesAll Rule.touch items = touchAllFrom (fun _ => true) n items := by
    induction items using listInduction with
    | nil => intro n; rfl
    | rule r rest ih => intro n; rw [mapRulesAll, mapRules, touchAllFrom, touchFrom, ih]; rfl
    | group head items rest ihitems ihrest =>
        intro n
        rw [mapRulesAll, mapRules, touchAllFrom, touchFrom, ihitems n, ihrest]
    | plain item rest hplain ih =>
        intro n
        rw [mapRulesAll, touchAllFrom, mapRules_of_isPlain hplain, touchFrom_of_isPlain hplain, ih]
  exact hfrom 0

end Item

/-- Touches a subset of the rules of a stylesheet, given by their numbers in document order. -/
def Stylesheet.touchWhere (chosen : Nat → Bool) (sheet : Stylesheet) : Stylesheet :=
  Item.touchAllFrom chosen 0 sheet

theorem Stylesheet.render_touchAll {sheet : Stylesheet} (h : Stylesheet.Fresh sheet) :
    Stylesheet.render (Stylesheet.touchAll sheet) = Stylesheet.render sheet := by
  rw [Stylesheet.touchAll, Item.mapRulesAll_touch]
  exact Item.renderAll_touchAllFrom _ 0 sheet h

/-- Whichever rules of a parsed text are touched, at any depth, the tree prints the text. -/
theorem Stylesheet.render_touchWhere_parse (css : Text) (chosen : Nat → Bool) :
    Stylesheet.rules (Stylesheet.touchWhere chosen (Stylesheet.parse css)) =
        (Stylesheet.rules (Stylesheet.parse css)).mapIdx
          (fun n r => if chosen n then r.touch else r) ∧
      Stylesheet.render (Stylesheet.touchWhere chosen (Stylesheet.parse css)) = css := by
  constructor
  · have hrules := Item.rulesAll_touchAllFrom chosen 0 (Stylesheet.parse css)
    simp only [Nat.zero_add] at hrules
    exact hrules
  · have hfresh := Stylesheet.fresh_parse css
    calc Stylesheet.render (Stylesheet.touchWhere chosen (Stylesheet.parse css))
        = Stylesheet.render (Stylesheet.parse css) :=
          Item.renderAll_touchAllFrom chosen 0 _ hfresh
      _ = css := Stylesheet.render_parse css

/-! ### Steps of a session -/

theorem Selector.flip_from (options : FlipOptions) (selector : Selector) :
    (Selector.flip options selector).From selector :=
  Edit.stepIf_from Selector.tells_saysSide
    (Edit.stepIf_from Selector.tells_hasSidePseudo (Edit.start_from selector) _) _

theorem Declaration.flipSides_from (d : Declaration) : d.flipSides.From d := by
  have hproperty := Edit.step_from tells_flipsProperty (Edit.start_from d)
  have hshorthand := Edit.step_from (tells_flipsShorthand d.property) hproperty
  exact Edit.step_from (tells_flipsKeywords d.property) hshorthand

theorem Declaration.flip_from (options : FlipOptions) (d : Declaration) :
    (d.flip options).From d :=
  Edit.stepIf_from tells_flipsUrls d.flipSides_from _

theorem BodyItem.flip_from (options : FlipOptions) (guarded : Bool) (item : BodyItem) :
    (item.flip options guarded).From item := by
  cases item with
  | declaration d =>
      cases guarded with
      | true => exact Edit.start_from _
      | false =>
          intro hunchanged
          exact congrArg BodyItem.declaration (Declaration.flip_from options d hunchanged)
  | _ => exact Edit.start_from _

theorem Body.flip_from (options : FlipOptions) (body : Body) :
    (Body.flip options body).From body := by
  have hfrom : ∀ guarded, (Edit.all ((withGuards BodyItem.role guarded body).map
      fun pair => pair.1.flip options pair.2)).From body := by
    induction body with
    | nil => intro guarded _; rfl
    | cons item rest ih =>
        intro guarded hunchanged
        simp only [withGuards, List.map_cons, Edit.all, List.any_cons,
          Bool.or_eq_false_iff] at hunchanged ⊢
        rw [BodyItem.flip_from options guarded item hunchanged.1]
        exact congrArg (item :: ·) (ih _ hunchanged.2)
  exact hfrom false

theorem Rule.fresh_flip {r : Rule} (h : r.Fresh) (options : FlipOptions) :
    (r.flip options).Fresh := by
  intro text hsource
  by_cases hchanged : r.isChangedBy options = true
  · simp [Rule.flip, hchanged] at hsource
  have hparts : r.isChangedBy options = false := by simpa using hchanged
  rw [Rule.isChangedBy, Bool.or_eq_false_iff] at hparts
  have hselector := Selector.flip_from options r.selector hparts.1
  have hbody := Body.flip_from options r.body hparts.2
  simp only [Rule.flip, hchanged] at hsource
  rw [h text hsource, Rule.partsText, Rule.partsText, Rule.flip, hselector, hbody]

theorem Rule.fresh_clean {r : Rule} (h : r.Fresh) (d : Direction) : (r.clean d).Fresh := by
  intro text hsource
  rw [Rule.clean_eq] at hsource ⊢
  by_cases hbody : strip BodyItem.role d none r.body = r.body
  · simp only [hbody, if_true] at hsource
    rw [h text hsource, Rule.partsText, Rule.partsText, hbody]
  · simp [hbody] at hsource

theorem Rule.fresh_preface (d : Direction) : (Rule.preface d).Fresh := by
  intro text hsource
  contradiction

theorem Stylesheet.fresh_iff {sheet : Stylesheet} :
    Stylesheet.Fresh sheet ↔ ∀ item ∈ sheet, ∀ r ∈ Item.rules item, r.Fresh := by
  induction sheet with
  | nil => simp [Stylesheet.fresh_nil]
  | cons item rest ih => simp [Stylesheet.fresh_cons, ih]

theorem Stylesheet.Fresh.sublist {a b : Stylesheet} (h : Stylesheet.Fresh b) (hsub : a.Sublist b) :
    Stylesheet.Fresh a := by
  rw [Stylesheet.fresh_iff] at h ⊢
  intro item hitem
  exact h item (hsub.subset hitem)

theorem Item.fresh_flipAll (options : FlipOptions) (guarded : Bool) (items : List Item)
    (h : Stylesheet.Fresh items) : Stylesheet.Fresh (flipAll options guarded items) := by
  induction items using listInduction generalizing guarded with
  | nil => exact h
  | rule r rest ih =>
      obtain ⟨hrule, hrest⟩ := Stylesheet.fresh_cons.mp h
      rw [flipAll, Stylesheet.fresh_cons]
      refine ⟨?_, ih _ hrest⟩
      split
      · exact hrule
      · simpa [flip, rules] using Rule.fresh_flip (hrule r (by simp [rules])) options
  | group head items rest ihitems ihrest =>
      obtain ⟨hitems, hrest⟩ := Stylesheet.fresh_cons.mp h
      rw [flipAll, Stylesheet.fresh_cons]
      refine ⟨?_, ihrest _ hrest⟩
      split
      · exact hitems
      · exact ihitems false hitems
  | plain item rest hplain ih =>
      obtain ⟨hitem, hrest⟩ := Stylesheet.fresh_cons.mp h
      rw [flipAll, flip_of_isPlain hplain, ite_self, Stylesheet.fresh_cons]
      exact ⟨hitem, ih _ hrest⟩

theorem Item.fresh_cleanEach (d : Direction) (items : List Item) (h : Stylesheet.Fresh items) :
    Stylesheet.Fresh (cleanEach d items) := by
  induction items using listInduction with
  | nil => exact h
  | rule r rest ih =>
      obtain ⟨hrule, hrest⟩ := Stylesheet.fresh_cons.mp h
      rw [cleanEach, Stylesheet.fresh_cons]
      refine ⟨?_, ih hrest⟩
      simpa [clean, rules] using Rule.fresh_clean (hrule r (by simp [rules])) d
  | group head items rest ihitems ihrest =>
      obtain ⟨hitems, hrest⟩ := Stylesheet.fresh_cons.mp h
      rw [cleanEach, clean_group, Stylesheet.fresh_cons]
      exact ⟨(ihitems hitems).sublist (strip_sublist _ _ _ _), ihrest hrest⟩
  | plain item rest hplain ih =>
      obtain ⟨hitem, hrest⟩ := Stylesheet.fresh_cons.mp h
      rw [cleanEach, clean_of_isPlain hplain, Stylesheet.fresh_cons]
      exact ⟨hitem, ih hrest⟩

theorem Item.splitLeading_append (items : List Item) :
    (splitLeading items).1 ++ (splitLeading items).2 = items := by
  fun_induction splitLeading items <;> simp_all

theorem Stylesheet.fresh_clean {sheet : Stylesheet} (h : Stylesheet.Fresh sheet) (d : Direction) :
    Stylesheet.Fresh (Stylesheet.clean d sheet) := by
  have hcleaned : Stylesheet.Fresh (Item.cleanAll d sheet) := by
    rw [Item.cleanAll_eq_strip]
    exact (Item.fresh_cleanEach d sheet h).sublist (strip_sublist _ _ _ _)
  rw [← Item.splitLeading_append (Item.cleanAll d sheet), Stylesheet.fresh_append] at hcleaned
  rw [Stylesheet.clean, Stylesheet.addPreface, Stylesheet.fresh_append, Stylesheet.fresh_cons]
  refine ⟨hcleaned.1, ?_, hcleaned.2⟩
  simpa [Item.rules] using Rule.fresh_preface d

theorem Stylesheet.fresh_touchAll (sheet : Stylesheet) :
    Stylesheet.Fresh (Stylesheet.touchAll sheet) := by
  intro r hr
  rw [Stylesheet.touchAll, Stylesheet.rules, Item.mapRulesAll_touch,
    Item.rulesAll_touchAllFrom] at hr
  obtain ⟨i, _, rfl⟩ := List.mem_mapIdx.mp hr
  exact Rule.fresh_touch _

theorem Step.fresh_apply {sheet : Stylesheet} (h : Stylesheet.Fresh sheet) (step : Step) :
    Stylesheet.Fresh (step.apply sheet) := by
  cases step with
  | flip options => exact Item.fresh_flipAll options false sheet h
  | clean d => exact Stylesheet.fresh_clean h d
  | touch => exact Stylesheet.fresh_touchAll sheet
  | reparse => exact Stylesheet.fresh_parse _

/-- The stylesheet after a list of steps. -/
def Stylesheet.after (steps : List Step) (sheet : Stylesheet) : Stylesheet :=
  steps.foldl Step.apply sheet

theorem Stylesheet.fresh_after {sheet : Stylesheet} (h : Stylesheet.Fresh sheet)
    (steps : List Step) : Stylesheet.Fresh (Stylesheet.after steps sheet) := by
  induction steps generalizing sheet with
  | nil => exact h
  | cons step steps ih => exact ih (Step.fresh_apply h step)

/-- Whatever is done to a parsed text, a rule that has its source text would print the same from its
parts, so touching all rules does not change what is printed. -/
theorem Stylesheet.source_eq_partsText_after_parse (css : Text) (steps : List Step) :
    (∀ r ∈ Stylesheet.rules (Stylesheet.after steps (Stylesheet.parse css)),
        ∀ text, r.source = some text →
          text = Selector.render r.selector ++ '{' :: (Body.render r.body ++ ['}'])) ∧
      Stylesheet.render (Stylesheet.touchAll (Stylesheet.after steps (Stylesheet.parse css))) =
        Stylesheet.render (Stylesheet.after steps (Stylesheet.parse css)) := by
  have hfresh := Stylesheet.fresh_after (Stylesheet.fresh_parse css) steps
  exact ⟨hfresh, Stylesheet.render_touchAll hfresh⟩

end StyleFlip
