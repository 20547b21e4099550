import StyleFlip.Proofs.LeadingText

/-!
# The rule that declares the direction

A cleaned text opens with the rule `body{direction:d;}`, after the statements that have to come first.
Reading the text gives this rule back, except where the last of these statements has no semicolon: it
then takes the rule in, as its block or as more of its parameters.
-/

namespace StyleFlip

/-- The selector is `body`, and all there is in the block is the direction. -/
structure Rule.Declares (d : Direction) (r : Rule) : Prop where
  selector : Selector.render r.selector = "body".toList
  body : ∃ declaration : Declaration, r.body = [.declaration declaration] ∧
    declaration.property = "direction".toList ∧ declaration.value = [.leaf .ident d.name]

theorem Rule.declares_of_unplaced {d : Direction} {r : Rule} (h : r.unplaced = .preface d) :
    r.Declares d where
  selector := by
    have hselector : r.unplaced.selector = [.element "body".toList] := by rw [h, Rule.preface]
    rw [show r.selector = _ from hselector]
    rfl
  body := by
    have hbody : r.body.map BodyItem.bare = [.declaration (.simple "direction".toList d.name)] :=
      congrArg Rule.body h
    obtain ⟨item, hitems, hitem⟩ := List.map_eq_singleton_iff.mp hbody
    cases item with
    | declaration declaration =>
        have hbare : declaration.bare = .simple "direction".toList d.name :=
          BodyItem.declaration.inj hitem
        exact ⟨declaration, hitems, congrArg Declaration.property hbare,
          congrArg Declaration.value hbare⟩
    | _ => contradiction

/-- A rule that declares the direction stands at top level, and only blanks, comments and leading
statements are in front of it. -/
def Stylesheet.DeclaresFirst (d : Direction) (sheet : Stylesheet) : Prop :=
  ∃ before r after, sheet = before ++ .rule r :: after ∧ r.Declares d ∧
    ∀ item ∈ before, item.isLeading = true ∨ item.isTrivia = true

theorem Stylesheet.DeclaresFirst.rules_ne_nil {d : Direction} {sheet : Stylesheet}
    (h : Stylesheet.DeclaresFirst d sheet) : Stylesheet.rules sheet ≠ [] := by
  obtain ⟨before, r, after, rfl, -, -⟩ := h
  simp [Stylesheet.rules, Item.rulesAll, Item.rules]

theorem Item.goesFirst_unplaced (item : Item) : item.unplaced.goesFirst = item.goesFirst := by
  cases item <;> rfl

theorem Stylesheet.declaresFirst_of_unplaced {d : Direction} {sheet : Stylesheet}
    {before after : List Item}
    (h : Stylesheet.unplaced sheet = Item.unplacedAll before ++ .rule (.preface d) :: after)
    (hbefore : ∀ item ∈ before, item.goesFirst = true) : Stylesheet.DeclaresFirst d sheet := by
  rw [Stylesheet.unplaced, Item.unplacedAll_eq_map, Item.unplacedAll_eq_map] at h
  obtain ⟨before', tail, rfl, hfront, htail⟩ := List.map_eq_append_iff.mp h
  obtain ⟨item, after', rfl, hitem, -⟩ := List.map_eq_cons_iff.mp htail
  cases item with
  | rule r =>
      refine ⟨before', r, after', rfl, Rule.declares_of_unplaced (Item.rule.inj hitem), ?_⟩
      intro item hmem
      have hmem' : item.unplaced ∈ before.map Item.unplaced := by
        rw [← hfront]
        exact List.mem_map_of_mem hmem
      obtain ⟨item', hfirst, hsame⟩ := List.mem_map.mp hmem'
      have hgoes : item.goesFirst = true := by
        rw [← Item.goesFirst_unplaced, ← hsame, Item.goesFirst_unplaced, hbefore item' hfirst]
      simpa [Item.goesFirst] using hgoes
  | _ => contradiction

theorem Stylesheet.declaresFirst_of_leads {d : Direction} {leading : List Item} {es : List Outline}
    (rest : Text) (h : Outline.Leads (prefaceText d ++ rest) leading es) :
    Stylesheet.DeclaresFirst d
      (Stylesheet.parse (Item.renderAll leading ++ (prefaceText d ++ rest))) := by
  have hpreface : textOf (Outline.preface d).tokens = prefaceText d := by
    cases d <;> rfl
  have htail : Outline.tokensAll (.preface d :: outline (bareTokens rest)) =
      (Outline.preface d).tokens ++ bareTokens rest := by
    rw [Outline.tokensAll, tokensAll_outline]
  have hproper : Outline.ProperAll (es ++ .preface d :: outline (bareTokens rest)) :=
    h.proper ⟨Outline.proper_preface d _, properAll_outline _⟩
  have hstand : Stand (Outline.tokensAll (es ++ .preface d :: outline (bareTokens rest))) [] := by
    rw [Outline.tokensAll_append, htail, stand_append, stand_append, textOf_append, hpreface,
      textOf_bareTokens, List.append_nil]
    exact ⟨h.stand, stand_preface d _, stand_bareTokens rest⟩
  have hread := Stylesheet.unplaced_parse hproper hstand
  rw [Outline.tokensAll_append, htail, textOf_append, textOf_append, hpreface, textOf_bareTokens,
    h.text, Stylesheet.unplaced, Stylesheet.unplaced, Item.ofOutlines_append, Item.unplacedAll_append,
    Item.ofOutlines, Item.unplacedAll, Item.unplaced_ofOutline_preface] at hread
  exact Stylesheet.declaresFirst_of_unplaced hread h.first

/-- Reading a cleaned text gives the rule that declares the direction, unless the last statement in
front of it has no semicolon. -/
theorem declaresFirst_parse_clean_iff (css : Text) (d : Direction) :
    Stylesheet.DeclaresFirst d (Stylesheet.parse (clean css d)) ↔
      Item.endsOpen (Item.splitLeading (Item.cleanAll d (Stylesheet.parse css))).1 = false := by
  have hproper := properAll_outline (tokenize css)
  have hstand := stand_tokenize css
  rw [← tokensAll_outline (tokenize css)] at hstand
  constructor
  · intro hdeclares
    rw [Bool.eq_false_iff]
    intro hopen
    have hrules := Stylesheet.rules_parse_of_endsOpen d hproper hstand rfl hopen
    exact hdeclares.rules_ne_nil hrules.2
  · intro hclosed
    obtain ⟨es, hleads⟩ := Outline.exists_leads_splitLeading d hproper hstand hclosed
      (prefaceText d ++ Item.renderAll (Item.splitLeading (Item.cleanAll d (Stylesheet.parse css))).2)
    rw [clean, Stylesheet.render_clean d rfl]
    exact Stylesheet.declaresFirst_of_leads _ hleads

/-- An import that ends with the text takes the rule in as its block. -/
theorem not_declaresFirst_import :
    ¬ Stylesheet.DeclaresFirst .ltr (Stylesheet.parse (clean "@import url(x)".toList .ltr)) := by
  intro hdeclares
  exact hdeclares.rules_ne_nil (by decide +kernel)

end StyleFlip
