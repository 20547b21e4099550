import Mathlib.Data.List.TakeWhile
import StyleFlip.Proofs.RemovedItems

/-!
# Where the preface goes

Cleaning puts one rule into the stylesheet. Its place is found in the items that are left when the
markers have been applied: after the last of the statements that have to come first, and in front of
everything if there is none. All other text stays, so a stylesheet in which no marker speaks about
anything is given back when the preface is taken out again.
-/

namespace StyleFlip

/-! ### Statements that have to come first -/

/-- The at-rule has this name, in any case and perhaps after a vendor part such as `-webkit-`. -/
def AtHead.IsNamed (head : AtHead) (name : Text) : Prop :=
  Text.lower head.name = name ∨
    ∃ vendor, '-' ∉ vendor ∧ Text.lower head.name = '-' :: (vendor ++ '-' :: name)

theorem AtHead.base_of_vendor {head : AtHead} {vendor name : Text} (h : '-' ∉ vendor)
    (hname : Text.lower head.name = '-' :: (vendor ++ '-' :: name)) : head.base = name := by
  have hall : ∀ c ∈ vendor, (c != '-') = true := by
    intro c hc
    have hne : c ≠ '-' := fun heq => h (heq ▸ hc)
    simpa using hne
  have hdrop : (vendor ++ '-' :: name).dropWhile (· != '-') = '-' :: name := by
    rw [List.dropWhile_append_of_pos hall]
    rfl
  rw [base, baseName, hname]
  simp only [hdrop]

/-- A name without a hyphen in front is found with or without a vendor part. -/
theorem AtHead.base_eq_iff (head : AtHead) {name : Text} (h : name.head? ≠ some '-') :
    head.base = name ↔ head.IsNamed name := by
  constructor
  · rintro rfl
    unfold base baseName at h ⊢
    unfold IsNamed
    split
    · rename_i rest hlower
      have hsplit := List.takeWhile_append_dropWhile (p := fun c => c != '-') (l := rest)
      split
      · rename_i base hdrop
        right
        refine ⟨rest.takeWhile (· != '-'), ?_, by rw [← hdrop, hsplit, hlower]⟩
        intro hmem
        simpa using List.mem_takeWhile_imp hmem
      · rename_i hdrop
        simp [hlower] at h
    · exact Or.inl rfl
  · rintro (hname | ⟨vendor, hvendor, hname⟩)
    · rw [base, baseName, hname]
      split
      · simp at h
      · rfl
    · exact base_of_vendor hvendor hname

namespace Item

/-- A statement that has to come before all rules. -/
def Leads : Item → Prop
  | .statement head _ => ∃ name ∈ leadingNames, head.IsNamed name
  | _ => False

theorem isLeading_iff (item : Item) : item.isLeading = true ↔ item.Leads := by
  cases item with
  | statement head semicolon =>
      have hhead : ∀ name ∈ leadingNames, name.head? ≠ some '-' := by decide +kernel
      rw [isLeading, List.contains_iff_exists_mem_beq]
      constructor
      · rintro ⟨name, hmem, hname⟩
        exact ⟨name, hmem, (head.base_eq_iff (hhead name hmem)).mp (by simpa using hname)⟩
      · rintro ⟨name, hmem, hname⟩
        exact ⟨name, hmem, by simpa using (head.base_eq_iff (hhead name hmem)).mpr hname⟩
  | _ => simp [isLeading, Leads]

theorem goesFirst_iff (item : Item) :
    item.goesFirst = true ↔ item.isTrivia = true ∨ item.Leads := by
  rw [goesFirst, Bool.or_eq_true, isLeading_iff, or_comm]

theorem not_leads_of_isTrivia {item : Item} (h : item.isTrivia = true) : ¬ item.Leads := by
  cases item with
  | comment c => exact id
  | whitespace text => exact id
  | _ => contradiction

/-- The items that the preface comes after, the blanks and comments behind them, and the rest. The
first two make up the longest front of the list that holds only blanks, comments and statements that
have to come first. -/
structure LeadingSplit (leading gap rest : List Item) : Prop where
  first : ∀ item ∈ leading ++ gap, item.isTrivia = true ∨ item.Leads
  longest : ∀ item, rest.head? = some item → item.isTrivia = false ∧ ¬ item.Leads
  last : ∀ item, leading.getLast? = some item → item.Leads
  after : ∀ item ∈ gap, ¬ item.Leads

theorem exists_splitLeading_snd (items : List Item) :
    ∃ gap rest, (splitLeading items).2 = gap ++ rest ∧ (∀ item ∈ gap, item.isTrivia = true) ∧
      ∀ item, rest.head? = some item → item.goesFirst = false := by
  fun_induction splitLeading items with
  | case1 => exact ⟨[], [], rfl, by simp, by simp⟩
  | case2 item rest hleading ih => exact ih
  | case3 item rest hleading htrivia after hsplit ih =>
      -- Nothing after this item leads, so it belongs to the gap.
      have happend := splitLeading_append rest
      rw [hsplit] at happend ih
      obtain ⟨gap, others, hafter, hgap, hothers⟩ := ih
      refine ⟨item :: gap, others, ?_, by simpa [htrivia] using hgap, hothers⟩
      rw [List.cons_append, ← hafter]
      exact congrArg (item :: ·) happend.symm
  | case4 item rest hleading htrivia leading after hne hsplit ih =>
      rw [hsplit] at ih
      exact ih
  | case5 item rest hleading htrivia =>
      refine ⟨[], item :: rest, rfl, by simp, ?_⟩
      simp [goesFirst, hleading, htrivia]

theorem exists_leadingSplit (items : List Item) :
    ∃ gap rest, (splitLeading items).2 = gap ++ rest ∧
      LeadingSplit (splitLeading items).1 gap rest := by
  obtain ⟨gap, rest, hsnd, hgap, hrest⟩ := exists_splitLeading_snd items
  refine ⟨gap, rest, hsnd, ?_, ?_, ?_, ?_⟩
  · intro item hitem
    rcases List.mem_append.mp hitem with hfront | hback
    · exact item.goesFirst_iff.mp (goesFirst_of_mem_splitLeading hfront)
    · exact Or.inl (hgap item hback)
  · intro item hitem
    have hother := hrest item hitem
    rw [← Bool.not_eq_true, goesFirst_iff, not_or] at hother
    exact ⟨by simpa using hother.1, hother.2⟩
  · intro item hitem
    rcases splitLeading_cases items with hnil | ⟨init, head, semicolon, hinit, hlast, -⟩
    · simp [hnil] at hitem
    · obtain rfl : Item.statement head semicolon = item := by simpa [hinit] using hitem
      exact (isLeading_iff _).mp hlast
  · intro item hitem
    exact not_leads_of_isTrivia (hgap item hitem)

end Item

/-! ### Stylesheets without markers -/

theorem strip_of_unmarked {α : Type} {role : α → Role} (d : Direction) {items : List α}
    (h : ∀ i t marked, ¬ Speaks (items.map role) i t marked) : strip role d none items = items := by
  rw [strip_eq_dropAt]
  apply dropAt_of_forall_not
  rintro j ⟨i, t, marked, hspeaks, -⟩
  exact h i t marked hspeaks

theorem Rule.clean_of_unmarked (d : Direction) {r : Rule}
    (h : ∀ i t marked, ¬ Speaks (r.body.map BodyItem.role) i t marked) : r.clean d = r := by
  simp [Rule.clean_eq, strip_of_unmarked d h]

theorem Item.cleanEach_of_unmarked (d : Direction) {items : List Item}
    (h : ∀ roles ∈ levelsEach items, ∀ i t marked, ¬ Speaks roles i t marked) :
    cleanEach d items = items := by
  induction items using listInduction with
  | nil => rfl
  | rule r rest ih =>
      simp only [levelsEach, levels, List.singleton_append, List.forall_mem_cons] at h
      rw [cleanEach, clean, Rule.clean_of_unmarked d h.1, ih h.2]
  | group head items rest ihitems ih =>
      simp only [levelsEach, levels, List.cons_append, List.forall_mem_cons,
        List.forall_mem_append] at h
      obtain ⟨hlist, hinner, hrest⟩ := h
      rw [cleanEach, clean_group, ihitems hinner, strip_of_unmarked d hlist, ih hrest]
  | plain item rest hplain ih =>
      simp only [levelsEach, List.forall_mem_append] at h
      rw [cleanEach, clean_of_isPlain hplain, ih h.2]

theorem Item.cleanAll_of_unmarked (d : Direction) {sheet : Stylesheet}
    (h : ∀ roles ∈ Stylesheet.levels sheet, ∀ i t marked, ¬ Speaks roles i t marked) :
    cleanAll d sheet = sheet := by
  rw [Stylesheet.levels, List.forall_mem_cons] at h
  rw [cleanAll_eq_strip, cleanEach_of_unmarked d h.2, strip_of_unmarked d h.1]

/-! ### The cleaned text -/

theorem prefaceText_eq (d : Direction) :
    prefaceText d = "body\x7bdirection:".toList ++ d.name ++ ";\x7d".toList := by
  cases d <;> rfl

/-- Cleaning a text puts the preface between two parts of what is left of it, after the last of the
statements that have to come first. Where no marker speaks about anything, at no level, the two
parts make up the text. -/
theorem clean_inserts_preface (css : Text) (d : Direction) :
    ∃ leading gap rest,
      leading ++ (gap ++ rest) = Item.cleanAll d (Stylesheet.parse css) ∧
      Item.LeadingSplit leading gap rest ∧
      clean css d =
        Item.renderAll leading ++ ("body\x7bdirection:".toList ++ d.name ++ ";\x7d".toList) ++
          Item.renderAll (gap ++ rest) ∧
      ((∀ roles ∈ Stylesheet.levels (Stylesheet.parse css), ∀ i t marked,
          ¬ Speaks roles i t marked) →
        Item.renderAll leading ++ Item.renderAll (gap ++ rest) = css) := by
  obtain ⟨gap, rest, hsnd, hsplit⟩ :=
    Item.exists_leadingSplit (Item.cleanAll d (Stylesheet.parse css))
  have happend := Item.splitLeading_append (Item.cleanAll d (Stylesheet.parse css))
  rw [hsnd] at happend
  refine ⟨_, gap, rest, happend, hsplit, ?_, ?_⟩
  · rw [← prefaceText_eq, List.append_assoc]
    exact Stylesheet.render_clean d (Prod.ext rfl hsnd)
  · intro hunmarked
    rw [← Item.renderAll_append, happend, Item.cleanAll_of_unmarked d hunmarked]
    exact Stylesheet.render_parse css

/-- A statement can come to the front when a marked rule before it goes away. -/
example :
    clean "@charset \"x\";/*@rtl-only*/ .a\x7b\x7d/**/ @-x-LAYER b; @layer c\x7b\x7d".toList .ltr =
      "@charset \"x\";/**/ @-x-LAYER b;body\x7bdirection:ltr;\x7d @layer c\x7b\x7d".toList := by
  decide +kernel

end StyleFlip
