import StyleFlip.Proofs.PrefaceText

/-!
# Items in front of the preface

Only blanks, comments and leading statements stand in front of the preface of a cleaned stylesheet.
What comes after them does not change how they are read, as long as it starts with no blank. A last
statement without its semicolon takes the preface in, and then no rule is left.
-/

namespace StyleFlip

/-! ### Parts of lists with members left out -/

theorem Thinned.exists_of_append_cons {α : Type} {p : α → Prop} {front back all : List α} {x : α}
    (h : Thinned p (front ++ x :: back) all) :
    ∃ front' back', all = front' ++ x :: back' ∧ Thinned p front front' ∧ Thinned p back back' := by
  generalize hkept : front ++ x :: back = kept at h
  induction h generalizing front with
  | nil => simp at hkept
  | keep a hrest ih =>
      cases front with
      | nil =>
          obtain ⟨rfl, rfl⟩ := List.cons.inj hkept
          exact ⟨[], _, rfl, .nil, hrest⟩
      | cons b front =>
          obtain ⟨rfl, htail⟩ := List.cons.inj hkept
          obtain ⟨front', back', rfl, hfront, hback⟩ := ih htail
          exact ⟨b :: front', back', rfl, .keep b hfront, hback⟩
  | @drop a ha _ _ _ ih =>
      obtain ⟨front', back', rfl, hfront, hback⟩ := ih hkept
      exact ⟨a :: front', back', rfl, .drop ha hfront, hback⟩

theorem Item.ofOutlines_eq_map (es : List Outline) : ofOutlines es = es.map ofOutline := by
  induction es with
  | nil => rfl
  | cons entry es ih => rw [ofOutlines, ih, List.map_cons]

@[simp]
theorem Item.ofOutlines_append (a b : List Outline) :
    ofOutlines (a ++ b) = ofOutlines a ++ ofOutlines b := by
  rw [ofOutlines_eq_map, List.map_append, ofOutlines_eq_map, ofOutlines_eq_map]

theorem Item.cleanEach_ofOutlines (d : Direction) (es : List Outline) :
    cleanEach d (ofOutlines es) = es.map fun entry => clean d (ofOutline entry) := by
  induction es with
  | nil => rfl
  | cons entry es ih => rw [ofOutlines, cleanEach, ih, List.map_cons]

/-! ### Where the preface goes -/

namespace Item

/-- An item that may stand in front of the preface. -/
def goesFirst (item : Item) : Bool := item.isLeading || item.isTrivia

theorem isPlain_of_goesFirst {item : Item} (h : item.goesFirst = true) : item.isPlain = true := by
  cases item <;> first | rfl | contradiction

/-- The items in front of the preface are none, or end in a leading statement. -/
theorem splitLeading_cases (items : List Item) :
    (splitLeading items).1 = [] ∨ ∃ init head semicolon,
      (splitLeading items).1 = init ++ [.statement head semicolon] ∧
        (Item.statement head semicolon).isLeading = true ∧ ∀ item ∈ init, item.goesFirst = true := by
  fun_induction splitLeading items with
  | case1 => exact Or.inl rfl
  | case2 item rest hleading ih =>
      right
      rcases ih with hnil | ⟨init, head, semicolon, hinit, hlast, hall⟩
      · cases item with
        | statement head semicolon =>
            exact ⟨[], head, semicolon, by simp [hnil], hleading, by simp⟩
        | _ => contradiction
      · refine ⟨item :: init, head, semicolon, by simp [hinit], hlast, ?_⟩
        simpa [goesFirst, hleading] using hall
  | case3 => exact Or.inl rfl
  | case4 item rest hleading htrivia leading after hne hsplit ih =>
      right
      rw [hsplit] at ih
      rcases ih with hnil | ⟨init, head, semicolon, hinit, hlast, hall⟩
      · exact absurd hnil hne
      · refine ⟨item :: init, head, semicolon, by simp [show leading = _ from hinit], hlast, ?_⟩
        simpa [goesFirst, htrivia] using hall
  | case5 => exact Or.inl rfl

theorem goesFirst_of_mem_splitLeading {items : List Item} {item : Item}
    (h : item ∈ (splitLeading items).1) : item.goesFirst = true := by
  rcases splitLeading_cases items with hnil | ⟨init, head, semicolon, hinit, hlast, hall⟩
  · simp [hnil] at h
  · rw [hinit, List.mem_append, List.mem_singleton] at h
    rcases h with hmem | rfl
    · exact hall item hmem
    · simp [goesFirst, hlast]

/-- The last item is a statement without its semicolon. -/
def endsOpen (items : List Item) : Bool :=
  match items.getLast? with
  | some (.statement _ semicolon) => !semicolon
  | _ => false

@[simp]
theorem endsOpen_append_statement (items : List Item) (head : AtHead) (semicolon : Bool) :
    endsOpen (items ++ [.statement head semicolon]) = !semicolon := by
  simp [endsOpen]

end Item

namespace Outline

theorem ProperAll.of_append {a b : List Outline} (h : ProperAll (a ++ b)) : ProperAll b := by
  induction a with
  | nil => exact h
  | cons entry a ih => exact ih h.2

theorem Follows.append {rest rest' : List Token} (h : Follows rest rest') (ts : List Token) :
    Follows (ts ++ rest) (ts ++ rest') := by
  cases ts with
  | nil => exact h
  | cons t ts =>
      refine ⟨by simp, ?_⟩
      rintro ⟨u, more, hfirst, hkind⟩
      obtain ⟨rfl, -⟩ := List.cons.inj hfirst
      exact ⟨t, ts ++ rest', rfl, hkind⟩

theorem ProperAll.append_of_follows {a b b' : List Outline} (h : ProperAll (a ++ b))
    (hfollows : Follows (tokensAll b) (tokensAll b')) (hb : ProperAll b') : ProperAll (a ++ b') := by
  induction a with
  | nil => exact hb
  | cons entry a ih =>
      obtain ⟨hentry, hrest⟩ := h
      refine ⟨hentry.of_follows ?_, ih hrest⟩
      simpa using hfollows.append (tokensAll a)

theorem ProperAll.eq_nil {es : List Outline} (h : ProperAll es) (htokens : tokensAll es = []) :
    es = [] := by
  cases es with
  | nil => rfl
  | cons entry es =>
      rw [tokensAll, List.append_eq_nil_iff] at htokens
      exact absurd htokens.1 h.1.tokens_ne_nil

/-- A statement that has become an item with a semicolon had one. -/
theorem exists_statement_of_clean {d : Direction} {entry : Outline} {head : AtHead}
    {semicolon : Bool} (h : Item.clean d (Item.ofOutline entry) = .statement head semicolon) :
    ∃ keyword params stop, entry = .statement keyword params stop ∧ stop.isSome = semicolon := by
  cases entry with
  | statement keyword params stop =>
      rw [Item.ofOutline, Item.clean] at h
      · exact ⟨keyword, params, stop, rfl, (Item.statement.inj h).2⟩
      · simp
      · simp
  | _ => simp [Item.ofOutline, Item.clean] at h

/-- The items in front of the preface are none, or end in a statement of the source. -/
theorem splitLeading_cleanAll_cases (d : Direction) {es : List Outline} {leading after : List Item}
    (h : Item.splitLeading (Item.cleanAll d (Item.ofOutlines es)) = (leading, after)) :
    leading = [] ∨ ∃ front es₁ keyword params stop es₂,
      leading = front ++ [Item.ofOutline (.statement keyword params stop)] ∧
        es = es₁ ++ .statement keyword params stop :: es₂ ∧
        (Item.ofOutline (.statement keyword params stop)).isLeading = true ∧
        (∀ item ∈ front, item.goesFirst = true) ∧
        Thinned (fun item => item.role ≠ .other) front (Item.cleanEach d (Item.ofOutlines es₁)) ∧
        Thinned (fun item => item.role ≠ .other) after (Item.cleanEach d (Item.ofOutlines es₂)) := by
  have hthin : Thinned (fun item => item.role ≠ .other) (Item.cleanAll d (Item.ofOutlines es))
      (Item.cleanEach d (Item.ofOutlines es)) := by
    rw [Item.cleanAll_eq_strip]
    exact thinned_strip Item.role d none _ (by simp)
  have happend := Item.splitLeading_append (Item.cleanAll d (Item.ofOutlines es))
  have hcases := Item.splitLeading_cases (Item.cleanAll d (Item.ofOutlines es))
  rw [h] at happend hcases
  dsimp only at happend hcases
  refine hcases.imp_right ?_
  rintro ⟨front, head, semicolon, rfl, hleading, hfirst⟩
  rw [← happend, List.append_assoc, List.singleton_append, Item.cleanEach_ofOutlines] at hthin
  obtain ⟨front', back', hall, hfront, hback⟩ := hthin.exists_of_append_cons
  obtain ⟨es₁, es₂, rfl, rfl, htail⟩ := List.map_eq_append_iff.mp hall
  obtain ⟨entry, es₂, rfl, hentry, rfl⟩ := List.map_eq_cons_iff.mp htail
  obtain ⟨keyword, params, stop, rfl, -⟩ := exists_statement_of_clean hentry
  have hitem : Item.ofOutline (.statement keyword params stop) = .statement head semicolon := hentry
  rw [← Item.cleanEach_ofOutlines] at hfront hback
  exact ⟨front, es₁, keyword, params, stop, es₂, by rw [hitem], rfl, by rw [hitem]; exact hleading,
    hfirst, hfront, hback⟩

/-- Before the text `r`, the entries `es` are read as items that go first, whatever comes after. -/
structure Leads (r : Text) (items : List Item) (es : List Outline) : Prop where
  proper {tail : List Outline} : ProperAll tail → ProperAll (es ++ tail)
  stand : Stand (tokensAll es) r
  text : textOf (tokensAll es) = Item.renderAll items
  first : ∀ item ∈ Item.ofOutlines es, item.goesFirst = true

namespace Leads

variable {r : Text} {items : List Item} {es : List Outline}

theorem nil (r : Text) : Leads r [] [] := ⟨id, trivial, rfl, by simp [Item.ofOutlines]⟩

theorem cons (h : Leads r items es) {entry : Outline} (hproper : ∀ rest, entry.Proper rest)
    (hstand : Stand entry.tokens (textOf (tokensAll es) ++ r))
    (htext : textOf entry.tokens = (Item.ofOutline entry).render)
    (hfirst : (Item.ofOutline entry).goesFirst = true) :
    Leads r (Item.ofOutline entry :: items) (entry :: es) where
  proper htail := ⟨hproper _, h.proper htail⟩
  stand := by
    rw [tokensAll, stand_append]
    exact ⟨hstand, h.stand⟩
  text := by rw [tokensAll, textOf_append, htext, h.text, Item.renderAll]
  first := by
    intro item hitem
    rw [Item.ofOutlines, List.mem_cons] at hitem
    rcases hitem with rfl | hitem
    · exact hfirst
    · exact h.first item hitem

theorem append {items' : List Item} {es' : List Outline}
    (h : Leads (textOf (tokensAll es') ++ r) items es) (h' : Leads r items' es') :
    Leads r (items ++ items') (es ++ es') where
  proper htail := by
    rw [List.append_assoc]
    exact h.proper (h'.proper htail)
  stand := by
    rw [tokensAll_append, stand_append]
    exact ⟨h.stand, h'.stand⟩
  text := by rw [tokensAll_append, textOf_append, h.text, h'.text, Item.renderAll_append]
  first := by
    intro item hitem
    rw [Item.ofOutlines_append, List.mem_append] at hitem
    exact hitem.elim (h.first item) (h'.first item)

/-- A blank in front of a blank is read with it as one. -/
theorem cons_blank (h : Leads r items es) {t : Token} {r' : Text} (ht : t.kind = .whitespace)
    (hr : Lexer.startsWith Lexer.isSpace r = false) (hstand : t.toLexeme.StandsBefore r') :
    ∃ es', Leads r (.whitespace t.text :: items) es' := by
  by_cases hblank : ∃ u more, es = .whitespace u :: more
  · obtain ⟨u, more, rfl⟩ := hblank
    have hafter : Stand (u :: tokensAll more) r := h.stand
    have hu : u.kind = .whitespace := (@h.proper [] trivial).1
    refine ⟨.whitespace (t.joinBlank u) :: more, ?_, ?_, ?_, ?_⟩
    · exact fun htail => ⟨rfl, (h.proper htail).2⟩
    · exact ⟨Token.standsBefore_joinBlank ht hu hstand hafter.1, hafter.2⟩
    · have htext := h.text
      simp only [tokensAll, tokens, textOf_append, textOf_cons, textOf_nil, List.append_nil] at htext ⊢
      rw [Item.renderAll, ← htext, ← List.append_assoc]
      rfl
    · intro item hitem
      rw [Item.ofOutlines, List.mem_cons] at hitem
      rcases hitem with rfl | hitem
      · rfl
      · exact h.first item (by rw [Item.ofOutlines]; exact List.mem_cons_of_mem _ hitem)
  · have hstands : Stand (t :: tokensAll es) r := by
      refine Stand.cons_blank ht hstand h.stand ?_ (fun _ => hr)
      intro u more hfirst hu
      have hread := outline_tokensAll es (by simpa using @h.proper [] trivial)
      have hfront : front u more = (.whitespace u, more) := by simp [front, hu]
      rw [hfirst, outline_of_front hfront (by simp)] at hread
      exact hblank ⟨u, outline more, hread.symm⟩
    have hleads : Leads r (Item.ofOutline (.whitespace t) :: items) (.whitespace t :: es) :=
      h.cons (fun _ => ht) ⟨hstands.1, trivial⟩ (by simp [tokens, Item.ofOutline, Item.render]) rfl
    exact ⟨_, hleads⟩

end Leads

/-- Items that go first are read back, if some of the tokens that were after them are there still. -/
theorem exists_leads (d : Direction) {es rest : List Outline} {items : List Item} {r r' : Text}
    (hthin : Thinned (fun item => item.role ≠ .other) items (Item.cleanEach d (Item.ofOutlines es)))
    (hproper : ProperAll (es ++ rest)) (hrest : tokensAll rest ≠ []) (hstand : Stand (tokensAll es) r)
    (hr : r ≠ []) (hfirst : ∀ item ∈ items, item.goesFirst = true)
    (hr' : Lexer.startsWith Lexer.isSpace r' = false) : ∃ es', Leads r' items es' := by
  induction es generalizing items with
  | nil =>
      rw [Item.ofOutlines, Item.cleanEach] at hthin
      cases hthin
      exact ⟨[], .nil r'⟩
  | cons entry es ih =>
      obtain ⟨hentry, hproper⟩ := hproper
      rw [tokensAll, stand_append] at hstand
      rw [Item.ofOutlines, Item.cleanEach] at hthin
      cases hthin with
      | drop _ hthin => exact ih hthin hproper hstand.2 hfirst
      | @keep _ kept _ hthin =>
          obtain ⟨es', hleads⟩ := ih hthin hproper hstand.2 fun item hitem => hfirst item (by simp [hitem])
          have hitem := hfirst _ (List.mem_cons_self ..)
          -- An entry that stands before every text stays as it is.
          have hkeep : (∀ keyword params opening items closing,
              entry ≠ .group keyword params opening items closing) →
              Item.clean d (Item.ofOutline entry) = Item.ofOutline entry →
              (∀ rest, entry.Proper rest) → (∀ x, Stand entry.tokens x) →
              ∃ es'', Leads r' (Item.clean d (Item.ofOutline entry) :: kept) es'' := by
            intro hother hclean hproper hstands
            rw [hclean] at hitem ⊢
            have htext := (Item.render_ofOutline hother hentry hstand.1.spelledAll).1
            exact ⟨entry :: es', hleads.cons hproper (hstands _) htext.symm hitem⟩
          cases entry with
          | whitespace t => exact hleads.cons_blank hentry hr' hstand.1.1
          | comment t =>
              refine hkeep (by simp) rfl (fun _ => hentry) fun x => ?_
              exact @Stand.of_last [] _ _ hstand.1 (Or.inr ⟨hentry, by simp [hr]⟩) x
          | statement keyword params semicolon =>
              cases semicolon with
              | none =>
                  have hnil : tokensAll (es ++ rest) = [] := hentry.1
                  rw [tokensAll_append, List.append_eq_nil_iff] at hnil
                  exact absurd hnil.2 hrest
              | some stop =>
                  refine hkeep (by simp) rfl (fun _ => hentry) fun x => ?_
                  have htokens : (Outline.statement keyword params (some stop)).tokens =
                      (keyword :: params) ++ [stop] := by simp [tokens]
                  have hstop : stop.kind = .semicolon := hentry.2.2
                  rw [htokens] at hstand ⊢
                  exact hstand.1.of_last (Or.inl (by simp [hstop, Kind.sign?])) x
          | _ => contradiction

/-- All that stands in front of the preface is read back, if it does not end in a statement without
its semicolon. -/
theorem exists_leads_splitLeading (d : Direction) {es : List Outline} (hproper : ProperAll es)
    (hstand : Stand (tokensAll es) [])
    (hclosed : Item.endsOpen (Item.splitLeading (Item.cleanAll d (Item.ofOutlines es))).1 = false)
    (r : Text) :
    ∃ es', Leads r (Item.splitLeading (Item.cleanAll d (Item.ofOutlines es))).1 es' := by
  rcases hsplit : Item.splitLeading (Item.cleanAll d (Item.ofOutlines es)) with ⟨leading, after⟩
  rw [hsplit] at hclosed
  rcases splitLeading_cleanAll_cases d hsplit with
    rfl | ⟨front, es₁, keyword, params, stop, es₂, rfl, rfl, hleading, hfirst, hfront, -⟩
  · exact ⟨[], .nil r⟩
  have hstop : stop.isSome = true := by
    simpa [Item.ofOutline] using hclosed
  obtain ⟨stop, rfl⟩ := Option.isSome_iff_exists.mp hstop
  obtain ⟨hstatement, -⟩ := hproper.of_append
  obtain ⟨hkeyword, -, hsemicolon⟩ := id hstatement
  rw [tokensAll_append, stand_append, tokensAll, stand_append] at hstand
  obtain ⟨hbefore, hseam, -⟩ := hstand
  have htext := (Item.render_ofOutline (by simp) hstatement hseam.spelledAll).1
  have htokens : (Outline.statement keyword params (some stop)).tokens =
      (keyword :: params) ++ [stop] := by simp [tokens]
  have hlast : Leads r [Item.ofOutline (.statement keyword params (some stop))]
      [.statement keyword params (some stop)] := by
    refine (Leads.nil r).cons (fun _ => hstatement) ?_ htext.symm (by simp [Item.goesFirst, hleading])
    rw [htokens] at hseam ⊢
    exact hseam.of_last (Or.inl (by simp [hsemicolon, Kind.sign?])) _
  obtain ⟨tail, hat, -⟩ := hseam.1.exists_at hkeyword
  have hat : keyword.text = '@' :: tail := hat
  have hspace : Lexer.startsWith Lexer.isSpace
      (textOf (tokensAll [.statement keyword params (some stop)]) ++ r) = false := by
    simp [tokensAll, tokens, hat, Lexer.startsWith, Lexer.isSpace]
  obtain ⟨es', hleads⟩ := exists_leads d hfront hproper (by simp [tokensAll, tokens]) hbefore
    (by simp [tokens, hat]) hfirst hspace
  exact ⟨_, hleads.append hlast⟩

/-! ### A statement without its semicolon -/

theorem proper_missingBlock_prefaceBody (d : Direction) (rest : List Token) :
    (Outline.raw .missingBlock (prefaceBody d)).Proper rest :=
  ⟨[.word "direction".toList, .sign .colon ':', .word d.name], .sign .semicolon ';', rfl,
    ⟨_, _, rfl, rfl⟩, rfl, rfl⟩

/-- An at-rule that takes the preface as its block, or as a part of its parameters, holds no rule. -/
theorem exists_proper_of_atRule {d : Direction} {keyword : Token} {params rest : List Token}
    (hkeyword : keyword.kind = .atKeyword) (hparams : (preludeDepth 0 params).isSome = true)
    (hrest : rest = [] ∨ rest = bareTokens (prefaceBlock d)) :
    ∃ es, tokensAll es = keyword :: (params ++ rest) ∧ ProperAll es ∧
      Item.rulesAll (Item.ofOutlines es) = [] := by
  rcases hrest with rfl | rfl
  · exact ⟨[.statement keyword params none], by simp [tokensAll, tokens],
      ⟨⟨rfl, hkeyword, hparams⟩, trivial⟩, rfl⟩
  obtain ⟨e, hdepth⟩ := Option.isSome_iff_exists.mp hparams
  rw [bareTokens_prefaceBlock]
  cases e with
  | zero =>
      have hblock : AtBlock keyword params (.sign .openBrace '{') (prefaceBody d)
          (.sign .closeBrace '}') := ⟨hkeyword, hdepth, rfl, rfl, rfl⟩
      by_cases hgrouping : isGrouping keyword = true
      · refine ⟨[.group keyword params (.sign .openBrace '{') [.raw .missingBlock (prefaceBody d)]
          (.sign .closeBrace '}')], ?_, ⟨⟨hgrouping, ?_, ?_, trivial⟩, trivial⟩, rfl⟩
        · simp [tokensAll, tokens]
        · simpa [tokensAll, tokens] using hblock
        · exact proper_missingBlock_prefaceBody d _
      · refine ⟨[.verbatim keyword params (.sign .openBrace '{') (prefaceBody d)
          (.sign .closeBrace '}')], ?_, ⟨⟨by simpa using hgrouping, hblock⟩, trivial⟩, rfl⟩
        simp [tokensAll, tokens]
  | succ e =>
      -- The `{` stands inside brackets, so only the `}` ends what the at-rule takes.
      have hinside : preludeDepth (e + 1) (.sign .openBrace '{' :: prefaceBody d) = some (e + 1) := by
        simp [prefaceBody, preludeDepth, endsPrelude, Kind.nest, Token.sign, Token.word]
      refine ⟨[.raw .cutOff (keyword :: (params ++ .sign .openBrace '{' :: prefaceBody d)),
        .raw .strayBrace [.sign .closeBrace '}']], ?_, ⟨⟨⟨_, _, rfl, rfl⟩, ?_⟩, ?_, trivial⟩, rfl⟩
      · simp [tokensAll, tokens]
      · refine ⟨keyword, _, rfl, hkeyword, ?_⟩
        rw [preludeDepth_append, hdepth, Option.bind_some, hinside]
        rfl
      · exact ⟨_, rfl, rfl⟩

end Outline

namespace Item

theorem Glued.rulesAll_eq_nil {a b : List Item} (h : Glued a b) (ha : rulesAll a = []) :
    rulesAll b = [] := by
  induction h with
  | nil => rfl
  | rule => simp [rulesAll, rules] at ha
  | group hhead hitems _ ihitems ih =>
      simp only [rulesAll, rules, List.append_eq_nil_iff] at ha ⊢
      exact ⟨ihitems ha.1, ih ha.2⟩
  | same hplain hplain' _ _ ih =>
      simp only [rulesAll, rules_of_isPlain hplain, rules_of_isPlain hplain', List.nil_append] at ha ⊢
      exact ih ha
  | blank _ ih => simpa [rulesAll, rules] using ih ha

theorem rulesAll_eq_nil_of_isPlain {items : List Item} (h : ∀ item ∈ items, item.isPlain = true) :
    rulesAll items = [] := by
  induction items with
  | nil => rfl
  | cons item items ih =>
      rw [rulesAll, rules_of_isPlain (h item (by simp)), ih fun i hi => h i (by simp [hi])]
      rfl

end Item

/-- After a statement without its semicolon the preface is no rule, and no other rule is there. -/
theorem Stylesheet.rules_parse_of_open_statement (d : Direction) {keyword : Token}
    {params : List Token} {es : List Outline} {front : List Item}
    (hfront : Thinned (fun item => item.role ≠ .other) front
      (Item.cleanEach d (Item.ofOutlines es)))
    (hfirst : ∀ item ∈ front, item.goesFirst = true)
    (hproper : Outline.ProperAll (es ++ [.statement keyword params none]))
    (hstand : Stand (Outline.tokensAll (es ++ [.statement keyword params none])) []) :
    Stylesheet.rules (Stylesheet.parse (Item.renderAll front ++
      (textOf (keyword :: params) ++ prefaceText d))) = [] := by
  obtain ⟨⟨-, hkeyword, hparams⟩, -⟩ := hproper.of_append
  have htokens : Outline.tokensAll [.statement keyword params none] = keyword :: params := by
    simp [Outline.tokensAll, Outline.tokens]
  rw [Outline.tokensAll_append, htokens, stand_append] at hstand
  obtain ⟨hbefore, hseam⟩ := hstand
  obtain ⟨tail, hat, -⟩ := hseam.1.exists_at hkeyword
  have hat : keyword.text = '@' :: tail := hat
  -- The statement and the preface are read as entries without rules.
  obtain ⟨keyword', params', rest, htokens', hkeyword', hparams', hrest⟩ :=
    exists_atRule_append_preface d hkeyword hseam hparams
  obtain ⟨es₂, htokens₂, hproper₂, hrules₂⟩ :=
    Outline.exists_proper_of_atRule hkeyword' hparams' hrest
  have hbare : Outline.tokensAll es₂ =
      bareTokens (textOf (keyword :: params) ++ prefaceText d) := htokens₂.trans htokens'.symm
  have htext₂ : textOf (Outline.tokensAll es₂) = textOf (keyword :: params) ++ prefaceText d := by
    rw [hbare, textOf_bareTokens]
  -- The items in front of them go on being read as they were.
  have hspace : Lexer.startsWith Lexer.isSpace (textOf (Outline.tokensAll es₂)) = false := by
    rw [htext₂, textOf_cons, hat]
    rfl
  have htext : textOf (keyword :: params) ++ [] ≠ [] := by simp [hat]
  obtain ⟨es₁, hleads⟩ := Outline.exists_leads d hfront hproper (by simp [htokens]) hbefore htext
    hfirst hspace
  have hproper' : Outline.ProperAll (es₁ ++ es₂) := hleads.proper hproper₂
  have hstand' : Stand (Outline.tokensAll (es₁ ++ es₂)) [] := by
    rw [Outline.tokensAll_append, stand_append, List.append_nil]
    refine ⟨hleads.stand, ?_⟩
    rw [hbare]
    exact stand_bareTokens _
  have hrules : Item.rulesAll (Item.ofOutlines (es₁ ++ es₂)) = [] := by
    have hplain : ∀ item ∈ Item.ofOutlines es₁, item.isPlain = true :=
      fun item hitem => Item.isPlain_of_goesFirst (hleads.first item hitem)
    rw [Item.ofOutlines_append, Item.rulesAll_append, Item.rulesAll_eq_nil_of_isPlain hplain, hrules₂]
    rfl
  have hread := (Stylesheet.glued_parse hproper' hstand').rulesAll_eq_nil hrules
  rwa [Outline.tokensAll_append, textOf_append, hleads.text, htext₂] at hread

theorem Stylesheet.render_clean (d : Direction) {sheet : Stylesheet} {leading after : List Item}
    (h : Item.splitLeading (Item.cleanAll d sheet) = (leading, after)) :
    Stylesheet.render (Stylesheet.clean d sheet) =
      Item.renderAll leading ++ (prefaceText d ++ Item.renderAll after) := by
  rw [Stylesheet.clean, Stylesheet.addPreface, h, ← partsText_preface]
  exact Item.renderAll_append _ _

/-- When a statement without its semicolon comes last in front of the preface, nothing comes after
the preface, and the cleaned text has no rules. -/
theorem Stylesheet.rules_parse_of_endsOpen (d : Direction) {es : List Outline}
    (hproper : Outline.ProperAll es) (hstand : Stand (Outline.tokensAll es) [])
    {leading after : List Item}
    (hsplit : Item.splitLeading (Item.cleanAll d (Item.ofOutlines es)) = (leading, after))
    (hopen : Item.endsOpen leading = true) :
    after = [] ∧ Stylesheet.rules (Stylesheet.parse
      (Stylesheet.render (Stylesheet.clean d (Item.ofOutlines es)))) = [] := by
  rw [Stylesheet.render_clean d hsplit]
  rcases Outline.splitLeading_cleanAll_cases d hsplit with
    rfl | ⟨front, es₁, keyword, params, stop, es₂, rfl, rfl, -, hfirst, hfront, hback⟩
  · contradiction
  have hstop : stop = none := by
    simpa [Item.ofOutline] using hopen
  subst hstop
  obtain ⟨hstatement, hafter⟩ := hproper.of_append
  have hnone : es₂ = [] := hafter.eq_nil hstatement.1
  subst hnone
  have hend : after = [] := by
    cases hback
    rfl
  subst hend
  have hrules := Stylesheet.rules_parse_of_open_statement d hfront hfirst hproper hstand
  have hspelled : SpelledAll (Outline.statement keyword params none).tokens := by
    have hall := hstand.spelledAll
    rw [Outline.tokensAll_append, Outline.tokensAll, spelledAll_append, spelledAll_append] at hall
    exact hall.2.1
  have htext := (Item.render_ofOutline (by simp) hstatement hspelled).1
  refine ⟨rfl, ?_⟩
  simpa [Item.renderAll, htext, Outline.tokens] using hrules

end StyleFlip
