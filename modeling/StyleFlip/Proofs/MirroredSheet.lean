import StyleFlip.Proofs.MirroredBody

/-!
# Flipped stylesheets are read back

A flipped rule takes the place of the rule, and the text around it is read as before. So reading a
flipped stylesheet from its text only depends on reading each flipped declaration.
-/

namespace StyleFlip

/-! ### Rules -/

namespace Outline

theorem StartsRule.of_kinds {ts ts' : List Token} (h : StartsRule ts)
    (hkinds : ts'.map (·.kind) = ts.map (·.kind)) : StartsRule ts' := by
  obtain ⟨t, more, rfl, hstarts⟩ := h
  obtain ⟨t', more', rfl, hkind, -⟩ := List.map_eq_cons_iff.mp hkinds
  refine ⟨t', more', rfl, ?_⟩
  simpa [startsRule, hkind] using hstarts

section Block

variable {selector body : List Token} {opening closing : Token} {r : Text}
  (h : RuleBlock selector opening body closing)
  (hstand : Stand (selector ++ opening :: (body ++ [closing])) r)

include h hstand

theorem RuleBlock.isSpelled {d : Declaration}
    (hmem : d ∈ (Rule.read selector opening body closing).declarations) : d.IsSpelled := by
  obtain ⟨hbody, hbalanced⟩ := h.stand_segments hstand
  exact Body.isSpelled_of_mem (properSegments_segments body) hbalanced hbody hmem

/-- A flipped rule is read back from new tokens. -/
theorem RuleBlock.exists_flip (options : FlipOptions)
    (hspelled : ∀ d ∈ (Rule.read selector opening body closing).body.unguarded,
      (d.flip options).value.IsSpelled) :
    ∃ selector' body', RuleBlock selector' opening body' closing ∧
      selector'.map (·.kind) = selector.map (·.kind) ∧
      (∀ r', Stand (selector' ++ opening :: (body' ++ [closing])) r') ∧
      (∀ x x', Next (textOf (selector ++ opening :: (body ++ [closing])) ++ x)
        (textOf (selector' ++ opening :: (body' ++ [closing])) ++ x')) ∧
      ((Rule.read selector opening body closing).flip options).unplaced =
        (Rule.read selector' opening body' closing).unplaced := by
  obtain ⟨hselectorSpelled, htail⟩ := spelledAll_append.mp hstand.spelledAll
  have hopen : opening.text = ['{'] :=
    Token.text_eq_of_sign (spelledAll_cons.mp htail).1 (by rw [h.opening]; rfl)
  obtain ⟨hbody, hbalanced⟩ := h.stand_segments hstand
  rw [Body.unguarded_eq] at hspelled
  obtain ⟨selector', hselector, hreadSelector⟩ :=
    Selector.exists_respelledAll options hselectorSpelled
  obtain ⟨ss, hback⟩ :=
    Body.exists_replacedAll options (properSegments_segments body) hbalanced hbody hspelled
  have hkinds := hselector.kinds
  -- The brace keeps the selector apart from the new body.
  have hbefore : ∀ us us' x x', Next (textOf (opening :: us) ++ x) (textOf (opening :: us') ++ x') := by
    intro us us' x x'
    rw [textOf_cons, textOf_cons, hopen]
    exact next_cons_of_isDecisive (by decide) _ _
  have hfront : ∀ us x, Stand selector (textOf (opening :: us) ++ x) :=
    fun us x => (stand_append.mp hstand).1.next (hbefore _ _ _ _)
  have hselectorStand : Stand (selector' ++ opening :: (body ++ [closing])) r :=
    stand_append.mpr ⟨((hfront _ r).respelledAll hselector (.refl _)).1, (stand_append.mp hstand).2⟩
  refine ⟨selector', ss.flatMap Segment.tokens, ⟨?_, ?_, h.opening, brace_depth_flatMap hback.balanced,
    h.closing⟩, hkinds, stand_block hselectorStand h.opening h.closing hback.stand, ?_, ?_⟩
  · exact StartsRule.of_kinds h.starts (by rw [List.map_append, List.map_append, hkinds])
  · rw [preludeDepth_of_kinds hkinds, h.selector]
  · intro x x'
    rw [textOf_append, textOf_append, List.append_assoc, List.append_assoc]
    exact ((hfront _ x).respelledAll hselector (hbefore _ _ _ _)).2
  · rw [Rule.unplaced, Rule.unplaced, Rule.mk.injEq]
    refine ⟨hreadSelector.symm, ?_, rfl, rfl⟩
    show (Body.flip options (Body.read body)).value.map BodyItem.bare = (Body.read _).map BodyItem.bare
    rw [Body.value_flip, Body.read, Body.read, segments_flatMap_tokens ss hback.proper, hback.items]

end Block

/-! ### Stylesheets -/

/-- The same as `ReadBack` for entries that are read item by item, with what the text after them
needs to know about them. -/
structure Mirrored (r : Text) (items : List Item) (es es' : List Outline) : Prop
    extends ReadBack r items es es' where
  next : Next (textOf (tokensAll es) ++ r) (textOf (tokensAll es') ++ r)
  same : Item.unplacedAll items = Item.unplacedAll (Item.ofOutlines es')

namespace Mirrored

variable {r : Text} {items : List Item} {es es' : List Outline}

theorem nil (r : Text) : Mirrored r [] [] [] :=
  ⟨⟨trivial, fun _ => rfl, trivial, ⟨id, id⟩, .nil⟩, .refl r, rfl⟩

/-- An entry that is not flipped stays as it is. -/
theorem keep (h : Mirrored r items es es') {entry : Outline} (hproper : entry.Proper (tokensAll es))
    (hstand : Stand entry.tokens (textOf (tokensAll es) ++ r)) :
    Mirrored r (Item.ofOutline entry :: items) (entry :: es) (entry :: es') := by
  refine ⟨h.toReadBack.keep ?_ (hproper.of_follows h.follows) (fun _ => rfl) rfl
    (hstand.next h.next), ?_, ?_⟩
  · exact Item.Glued.append_left [Item.ofOutline entry]
  · rw [tokensAll, tokensAll, textOf_append, textOf_append, List.append_assoc, List.append_assoc]
    exact h.next.append _
  · rw [Item.ofOutlines, Item.unplacedAll, Item.unplacedAll, h.same]

theorem rule (h : Mirrored r items es es') (options : FlipOptions) {selector body : List Token}
    {opening closing : Token} (hblock : RuleBlock selector opening body closing)
    (hstand : Stand (selector ++ opening :: (body ++ [closing])) (textOf (tokensAll es) ++ r))
    (hspelled : ∀ d ∈ (Rule.read selector opening body closing).body.unguarded,
      (d.flip options).value.IsSpelled) :
    ∃ entry', Mirrored r (.rule ((Rule.read selector opening body closing).flip options) :: items)
      (.rule selector opening body closing :: es) (entry' :: es') := by
  obtain ⟨selector', body', hblock', hkinds, hstand', hnext, hsame⟩ :=
    hblock.exists_flip hstand options hspelled
  refine ⟨.rule selector' opening body' closing, h.toReadBack.rule (Rule.glued_of_unplaced hsame)
    hblock hblock' hkinds (hstand' _), ?_, ?_⟩
  · rw [tokensAll, tokensAll, textOf_append, textOf_append, List.append_assoc, List.append_assoc]
    exact hnext _ _
  · simp only [Item.ofOutlines, Item.ofOutline, Item.unplacedAll, Item.unplaced, h.same, hsame]

theorem group (h : Mirrored r items es es') {keyword opening closing : Token} {params : List Token}
    {inner inner' : List Outline} {innerItems : List Item}
    (hproper : (Outline.group keyword params opening inner closing).Proper (tokensAll es))
    (hstand : Stand (Outline.group keyword params opening inner closing).tokens
      (textOf (tokensAll es) ++ r))
    (hinner : Mirrored ('}' :: (textOf (tokensAll es) ++ r)) innerItems inner inner') :
    Mirrored r
      (.group (AtHead.read keyword params (keyword.span.join closing.span)) innerItems :: items)
      (.group keyword params opening inner closing :: es)
      (.group keyword params opening inner' closing :: es') := by
  have hopen : opening.text = ['{'] := by
    have hspelled := hstand.spelledAll
    simp only [tokens, spelledAll_cons, spelledAll_append] at hspelled
    exact Token.text_eq_of_sign hspelled.2.2.1 (by rw [hproper.2.1.opening]; rfl)
  refine ⟨h.toReadBack.group hproper hstand hinner.toReadBack, ?_, ?_⟩
  · simp only [tokensAll, tokens, textOf_append, textOf_cons, hopen, List.append_assoc]
    refine Next.append (Next.append ?_ _) _
    exact next_cons_of_isDecisive (by decide) _ _
  · simp only [Item.ofOutlines, Item.ofOutline, Item.unplacedAll, Item.unplaced, h.same, hinner.same]

end Mirrored

end Outline

/-- The rules that a flip flips; `guarded` is about the first item. -/
def Item.flippedRules (guarded : Bool) (items : List Item) : List Rule :=
  Item.gatherAll (fun guarded r => if guarded then [] else [r]) guarded items

theorem Item.flippedRules_cons (guarded : Bool) (item : Item) (rest : List Item) :
    flippedRules guarded (item :: rest) =
      gather (fun guarded r => if guarded then [] else [r]) guarded item ++
        flippedRules (item.role.guardNext guarded) rest := rfl

/-- The rules that a flip flips are rules of the stylesheet. -/
theorem Item.mem_rulesAll_of_mem_flippedRules {guarded : Bool} {items : List Item} {r : Rule}
    (h : r ∈ flippedRules guarded items) : r ∈ rulesAll items := by
  induction items using listInduction generalizing guarded with
  | nil => contradiction
  | rule r' rest ih =>
      rw [flippedRules_cons, List.mem_append] at h
      rw [rulesAll, List.mem_append]
      refine h.imp (fun hmem => ?_) ih
      cases guarded with
      | true => contradiction
      | false => exact hmem
  | group head items rest ihitems ihrest =>
      rw [flippedRules_cons, List.mem_append] at h
      rw [rulesAll, List.mem_append]
      refine h.imp (fun hmem => ?_) ihrest
      cases guarded with
      | true => contradiction
      | false => exact ihitems hmem
  | plain item rest hplain ih =>
      rw [flippedRules_cons, gather_of_isPlain hplain] at h
      rw [rulesAll, List.mem_append]
      exact Or.inr (ih h)

theorem Body.mem_declarations_of_mem_unguarded {body : Body} {d : Declaration}
    (h : d ∈ body.unguarded) : d ∈ body.declarations := by
  obtain ⟨⟨item, guarded⟩, hmem, hitem⟩ := List.mem_filterMap.mp h
  have hbody : item ∈ body := by
    rw [← withGuards_map_fst BodyItem.role false body]
    exact List.mem_map_of_mem hmem
  cases guarded with
  | true => contradiction
  | false => exact List.mem_filterMap.mpr ⟨item, hbody, hitem⟩

namespace Outline

/-- Every declaration that was read is spelled. -/
theorem isSpelled_of_mem {es : List Outline} {r : Text} (hproper : ProperAll es)
    (hstand : Stand (tokensAll es) r) {rule : Rule} (hrule : rule ∈ Item.rulesAll (Item.ofOutlines es))
    {d : Declaration} (hmem : d ∈ rule.declarations) : d.IsSpelled := by
  obtain ⟨before, selector, opening, body, closing, after, htokens, hblock, rfl⟩ :=
    hproper.exists_rule hrule
  rw [htokens] at hstand
  exact RuleBlock.isSpelled hblock (stand_append.mp (stand_append.mp hstand).2).1 hmem

/-- A flipped stylesheet is read back from new tokens, if each flipped declaration is. -/
theorem exists_mirrored_of_isSpelled (options : FlipOptions) {es : List Outline} {guarded : Bool}
    {r : Text} (hproper : ProperAll es) (hstand : Stand (tokensAll es) r)
    (hspelled : ∀ rule ∈ Item.flippedRules guarded (Item.ofOutlines es), ∀ d ∈ rule.body.unguarded,
      (d.flip options).value.IsSpelled) :
    ∃ es', Mirrored r (Item.flipAll options guarded (Item.ofOutlines es)) es es' := by
  induction es using Outline.listInduction generalizing guarded r with
  | nil => exact ⟨[], .nil r⟩
  | group keyword params opening inner closing rest ihinner ihrest =>
      obtain ⟨hentry, hproper⟩ := hproper
      rw [tokensAll, stand_append] at hstand
      rw [Item.ofOutlines, Item.flippedRules_cons] at hspelled
      obtain ⟨es', hrest⟩ := ihrest hproper hstand.2
        fun rule hrule => hspelled rule (List.mem_append_right _ hrule)
      rw [Item.ofOutlines, Item.flipAll]
      cases guarded with
      | true => exact ⟨_, hrest.keep hentry hstand.1⟩
      | false =>
          obtain ⟨inner', hinner⟩ := ihinner hentry.2.2 (stand_inner hentry hstand.1)
            fun rule hrule => hspelled rule (List.mem_append_left _ hrule)
          exact ⟨_, hrest.group hentry hstand.1 hinner⟩
  | other entry rest hother ih =>
      obtain ⟨hentry, hproper⟩ := hproper
      rw [tokensAll, stand_append] at hstand
      rw [Item.ofOutlines, Item.flippedRules_cons] at hspelled
      obtain ⟨es', hrest⟩ := ih hproper hstand.2
        fun rule hrule => hspelled rule (List.mem_append_right _ hrule)
      rw [Item.ofOutlines, Item.flipAll]
      cases guarded with
      | true => exact ⟨_, hrest.keep hentry hstand.1⟩
      | false =>
          cases entry with
          | group => exact absurd rfl (hother _ _ _ _ _)
          | rule selector opening body closing =>
              obtain ⟨entry', hflipped⟩ := hrest.rule options hentry hstand.1
                (hspelled _ (by simp [Item.ofOutline, Item.gather]))
              exact ⟨_, hflipped⟩
          | _ => exact ⟨_, hrest.keep hentry hstand.1⟩

end Outline

end StyleFlip
