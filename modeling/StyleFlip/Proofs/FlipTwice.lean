import StyleFlip.Proofs.MirroredSheet

/-!
# Flipping twice

The flipped stylesheet is read back from its text, so a second flip meets the flipped rules and turns
each of them back. This needs names in a letter case that their counterparts can take over, and
shorthands whose components can change places.
-/

namespace StyleFlip

/-- A flipped stylesheet is read back from new tokens. -/
theorem Outline.exists_mirrored (options : FlipOptions) {es : List Outline} {guarded : Bool}
    {r : Text} (hproper : Outline.ProperAll es) (hstand : Stand (Outline.tokensAll es) r)
    (hadmits : (Item.flippedRules guarded (Item.ofOutlines es)).all (Rule.admits options) = true) :
    ∃ es', Outline.Mirrored r (Item.flipAll options guarded (Item.ofOutlines es)) es es' := by
  refine Outline.exists_mirrored_of_isSpelled options hproper hstand fun rule hrule d hd => ?_
  have hadmits := List.all_eq_true.mp hadmits rule hrule
  rw [Rule.admits, Bool.and_eq_true] at hadmits
  have hmove := Declaration.canMove_of_admits (List.all_eq_true.mp hadmits.2 d hd)
  obtain ⟨ts, hts⟩ := Outline.isSpelled_of_mem hproper hstand
    (Item.mem_rulesAll_of_mem_flippedRules hrule) (Body.mem_declarations_of_mem_unguarded hd)
  exact hts.flip hmove options

/-- A second flip of a stylesheet restores its text. -/
theorem Item.renderAll_flipAll_flipAll (options : FlipOptions) {guarded : Bool} {items : List Item}
    (hfresh : Stylesheet.Fresh items)
    (hadmits : (flippedRules guarded items).all (Rule.admits options) = true) :
    renderAll (flipAll options guarded (flipAll options guarded items)) = renderAll items := by
  induction items using Item.listInduction generalizing guarded with
  | nil => rfl
  | rule r rest ih =>
      obtain ⟨hr, hrest⟩ := Stylesheet.fresh_cons.mp hfresh
      rw [flippedRules_cons, List.all_append, Bool.and_eq_true] at hadmits
      have htail := ih hrest hadmits.2
      have hr := hr r (by simp [rules])
      cases guarded with
      | true => exact congrArg (r.render ++ ·) htail
      | false =>
          have hrule : ((r.flip options).flip options).render = r.render := by
            have hadmitsRule : r.admits options = true := by simpa [gather] using hadmits.1
            rw [Rule.render_of_fresh (Rule.fresh_flip (Rule.fresh_flip hr options) options),
              Rule.render_of_fresh hr, Rule.partsText_flip_flip hadmitsRule]
          show ((r.flip options).flip options).render ++ _ = r.render ++ _
          rw [hrule]
          exact congrArg (r.render ++ ·) htail
  | group head items rest ihitems ihrest =>
      obtain ⟨hitems, hrest⟩ := Stylesheet.fresh_cons.mp hfresh
      rw [flippedRules_cons, List.all_append, Bool.and_eq_true] at hadmits
      have htail := ihrest hrest hadmits.2
      cases guarded with
      | true => exact congrArg ((Item.group head items).render ++ ·) htail
      | false =>
          have hinner := @ihitems false hitems hadmits.1
          show head.render ++ '{' :: (renderAll (flipAll options false (flipAll options false items)) ++
            ['}']) ++ _ = head.render ++ '{' :: (renderAll items ++ ['}']) ++ _
          rw [hinner]
          exact congrArg (head.render ++ '{' :: (renderAll items ++ ['}']) ++ ·) htail
  | plain item rest hplain ih =>
      rw [flippedRules_cons, List.all_append, Bool.and_eq_true] at hadmits
      have htail := ih (Stylesheet.fresh_cons.mp hfresh).2 hadmits.2
      simp only [flipAll, flip_of_isPlain hplain, ite_self, renderAll, htail]

/-- Whether a second flip of a stylesheet restores it: every name that is flipped has a regular letter
case, and every shorthand whose components are moved has components that can be moved. -/
def Stylesheet.admits (options : FlipOptions) (sheet : Stylesheet) : Bool :=
  (Item.flippedRules false sheet).all (Rule.admits options)

/-- Flipping twice restores the text. -/
theorem css_flip_flip (css : Text) (options : FlipOptions)
    (hadmits : Stylesheet.admits options (Stylesheet.parse css) = true) :
    (flip (flip css options).css options).css = css := by
  have hfresh := Stylesheet.fresh_parse css
  have hflipped := Item.fresh_flipAll options false _ hfresh
  have hstand := stand_tokenize css
  rw [← tokensAll_outline (tokenize css)] at hstand
  obtain ⟨es, hback⟩ := Outline.exists_mirrored options (properAll_outline (tokenize css)) hstand hadmits
  have hsecond := (Stylesheet.flip_render_of_readBack (.refl _) hflipped hflipped hback.toReadBack
    options).1
  calc (flip (flip css options).css options).css
      = Stylesheet.render (Stylesheet.flip options (Stylesheet.flip options (Stylesheet.parse css))) :=
        hsecond
    _ = Stylesheet.render (Stylesheet.parse css) :=
        Item.renderAll_flipAll_flipAll options hfresh hadmits
    _ = css := Stylesheet.render_parse css

theorem css_flip_flip_margin :
    (flip (flip ".left\x7bmargin:1px 2px/**/3px 4px\x7d".toList {}).css {}).css =
      ".left\x7bmargin:1px 2px/**/3px 4px\x7d".toList :=
  css_flip_flip _ {} (by decide +kernel)

end StyleFlip
