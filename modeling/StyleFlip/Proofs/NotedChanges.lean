import StyleFlip.Flip.Rule
import StyleFlip.Proofs.MirroredSelector
import StyleFlip.Proofs.MirroredShorthand
import StyleFlip.Proofs.WholeWords

/-!
# Which values a flip changes

A flip looks up a name, a word or a slot before it replaces it, and notes a change if it finds one.
It does not compare what it had with what it got. All the same the account of each step is exact: the
step changes just the values that it notes. For this no name may be its own counterpart, and the
parts that are not looked at have to come out as they went in.
-/

namespace StyleFlip

open Text

/-! ### Urls, keywords and slots -/

theorem tells_flipUrl : Edit.Tells (fun url => (flipUrl? url).isSome) flipUrl := by
  intro url
  cases hflipped : flipUrl? url with
  | none => simp [flipUrl, hflipped]
  | some flipped =>
      have hne : flipped ≠ url := by
        unfold flipUrl? at hflipped
        split at hflipped
        · contradiction
        rename_i opening rest hopening
        dsimp only at hflipped
        split at hflipped
        · contradiction
        obtain ⟨inner', hinner, rfl⟩ := Option.map_eq_some_iff.mp hflipped
        obtain ⟨-, rfl⟩ := flipWords?_eq_some_iff.mp hinner
        intro hsame
        -- The parts around the inner text are the same on both sides.
        conv at hsame => rhs; rw [← append_of_breakAfterFirst? hopening, ← breakLast_append ')' rest]
        rw [List.append_assoc, List.append_right_inj, List.append_left_inj] at hsame
        have hnone := (tells_flipWords _).mpr hsame
        simp [hinner] at hnone
      simp [flipUrl, hflipped, hne]

theorem Component.anyLeafAll_eq_false_iff {enter : Text → Bool} {p : LeafKind → Text → Bool}
    {f : LeafKind → Text → Text} (hp : ∀ kind, Edit.Tells (p kind) (f kind))
    (components : List Component) :
    anyLeafAll enter p components = false ↔ mapLeavesAll enter f components = components := by
  induction components using listInduction with
  | nil => simp [anyLeafAll, mapLeavesAll]
  | leaf kind text rest ih =>
      rw [anyLeafAll, anyLeaf, Bool.or_eq_false_iff, ih, hp kind text, mapLeavesAll, mapLeaves]
      simp
  | function name args closed rest ihargs ihrest =>
      rw [anyLeafAll, anyLeaf, Bool.or_eq_false_iff, ihrest, mapLeavesAll, mapLeaves]
      cases enter name with
      | false => simp
      | true => simp [ihargs]

/-- Texts of one kind of leaf are replaced, and the others stay. -/
theorem tells_kind {notes : Text → Bool} {f : Text → Text} (htells : Edit.Tells notes f)
    (wanted kind : LeafKind) :
    Edit.Tells (fun text => kind = wanted && notes text)
      (fun text => if kind = wanted then f text else text) := by
  intro text
  by_cases hkind : kind = wanted
  · simpa [hkind] using htells text
  · simp [hkind]

namespace Value

theorem tells_saysSide : Edit.Tells saysSide flipKeywords :=
  Component.anyLeafAll_eq_false_iff
    (tells_kind (Pairs.tells_covers Pairs.isSound_sideKeywords) .ident)

theorem tells_hasSideUrl : Edit.Tells hasSideUrl flipUrls :=
  Component.anyLeafAll_eq_false_iff (tells_kind tells_flipUrl .url)

end Value

namespace Shorthand

theorem flip_box_eq_self_iff (value : Value) :
    flip .box value = value ↔ boxOrder (Value.slots value) = Value.slots value := by
  have hslots : Value.slots (flip .box value) = boxOrder (Value.slots value) := by
    rw [flip_eq_rearrange, runs, Value.slots_rearrange (slotwise_flipBox _)]
    exact (fillRuns_of_involutive boxOrder_boxOrder boxOrder_perm
      Value.not_isTrivia_of_mem_slots).1
  constructor
  · intro hsame
    rw [← hslots, hsame]
  · intro horder
    rw [flip_eq_rearrange]
    exact Value.rearrange_flipBox_of_eq horder

/-- A box stays as it is if the two sides that change places are the same. -/
theorem tells_moves (shorthand : Shorthand) : Edit.Tells shorthand.moves shorthand.flip := by
  intro value
  cases shorthand with
  | box =>
      rw [flip_box_eq_self_iff, moves, edit, Value.permuteBox_eq]
      simp
  | corners =>
      rw [moves, flip, edit, Value.permuteCorners_eq]
      simp

end Shorthand

/-! ### Selectors -/

theorem Edit.tells_map {α : Type} {notes : α → Bool} {f : α → α} (htells : Tells notes f) :
    Tells (fun items => items.any notes) (List.map f) := by
  intro items
  rw [List.any_eq_false]
  conv => rhs; rhs; rw [← List.map_id items]
  rw [List.map_inj_left]
  apply forall₂_congr
  intro item _
  rw [Bool.not_eq_true, htells item, id]

namespace SelectorPart

theorem tells_isSidePseudo : Edit.Tells isSidePseudo swapPseudo := by
  intro part
  cases part with
  | pseudo text =>
      have hwhole : (splitPseudo text).1 ++ (splitPseudo text).2 = text := append_splitPseudo text
      rw [isSidePseudo, Pairs.tells_covers Pairs.isSound_sidePseudos, swapPseudo]
      conv => rhs; rw [pseudo.injEq]; rhs; rw [← hwhole]
      rw [List.append_right_inj]
  | _ => simp [isSidePseudo, swapPseudo]

theorem tells_saysSide : Edit.Tells saysSide flipWords := by
  intro part
  cases part with
  | className name => rw [saysSide, tells_flipWords, flipWords, className.injEq]
  | idName name => rw [saysSide, tells_flipWords, flipWords, idName.injEq]
  | attr a =>
      rw [saysSide, tells_flipWords, flipWords, attr.injEq, Attribute.mk.injEq]
      simp
  | _ => simp [saysSide, flipWords]

end SelectorPart

namespace Selector

theorem tells_hasSidePseudo : Edit.Tells hasSidePseudo swapPseudos :=
  Edit.tells_map SelectorPart.tells_isSidePseudo

theorem tells_saysSide : Edit.Tells saysSide flipWords :=
  Edit.tells_map SelectorPart.tells_saysSide

end Selector

/-! ### Declarations -/

namespace Declaration

theorem tells_flipsProperty : Edit.Tells flipsProperty flipProperty := by
  intro d
  rw [flipsProperty, Pairs.tells_covers Pairs.isSound_sideProperties, flipProperty]
  exact ⟨fun h => by rw [h], congrArg property⟩

theorem tells_flipsShorthand (property : Text) :
    Edit.Tells (flipsShorthand property) (flipShorthand property) := by
  intro d
  unfold flipsShorthand flipShorthand
  cases Shorthand.ofProperty? property with
  | none => simp
  | some shorthand =>
      dsimp only
      rw [shorthand.tells_moves]
      exact ⟨fun h => by rw [h], congrArg value⟩

theorem tells_flipsKeywords (property : Text) :
    Edit.Tells (flipsKeywords property) (flipKeywords property) := by
  intro d
  unfold flipsKeywords flipKeywords
  cases hasSideKeywords property with
  | false => simp
  | true =>
      rw [Bool.true_and, Value.tells_saysSide, if_pos rfl]
      exact ⟨fun h => by rw [h], congrArg value⟩

theorem tells_flipsUrls : Edit.Tells flipsUrls flipUrls := by
  intro d
  rw [flipsUrls, Value.tells_hasSideUrl, flipUrls]
  exact ⟨fun h => by rw [h], congrArg value⟩

end Declaration

end StyleFlip
