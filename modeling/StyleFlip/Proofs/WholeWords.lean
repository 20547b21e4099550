import Mathlib.Data.List.Chain
import StyleFlip.Proofs.MirroredWords

/-!
# Whole words are flipped and nothing else

A text has one decomposition into longest runs of letters and digits and single other characters
(`pieces_eq_iff`). Flipping works on this decomposition piece by piece: a run that is `left` or
`right` in some letter case becomes the other word, and every other piece stays. So a flipped text
is cut at the same places as the text it came from.
-/

namespace StyleFlip

namespace Text

def Piece.isWord : Piece → Bool
  | .word _ => true
  | .other _ => false

/-- Words hold letters and digits, at least one; a character that stands alone is neither. -/
def Piece.IsProper : Piece → Prop
  | .word letters => letters ≠ [] ∧ ∀ c ∈ letters, c.isAlphanum = true
  | .other c => c.isAlphanum = false

/-- The text is cut into its words and the characters between them. No two words stand side by side,
so every word is as long as it can be. -/
structure Cut (text : Text) (ps : List Piece) : Prop where
  whole : ps.flatMap Piece.text = text
  proper : ∀ p ∈ ps, p.IsProper
  apart : ps.IsChain fun p q => p.isWord = false ∨ q.isWord = false

theorem cut_pieces (text : Text) : Cut text (pieces text) := by
  induction text using wordInduction with
  | nil => exact ⟨rfl, by simp [pieces], .nil⟩
  | other c rest hc ih =>
      have hpieces : pieces (c :: rest) = .other c :: pieces rest := by simp [pieces, hc]
      refine ⟨flatMap_text_pieces _, ?_, ?_⟩
      · rw [hpieces, List.forall_mem_cons]
        exact ⟨hc, ih.proper⟩
      · rw [hpieces, List.isChain_cons]
        exact ⟨fun _ _ => Or.inl rfl, ih.apart⟩
  | word w rest hne hw hrest ih =>
      have hpieces := pieces_word hne hw hrest
      refine ⟨flatMap_text_pieces _, ?_, ?_⟩
      · rw [hpieces, List.forall_mem_cons]
        exact ⟨⟨hne, hw⟩, ih.proper⟩
      · rw [hpieces, List.isChain_cons]
        refine ⟨fun next hnext => Or.inr ?_, ih.apart⟩
        -- The word ends where `rest` starts, and `rest` does not start with a letter or digit.
        cases rest with
        | nil => simp [pieces] at hnext
        | cons c rest =>
            have hc : c.isAlphanum = false := hrest
            obtain rfl : Piece.other c = next := by simpa [pieces, hc] using hnext
            rfl

theorem Cut.not_startsWith {text : Text} {ps : List Piece} (h : Cut text ps)
    (hfirst : ∀ p ∈ ps.head?, p.isWord = false) :
    Lexer.startsWith Char.isAlphanum text = false := by
  rw [← h.whole]
  cases ps with
  | nil => rfl
  | cons p ps =>
      cases p with
      | word w => exact absurd (hfirst (.word w) rfl) (by simp [Piece.isWord])
      | other c => exact h.proper (.other c) (by simp)

/-- A text is cut in one way only. -/
theorem pieces_eq_iff {text : Text} {ps : List Piece} : pieces text = ps ↔ Cut text ps := by
  refine ⟨fun h => h ▸ cut_pieces text, fun h => ?_⟩
  induction ps generalizing text with
  | nil =>
      obtain rfl : [] = text := h.whole
      rfl
  | cons p ps ih =>
      obtain ⟨rfl, hproper, hapart⟩ := h
      rw [List.forall_mem_cons] at hproper
      rw [List.isChain_cons] at hapart
      have hrest : Cut (ps.flatMap Piece.text) ps := ⟨rfl, hproper.2, hapart.2⟩
      rw [List.flatMap_cons]
      cases p with
      | word w =>
          have hstop : Lexer.startsWith Char.isAlphanum (ps.flatMap Piece.text) = false := by
            apply hrest.not_startsWith
            intro q hq
            exact (hapart.1 q hq).resolve_left (by simp [Piece.isWord])
          rw [Piece.text, pieces_word hproper.1.1 hproper.1.2 hstop, ih hrest]
      | other c =>
          have hc : c.isAlphanum = false := hproper.1
          rw [Piece.text, List.singleton_append, pieces, if_neg (by simp [hc]), ih hrest]

/-- The word for the other side, if the word says a side. -/
def otherSide? (word : Text) : Option Text :=
  if lower word = "left".toList then some "right".toList
  else if lower word = "right".toList then some "left".toList
  else none

/-- The word in upper case if the model has no lower-case letter, capitalized if the model has some
and starts with an upper-case letter, and as it is otherwise. -/
def caseLike (model word : Text) : Text :=
  if model.any Char.isLower = false then upper word
  else if model.head?.any Char.isUpper then capitalize word
  else word

def Piece.saysSide : Piece → Bool
  | .word letters => (otherSide? letters).isSome
  | .other _ => false

/-- The piece with a side exchanged for the other one. -/
def Piece.mirror : Piece → Piece
  | .word letters => .word ((otherSide? letters).elim letters (caseLike letters))
  | .other c => .other c

end Text

open Text

/-! ### One word -/

theorem counterpart?_sideWords (w : Text) : sideWords.counterpart? w = otherSide? w :=
  Pairs.counterpart?_cons (by decide) (by decide) w

theorem otherSide?_cases {w other : Text} (h : otherSide? w = some other) :
    lower w = "left".toList ∧ other = "right".toList ∨
      lower w = "right".toList ∧ other = "left".toList := by
  unfold otherSide? at h
  split at h
  · exact Or.inl ⟨‹_›, (Option.some.inj h).symm⟩
  split at h
  · exact Or.inr ⟨‹_›, (Option.some.inj h).symm⟩
  · contradiction

theorem inCaseOf_eq_caseLike {w other : Text} (h : otherSide? w = some other) :
    inCaseOf w other = caseLike w other := by
  have hcases := otherSide?_cases h
  by_cases hupper : w.any Char.isUpper = false
  · -- Without an upper-case letter the word is the table's own spelling of it.
    rw [lower_of_not_isUpper hupper] at hcases
    rcases hcases with ⟨rfl, rfl⟩ | ⟨rfl, rfl⟩ <;> decide
  have hsome : w.any Char.isUpper = true := by simpa using hupper
  by_cases hlower : w.any Char.isLower = false
  · rw [inCaseOf_of_upper hsome hlower, caseLike, if_pos hlower]
  have hboth : w.any Char.isLower = true := by simpa using hlower
  rw [caseLike, if_neg hlower]
  cases w with
  | nil => simp at hsome
  | cons c rest =>
      by_cases hc : c.isUpper = true
      · have hrest : rest.any Char.isLower = true := by
          simpa [not_isLower_of_isUpper hc] using hboth
        rw [if_pos (by simpa using hc)]
        rcases hcases with ⟨-, rfl⟩ | ⟨-, rfl⟩
        · exact inCaseOf_of_capital hc hrest 'r' "ight".toList
        · exact inCaseOf_of_capital hc hrest 'l' "eft".toList
      · rw [if_neg (by simpa using hc)]
        simp only [inCaseOf, hsome, hboth, Bool.not_true, Bool.false_eq_true, if_false]
        rcases hcases with ⟨-, rfl⟩ | ⟨-, rfl⟩ <;> exact if_neg hc

theorem flip_sideWords (w : Text) : sideWords.flip w = (otherSide? w).elim w (caseLike w) := by
  rw [Pairs.flip, counterpart?_sideWords]
  cases hother : otherSide? w with
  | none => rfl
  | some other => exact inCaseOf_eq_caseLike hother

/-! ### All words of a text -/

theorem flipWords_eq_flatMap_mirror (text : Text) :
    flipWords text = ((pieces text).map Piece.mirror).flatMap Piece.text := by
  rw [flipWords_eq_mapWords, mapWords, List.flatMap_map]
  congr 1
  funext p
  cases p with
  | word w => exact flip_sideWords w
  | other c => rfl

theorem pieces_flipWords (text : Text) :
    pieces (flipWords text) = (pieces text).map Piece.mirror := by
  have hcut := cut_pieces text
  apply pieces_eq_iff.mpr
  refine ⟨(flipWords_eq_flatMap_mirror text).symm, ?_, ?_⟩
  · intro q hq
    obtain ⟨p, hp, rfl⟩ := List.mem_map.mp hq
    cases p with
    | word w =>
        obtain ⟨hne, hw⟩ := hcut.proper _ hp
        rw [Piece.mirror, ← flip_sideWords]
        exact ⟨flip_ne_nil hne, isAlphanum_of_mem_flip hw⟩
    | other c => exact hcut.proper _ hp
  · have hkept : ∀ p : Piece, p.mirror.isWord = p.isWord := by
      intro p
      cases p <;> rfl
    rw [List.isChain_map]
    simpa only [hkept] using hcut.apart

theorem Piece.covers_eq_saysSide (w : Text) : sideWords.covers w = (Piece.word w).saysSide := by
  rw [Pairs.covers, counterpart?_sideWords, Piece.saysSide]

theorem saysSide_eq_any (text : Text) : saysSide text = (pieces text).any Piece.saysSide := by
  unfold saysSide anyWord
  congr 1
  funext p
  cases p with
  | word w => exact Piece.covers_eq_saysSide w
  | other c => rfl

theorem mirror_eq_self_iff {p : Piece} : p.saysSide = false ↔ p.mirror = p := by
  cases p with
  | other c => simp [Piece.mirror, Piece.saysSide]
  | word w =>
      rw [← Piece.covers_eq_saysSide, Pairs.tells_covers Pairs.isSound_sideWords, Piece.mirror,
        ← flip_sideWords, Piece.word.injEq]

theorem flipWords?_eq_some_iff {text flipped : Text} :
    flipWords? text = some flipped ↔ saysSide text = true ∧ flipWords text = flipped := by
  rw [flipWords?_eq]
  split <;> simp_all

/-- Flipping the words changes just the texts that have a word for a side. -/
theorem tells_flipWords : Edit.Tells (fun text => (flipWords? text).isSome) flipWords := by
  intro text
  calc (flipWords? text).isSome = false
      ↔ saysSide text = false := by
        rw [flipWords?_eq]
        cases saysSide text <;> simp
    _ ↔ ∀ p ∈ pieces text, p.mirror = p := by
        simp [saysSide_eq_any, mirror_eq_self_iff]
    _ ↔ (pieces text).map Piece.mirror = (pieces text).map id := List.map_inj_left.symm
    _ ↔ pieces (flipWords text) = pieces text := by
        rw [pieces_flipWords, List.map_id]
    _ ↔ flipWords text = text := by
        refine ⟨fun h => ?_, fun h => by rw [h]⟩
        rw [← flatMap_text_pieces (flipWords text), h, flatMap_text_pieces]

/-- A flipped word still says a side, the other one. -/
theorem Piece.saysSide_mirror (p : Piece) : p.mirror.saysSide = p.saysSide := by
  cases p with
  | other c => rfl
  | word w =>
      rw [Piece.mirror, ← flip_sideWords, ← Piece.covers_eq_saysSide, ← Piece.covers_eq_saysSide,
        Pairs.covers, Pairs.covers]
      cases hother : sideWords.counterpart? w with
      | none => rw [Pairs.flip, hother, hother]
      | some other => rw [Pairs.counterpart?_flip Pairs.isSound_sideWords hother]; rfl

theorem saysSide_flipWords (text : Text) : saysSide (flipWords text) = saysSide text := by
  rw [saysSide_eq_any, saysSide_eq_any, pieces_flipWords, List.any_map]
  congr 1
  funext p
  exact Piece.saysSide_mirror p

theorem flipWords_flipWords_of_isRegular {text : Text}
    (h : ∀ w, .word w ∈ pieces text → (otherSide? w).isSome = true → isRegular w = true) :
    flipWords (flipWords text) = text := by
  rw [flipWords_flipWords]
  apply settleWords_of_admits
  rw [admitsWords, List.all_eq_true]
  intro p hp
  cases p with
  | other c => rfl
  | word w =>
      simp only [Pairs.admits, counterpart?_sideWords]
      cases hother : otherSide? w with
      | none => rfl
      | some other => simpa using h w hp (by simp [hother])

/-- Flipping the words of a text mirrors the pieces that say a side. If there is none, nothing is
changed; otherwise the pieces of the result are the mirrored pieces, and a second flip gives the
text back if every mirrored word was in lower case, in upper case or capitalized. -/
theorem flipWords_mirrors_runs (text : Text) :
    (∀ ps, Cut text ps ↔ ps = pieces text) ∧
      flipWords? text =
        (if (pieces text).any Piece.saysSide then
          some (((pieces text).map Piece.mirror).flatMap Piece.text)
        else none) ∧
      Cut (flipWords text) ((pieces text).map Piece.mirror) ∧
      ∀ flipped, flipWords? text = some flipped →
        (∀ w, .word w ∈ pieces text → (otherSide? w).isSome = true → isRegular w = true) →
        flipWords? flipped = some text := by
  refine ⟨fun ps => ?_, ?_, pieces_eq_iff.mp (pieces_flipWords text), fun flipped hflipped h => ?_⟩
  · rw [← pieces_eq_iff, eq_comm]
  · rw [flipWords?_eq, saysSide_eq_any, flipWords_eq_flatMap_mirror]
  · obtain ⟨hside, rfl⟩ := flipWords?_eq_some_iff.mp hflipped
    apply flipWords?_eq_some_iff.mpr
    exact ⟨(saysSide_flipWords text).trans hside, flipWords_flipWords_of_isRegular h⟩

example : flipWords "leftmost LEFT_rIght é\\Right.copyright2left".toList =
    "leftmost RIGHT_left é\\Left.copyright2left".toList := by decide +kernel

end StyleFlip
