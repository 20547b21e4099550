import StyleFlip.Proofs.FlipSpans
import StyleFlip.Proofs.Standing

/-!
# Texts that start in the middle of another

Places are counted from the start of a text. When the text stands in the middle of another one, what
is on its first line moves along the line, and what is on a later line only moves down. Tokens that
do not look past the end of their text are then followed by the tokens of the text after it, moved
to where that text starts (`tokenize_append`).
-/

namespace StyleFlip

namespace Position

/-- Where a position of a text lies when the text starts at `start` and not at the origin. -/
def rebase (start p : Position) : Position where
  offset := start.offset + p.offset
  line := start.line + p.line - 1
  column := if p.line = 1 then start.column + p.column - 1 else p.column

/-- Lines and columns are counted from one. -/
structure Counted (p : Position) : Prop where
  line : 1 ≤ p.line
  column : 1 ≤ p.column

theorem counted_origin : origin.Counted := ⟨Nat.le_refl 1, Nat.le_refl 1⟩

theorem Counted.advance {p : Position} (h : p.Counted) (c : Char) : (p.advance c).Counted := by
  have hline := h.line
  have hcolumn := h.column
  unfold Position.advance
  split
  · constructor <;> dsimp only <;> omega
  · constructor <;> dsimp only <;> omega

theorem Counted.after {p : Position} (h : p.Counted) (text : Text) : (p.after text).Counted := by
  induction text generalizing p with
  | nil => exact h
  | cons c text ih => exact ih (h.advance c)

theorem rebase_origin (start : Position) : rebase start origin = start := by
  simp [rebase, origin]

theorem rebase_advance (start : Position) {p : Position} (h : p.Counted) (c : Char) :
    rebase start (p.advance c) = (rebase start p).advance c := by
  have hline := h.line
  have hcolumn := h.column
  by_cases hbreak : c = '\n'
  · have hdown : p.line + 1 ≠ 1 := by omega
    simp only [rebase, advance, hbreak, if_true, hdown, if_false, mk.injEq, and_true]
    omega
  · simp only [rebase, advance, hbreak, if_false, mk.injEq, true_and]
    constructor
    · omega
    · split <;> omega

theorem rebase_after (start : Position) {p : Position} (h : p.Counted) (text : Text) :
    rebase start (p.after text) = (rebase start p).after text := by
  induction text generalizing p with
  | nil => rfl
  | cons c text ih =>
      calc rebase start (p.after (c :: text))
          = (rebase start (p.advance c)).after text := ih (h.advance c)
        _ = (rebase start p).after (c :: text) := by rw [rebase_advance start h]; rfl

end Position

namespace Span

/-- Where a span of a text lies when the text starts at `start` and not at the origin. -/
def rebase (start : Position) (s : Span) : Span :=
  if s.isUnknown then s
  else
    let first := start.rebase ⟨s.start, s.line, s.column⟩
    ⟨first.offset, start.offset + s.stop, first.line, first.column⟩

theorem rebase_of_isUnknown (start : Position) {s : Span} (h : s.isUnknown = true) :
    rebase start s = s := if_pos h

theorem isUnknown_rebase {start : Position} (h : 1 ≤ start.line) (s : Span) :
    (rebase start s).isUnknown = s.isUnknown := by
  by_cases hs : s.isUnknown = true
  · rw [rebase_of_isUnknown start hs]
  · rw [rebase, if_neg hs, Bool.eq_false_iff.mpr hs]
    simp only [isUnknown, Bool.and_eq_true, beq_iff_eq] at hs
    simp only [isUnknown, Position.rebase, Bool.and_eq_false_iff, beq_eq_false_iff_ne]
    split <;> omega

theorem keepsJoin_rebase {start : Position} (h : 1 ≤ start.line) : KeepsJoin (rebase start) where
  unknown := rfl
  join := by
    intro a b
    by_cases ha : a.isUnknown = true
    · rw [join, if_pos ha, join, isUnknown_rebase h, if_pos ha]
    by_cases hb : b.isUnknown = true
    · rw [join, if_neg ha, if_pos hb, join, isUnknown_rebase h, isUnknown_rebase h, if_neg ha,
        if_pos hb]
    rw [join, join, isUnknown_rebase h, isUnknown_rebase h, if_neg ha, if_neg ha, if_neg hb,
      if_neg hb, rebase, rebase, rebase, if_neg ha, if_neg hb]
    -- Both spans move by the same offset, so the one that comes first is still first.
    by_cases hfirst : a.start ≤ b.start
    · have hmoved : start.offset + a.start ≤ start.offset + b.start := by omega
      simp only [hfirst, if_true, Position.rebase, hmoved]
      refine (if_neg ha).trans ?_
      simp only [mk.injEq, and_self, and_true]
      omega
    · have hmoved : ¬ start.offset + a.start ≤ start.offset + b.start := by omega
      simp only [hfirst, if_false, Position.rebase, hmoved]
      refine (if_neg hb).trans ?_
      simp only [mk.injEq, and_self, and_true]
      omega

/-- Where a span of a text lies when the text comes after `front`. -/
def after (front : Text) (s : Span) : Span := rebase (Position.origin.after front) s

theorem keepsJoin_after (front : Text) : KeepsJoin (after front) :=
  keepsJoin_rebase (Position.counted_origin.after front).line

theorem isUnknown_after (front : Text) (s : Span) : (after front s).isUnknown = s.isUnknown :=
  isUnknown_rebase (Position.counted_origin.after front).line s

theorem isUnknown_ofText {p : Position} (h : p.Counted) (text : Text) :
    (ofText p text).isUnknown = false := by
  have hline := h.line
  simp only [ofText, isUnknown, Bool.and_eq_false_iff, beq_eq_false_iff_ne]
  omega

theorem ofText_rebase (start : Position) {p : Position} (h : p.Counted) (text : Text) :
    ofText (start.rebase p) text = rebase start (ofText p text) := by
  rw [rebase, isUnknown_ofText h, ofText, ← Position.rebase_after start h]
  rfl

end Span

theorem place_rebase (start : Position) {p : Position} (h : p.Counted) (ls : List Lexeme) :
    place (start.rebase p) ls = mapSpans (Span.rebase start) (place p ls) := by
  induction ls generalizing p with
  | nil => rfl
  | cons l ls ih =>
      rw [place, place, mapSpans_cons, ← Position.rebase_after start h, ih (h.after l.text),
        Span.ofText_rebase start h]
      rfl

theorem place_append (start : Position) (a b : List Lexeme) :
    place start (a ++ b) = place start a ++ place (start.after (a.flatMap (·.text))) b := by
  induction a generalizing start with
  | nil => rfl
  | cons l a ih => rw [List.cons_append, place, place, ih, List.flatMap_cons, Position.after_append,
      List.cons_append]

/-- Tokens that stand before the next text are followed by its tokens. -/
theorem tokenize_append {a b : Text} (h : Stand (tokenize a) b) :
    tokenize (a ++ b) = tokenize a ++ mapSpans (Span.after a) (tokenize b) := by
  have hlexemes : lexemes (a ++ b) = lexemes a ++ lexemes b := by
    have hcut := lexemes_of_stand h
    rwa [textOf_tokenize, tokenize, map_toLexeme_place] at hcut
  calc tokenize (a ++ b)
      = place .origin (lexemes a ++ lexemes b) := by rw [tokenize, hlexemes]
    _ = tokenize a ++ place (Position.origin.after a) (lexemes b) := by
        rw [place_append, flatMap_text_lexemes, tokenize]
    _ = tokenize a ++ mapSpans (Span.after a) (tokenize b) := by
        have hmoved := place_rebase (Position.origin.after a) Position.counted_origin (lexemes b)
        rw [Position.rebase_origin] at hmoved
        rw [hmoved]
        rfl

end StyleFlip
