import Mathlib.Data.List.Induction
import StyleFlip.Token.Lexer

/-!
# Tokens tell where they stand

A position is advanced character by character while the text is cut, so its offset, line and column
are three counters that nothing compares with the text. They agree with it all the same: the offset
is the number of bytes read, the line counts the line feeds among them, and the column counts the
characters since the last one (`Position.after_origin`). Each token therefore tells exactly which
bytes of the text it is made of, and the tokens lie side by side from the first byte to the last.
-/

namespace StyleFlip

namespace Text

/-- The UTF-8 encoding. -/
def bytes (text : Text) : ByteArray := (String.ofList text).toUTF8

theorem bytes_append (a b : Text) : bytes (a ++ b) = bytes a ++ bytes b := by
  simp [bytes, String.toUTF8_eq_toByteArray]

theorem size_bytes (text : Text) : (bytes text).size = byteSize text := by
  induction text with
  | nil => rfl
  | cons c text ih =>
      have hchar : (bytes [c]).size = c.utf8Size := by
        simp [bytes, String.toUTF8_eq_toByteArray, List.utf8Encode_singleton]
      rw [← List.singleton_append, bytes_append, ByteArray.size_append, hchar, ih,
        List.singleton_append, byteSize]

/-- What comes after the last line feed. -/
def lastLine (text : Text) : Text := (text.reverse.takeWhile (· ≠ '\n')).reverse

theorem lastLine_append_singleton (text : Text) (c : Char) :
    lastLine (text ++ [c]) = if c = '\n' then [] else lastLine text ++ [c] := by
  by_cases hc : c = '\n' <;> simp [lastLine, hc]

end Text

namespace Position

/-- What the three counters stand for. -/
theorem after_origin (text : Text) :
    origin.after text =
      ⟨(Text.bytes text).size, 1 + text.count '\n', 1 + (Text.lastLine text).length⟩ := by
  induction text using List.reverseRecOn with
  | nil => rfl
  | append_singleton text c ih =>
      have hone : (origin.after text).after [c] = (origin.after text).advance c := rfl
      rw [after_append, hone, ih, Text.size_bytes, Text.size_bytes, Text.byteSize_append,
        Text.lastLine_append_singleton]
      by_cases hc : c = '\n'
      · simp [advance, hc, Text.byteSize, Nat.add_assoc]
      · simp [advance, hc, Text.byteSize, Nat.add_assoc]

end Position

namespace Span

/-- The span tells where the text stands in `css`. -/
def Places (css : Text) (s : Span) (text : Text) : Prop :=
  ∃ before after, before ++ text ++ after = css ∧ s = .ofText (Position.origin.after before) text

variable {css text : Text} {s : Span}

theorem Places.extract_bytes (h : s.Places css text) :
    (Text.bytes css).extract s.start s.stop = Text.bytes text := by
  obtain ⟨before, after, rfl, rfl⟩ := h
  have hstart : (Position.origin.after before).offset = (Text.bytes before).size := by
    rw [Position.after_origin]
  have hstop : ((Position.origin.after before).after text).offset =
      (Text.bytes before).size + (Text.bytes text).size := by
    rw [Position.offset_after, hstart, Text.size_bytes text]
  rw [Text.bytes_append, Text.bytes_append, ofText, hstart, hstop, ← ByteArray.size_append,
    ByteArray.extract_append_size_left, ByteArray.size_append]
  exact ByteArray.extract_append_eq_right rfl rfl

theorem Places.exists_before (h : s.Places css text) :
    ∃ before, before ++ text <+: css ∧ (Text.bytes before).size = s.start ∧
      s.line = 1 + before.count '\n' ∧ s.column = 1 + (Text.lastLine before).length := by
  obtain ⟨before, after, hcss, rfl⟩ := h
  refine ⟨before, ⟨after, hcss⟩, ?_⟩
  simp [ofText, Position.after_origin]

/-- The spans lie side by side, from one offset to another. -/
def Adjoin (start stop : Nat) : List Span → Prop
  | [] => start = stop
  | s :: rest => s.start = start ∧ Adjoin s.stop stop rest

end Span

theorem lexeme_text_ne_nil {css : Text} {l : Lexeme} (h : l ∈ lexemes css) : l.text ≠ [] := by
  fun_induction lexemes css with
  | case1 => simp at h
  | case2 c rest next ih =>
      rcases List.mem_cons.mp h with rfl | hrest
      · exact Lexer.lexeme_ne_nil c rest
      · exact ih hrest

theorem places_of_mem_place (before : Text) {ls : List Lexeme} {t : Token}
    (h : t ∈ place (Position.origin.after before) ls) :
    t.span.Places (before ++ ls.flatMap (·.text)) t.text := by
  induction ls generalizing before with
  | nil => simp [place] at h
  | cons l ls ih =>
      rw [place, ← Position.after_append] at h
      rcases List.mem_cons.mp h with rfl | hrest
      · exact ⟨before, ls.flatMap (·.text), by simp, rfl⟩
      · simpa using ih (before ++ l.text) hrest

theorem adjoin_place (start : Position) (ls : List Lexeme) :
    Span.Adjoin start.offset (start.after (ls.flatMap (·.text))).offset
      ((place start ls).map (·.span)) := by
  induction ls generalizing start with
  | nil => rfl
  | cons l ls ih =>
      rw [List.flatMap_cons, Position.after_append]
      exact ⟨rfl, ih (start.after l.text)⟩

theorem length_le_length_textOf {ts : List Token} (h : ∀ t ∈ ts, t.text ≠ []) :
    ts.length ≤ (textOf ts).length := by
  induction ts with
  | nil => simp
  | cons t ts ih =>
      have hfirst : 0 < t.text.length := List.length_pos_iff.mpr (h t (by simp))
      have hrest := ih fun u hu => h u (List.mem_cons_of_mem t hu)
      rw [textOf_cons, List.length_append, List.length_cons]
      omega

theorem text_ne_nil_of_mem_tokenize {css : Text} {t : Token} (h : t ∈ tokenize css) :
    t.text ≠ [] := by
  have hmem : t.toLexeme ∈ lexemes css := by
    rw [← map_toLexeme_place .origin (lexemes css)]
    exact List.mem_map_of_mem h
  exact lexeme_text_ne_nil hmem

theorem places_of_mem_tokenize {css : Text} {t : Token} (h : t ∈ tokenize css) :
    t.span.Places css t.text := by
  have hplaces := places_of_mem_place [] h
  rwa [flatMap_text_lexemes] at hplaces

/-- A text is cut into at most as many tokens as it has characters. None of them is empty, and they
make up the text. Their spans lie side by side from byte zero to the last byte. Each span holds the
bytes of its token, with the line and the column at which they start. -/
theorem tokenize_exact (css : Text) :
    (tokenize css).length ≤ css.length ∧
      (∀ t ∈ tokenize css, t.text ≠ []) ∧
      textOf (tokenize css) = css ∧
      Span.Adjoin 0 (Text.bytes css).size ((tokenize css).map (·.span)) ∧
      ∀ t ∈ tokenize css,
        (Text.bytes css).extract t.span.start t.span.stop = Text.bytes t.text ∧
          ∃ before, before ++ t.text <+: css ∧ (Text.bytes before).size = t.span.start ∧
            t.span.line = 1 + before.count '\n' ∧
            t.span.column = 1 + (Text.lastLine before).length := by
  have hne : ∀ t ∈ tokenize css, t.text ≠ [] := fun t ht => text_ne_nil_of_mem_tokenize ht
  have hlength := length_le_length_textOf hne
  have hadjoin := adjoin_place .origin (lexemes css)
  rw [flatMap_text_lexemes, Position.after_origin css] at hadjoin
  rw [textOf_tokenize] at hlength
  refine ⟨hlength, hne, textOf_tokenize css, hadjoin, ?_⟩
  intro t ht
  have hplaces := places_of_mem_tokenize ht
  exact ⟨hplaces.extract_bytes, hplaces.exists_before⟩

end StyleFlip
