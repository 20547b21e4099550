import StyleFlip.Outline.Basic
import StyleFlip.Sheet.Basic
import StyleFlip.Token.Split

/-!
# Reading an outline

`front` cuts one entry off a token list and `outline` goes on until none are left, entering the
blocks of grouping at-rules. Every token lands in the outline exactly once (`tokensAll_outline`).
-/

namespace StyleFlip

/-- The at-rules whose block holds rules. -/
def groupingNames : List Text :=
  ["media", "supports", "document", "layer", "container", "scope", "starting-style",
    "keyframes"].map String.toList

def atName (keyword : Token) : Text := keyword.text.drop 1

def isGrouping (keyword : Token) : Bool := groupingNames.contains (AtHead.baseName (atName keyword))

namespace Outline

/-- The at-rule that a keyword opens. Its block, if it has one, is not entered yet. -/
def atRule (keyword : Token) (ts : List Token) : Outline × List Token :=
  match splitPrelude 0 ts with
  | (params, []) => (.statement keyword params none, [])
  | (params, stop :: after) =>
    match stop.kind with
    | .semicolon => (.statement keyword params (some stop), after)
    | .openBrace =>
      match splitClosing .brace 0 after with
      | (block, closing :: rest) => (.verbatim keyword params stop block closing, rest)
      | (block, []) => (.raw .unclosedAtRule (keyword :: (params ++ stop :: block)), [])
    | _ => (.raw .cutOff (keyword :: params), stop :: after)

def styleRule (ts : List Token) : Outline × List Token :=
  match splitPrelude 0 ts with
  | (selector, []) => (.raw .unterminated selector, [])
  | (selector, stop :: after) =>
    match stop.kind with
    | .semicolon => (.raw .missingBlock (selector ++ [stop]), after)
    | .openBrace =>
      match splitClosing .brace 0 after with
      | (body, closing :: rest) => (.rule selector stop body closing, rest)
      | (body, []) => (.raw .unclosedBlock (selector ++ stop :: body), [])
    | _ => (.raw .unterminated selector, stop :: after)

def front (t : Token) (ts : List Token) : Outline × List Token :=
  match t.kind with
  | .whitespace => (.whitespace t, ts)
  | .comment => (.comment t, ts)
  | .closeBrace => (.raw .strayBrace [t], ts)
  | .atKeyword => atRule t ts
  | _ => styleRule (t :: ts)

theorem atRule_tokens (keyword : Token) (ts : List Token) :
    (atRule keyword ts).1.tokens ++ (atRule keyword ts).2 = keyword :: ts := by
  have hprelude := splitPrelude_append 0 ts
  unfold atRule
  split <;> rename_i heq <;> rw [heq] at hprelude
  · simp [tokens, ← hprelude]
  rename_i after
  have hblock := splitClosing_append .brace 0 after
  split
  · simp [tokens, ← hprelude]
  · split <;> rename_i hsplit <;> rw [hsplit] at hblock <;> simp [tokens, ← hprelude, ← hblock]
  · simp [tokens, ← hprelude]

theorem styleRule_tokens (ts : List Token) :
    (styleRule ts).1.tokens ++ (styleRule ts).2 = ts := by
  have hprelude := splitPrelude_append 0 ts
  unfold styleRule
  split <;> rename_i heq <;> rw [heq] at hprelude
  · simp [tokens, ← hprelude]
  rename_i after
  have hblock := splitClosing_append .brace 0 after
  split
  · simp [tokens, ← hprelude]
  · split <;> rename_i hsplit <;> rw [hsplit] at hblock <;> simp [tokens, ← hprelude, ← hblock]
  · simp [tokens, ← hprelude]

/-- An entry and the tokens after it make up the token list. -/
theorem front_tokens (t : Token) (ts : List Token) :
    (front t ts).1.tokens ++ (front t ts).2 = t :: ts := by
  unfold front
  split
  · rfl
  · rfl
  · rfl
  · exact atRule_tokens t ts
  · exact styleRule_tokens (t :: ts)

theorem styleRule_tokens_ne_nil {t : Token} (ts : List Token) (h : t.kind ≠ .closeBrace) :
    (styleRule (t :: ts)).1.tokens ≠ [] := by
  have hprelude := splitPrelude_append 0 (t :: ts)
  unfold styleRule
  split <;> rename_i heq <;> rw [heq] at hprelude
  · simp [tokens, show _ = t :: ts by simpa using hprelude]
  split
  · simp [tokens]
  · split <;> simp [tokens]
  · rename_i stop after _ hsemicolon hopen
    unfold splitPrelude at heq
    split at heq
    · rename_i hends
      simp_all [endsPrelude]
    · simp [tokens, ← (Prod.mk.inj heq).1]

theorem front_tokens_ne_nil (t : Token) (ts : List Token) : (front t ts).1.tokens ≠ [] := by
  unfold front
  split
  · simp [tokens]
  · simp [tokens]
  · simp [tokens]
  · unfold atRule
    split
    · simp [tokens]
    split
    · simp [tokens]
    · split <;> simp [tokens]
    · simp [tokens]
  · exact styleRule_tokens_ne_nil ts ‹_›

theorem length_of_front {t : Token} {ts rest : List Token} {entry : Outline}
    (h : front t ts = (entry, rest)) : entry.tokens.length + rest.length = (t :: ts).length := by
  rw [← front_tokens t ts, h, List.length_append]

theorem length_rest_of_front {t : Token} {ts rest : List Token} {entry : Outline}
    (h : front t ts = (entry, rest)) : rest.length < (t :: ts).length := by
  have hlength := length_of_front h
  have hpos : 0 < entry.tokens.length :=
    List.length_pos_iff.mpr (by simpa [h] using front_tokens_ne_nil t ts)
  omega

end Outline

def outline (tokens : List Token) : List Outline :=
  match tokens with
  | [] => []
  | t :: ts =>
    match _h : Outline.front t ts with
    | (.verbatim keyword params opening block closing, rest) =>
      if isGrouping keyword then
        .group keyword params opening (outline block) closing :: outline rest
      else .verbatim keyword params opening block closing :: outline rest
    | (entry, rest) => entry :: outline rest
termination_by tokens.length
decreasing_by
  · have hlength := Outline.length_of_front _h
    simp only [Outline.tokens, List.length_cons, List.length_append] at hlength ⊢
    omega
  all_goals exact Outline.length_rest_of_front _h

/-- Every token lands in the outline once, in order. -/
theorem tokensAll_outline (tokens : List Token) : Outline.tokensAll (outline tokens) = tokens := by
  fun_induction outline tokens with
  | case1 => rfl
  | case2 t ts keyword params opening block closing rest h _ ihblock ihrest =>
    simp [Outline.tokensAll, Outline.tokens, ihblock, ihrest, ← Outline.front_tokens t ts, h]
  | case3 t ts keyword params opening block closing rest h _ ih =>
    rw [Outline.tokensAll, ih, ← Outline.front_tokens t ts, h]
  | case4 t ts entry rest _ h ih =>
    rw [Outline.tokensAll, ih, ← Outline.front_tokens t ts, h]

end StyleFlip
