import StyleFlip.Proofs.Standing

/-!
# Tokens by themselves

The lexer looks at as many as two characters after the end of a token, and only to see whether there
is more to take. The end of a text shows it nothing more, so a token is still read when the text is
cut off anywhere behind it (`lexemes_of_cut`). Right behind it, this leaves the token and nothing
else. Further behind it, there is another token: no longer part of the text from there is one token,
so the lexer takes as much as it can.
-/

namespace StyleFlip

theorem length_tokenize (css : Text) : (tokenize css).length = (lexemes css).length := by
  have hlexemes := congrArg List.length (map_toLexeme_place .origin (lexemes css))
  rwa [List.length_map] at hlexemes

theorem lexemes_ne_nil {text : Text} (h : text ≠ []) : lexemes text ≠ [] := by
  intro hnil
  have htext := flatMap_text_lexemes text
  rw [hnil] at htext
  exact h htext.symm

/-- A text from the start of one of its tokens up to any place behind it. -/
theorem lexemes_of_cut {css more : Text} {before after : List Token} {t : Token}
    (h : tokenize css = before ++ t :: after) (hmore : more <+: textOf after) :
    lexemes (t.text ++ more) = t.toLexeme :: lexemes more := by
  have hstand := stand_tokenize css
  rw [h, stand_append] at hstand
  obtain ⟨-, hbefore, -⟩ := hstand
  rw [List.append_nil] at hbefore
  exact hbefore.lexemes_append hmore

/-- The text of a token is one token of the same kind, and with any more of the text that follows it
there it is not one token. -/
theorem tokenize_text_of_mem (css : Text) (t : Token) (ht : t ∈ tokenize css) :
    tokenize t.text = [{ t with span := .ofText .origin t.text }] ∧
      ∀ before after more, tokenize css = before ++ t :: after → more <+: textOf after →
        more ≠ [] → 1 < (tokenize (t.text ++ more)).length := by
  constructor
  · rw [tokenize, (stand_tokenize css).lexemes_text ht]
    rfl
  · intro before after more hsplit hmore hne
    have hrest := List.length_pos_iff.mpr (lexemes_ne_nil hne)
    rw [length_tokenize, lexemes_of_cut hsplit hmore, List.length_cons]
    omega

/-- A string with an escaped line feed in it, left open before the next line feed. -/
theorem tokenize_text_of_open_string :
    let t : Token := ⟨⟨.string, "\"a\\\nb".toList⟩, ⟨1, 6, 1, 2⟩⟩
    t ∈ tokenize ":\"a\\\nb\n;".toList ∧
      tokenize t.text = [{ t with span := ⟨0, 5, 1, 1⟩ }] ∧
        1 < (tokenize "\"a\\\nb\n".toList).length := by
  intro t
  have htokens : tokenize ":\"a\\\nb\n;".toList =
      [⟨⟨.colon, [':']⟩, ⟨0, 1, 1, 1⟩⟩] ++
        t :: [⟨⟨.whitespace, ['\n']⟩, ⟨6, 7, 2, 2⟩⟩, ⟨⟨.semicolon, [';']⟩, ⟨7, 8, 3, 1⟩⟩] := by
    decide +kernel
  have hmem : t ∈ tokenize ":\"a\\\nb\n;".toList := by
    rw [htokens]
    exact List.mem_append_right _ List.mem_cons_self
  obtain ⟨hself, hlonger⟩ := tokenize_text_of_mem _ t hmem
  exact ⟨hmem, hself, hlonger _ _ ['\n'] htokens ⟨[';'], rfl⟩ (by simp)⟩

end StyleFlip
