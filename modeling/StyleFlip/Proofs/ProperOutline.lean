import StyleFlip.Outline.Reader
import StyleFlip.Proofs.Depth
import StyleFlip.Proofs.Items
import StyleFlip.Sheet.Reader

/-!
# Proper outlines

An outline is proper when each entry is one that reading would cut off there, given the tokens after
it. Most entries are proper whatever follows them. Only a statement without its semicolon and the
raw text that runs up to a `}` or to the end depend on what comes next.

The outline of a token list is proper (`properAll_outline`), and it is the only proper outline with
these tokens (`outline_tokensAll`). To know how a changed text is read, it is therefore enough to
write down a proper outline for its tokens.
-/

namespace StyleFlip

namespace Outline

/-- Whether a style rule, and not some other entry, starts with this token. -/
def startsRule (t : Token) : Bool :=
  t.kind != .whitespace && t.kind != .comment && t.kind != .closeBrace && t.kind != .atKeyword

/-- The first token of a run opens a style rule. -/
def StartsRule (ts : List Token) : Prop := ∃ t more, ts = t :: more ∧ startsRule t = true

/-- A `}` comes next. -/
def BeforeBrace (rest : List Token) : Prop := ∃ t more, rest = t :: more ∧ t.kind = .closeBrace

/-- The parts of an at-rule with a block. -/
structure AtBlock (keyword : Token) (params : List Token) (opening : Token) (block : List Token)
    (closing : Token) : Prop where
  keyword : keyword.kind = .atKeyword
  params : preludeDepth 0 params = some 0
  opening : opening.kind = .openBrace
  block : Bracket.brace.depth 0 block = some 0
  closing : closing.kind = .closeBrace

/-- The parts of a style rule. -/
structure RuleBlock (selector : List Token) (opening : Token) (body : List Token)
    (closing : Token) : Prop where
  starts : StartsRule (selector ++ [opening])
  selector : preludeDepth 0 selector = some 0
  opening : opening.kind = .openBrace
  body : Bracket.brace.depth 0 body = some 0
  closing : closing.kind = .closeBrace

/-- Reading cuts this entry off in front of the given tokens, before it enters any block. -/
def Fits (rest : List Token) : Outline → Prop
  | .whitespace t => t.kind = .whitespace
  | .comment t => t.kind = .comment
  | .raw .strayBrace ts => ∃ t, ts = [t] ∧ t.kind = .closeBrace
  | .raw .missingBlock ts => ∃ selector stop, ts = selector ++ [stop] ∧ StartsRule ts ∧
      preludeDepth 0 selector = some 0 ∧ stop.kind = .semicolon
  | .raw .unterminated ts => StartsRule ts ∧ (preludeDepth 0 ts).isSome ∧
      (rest = [] ∨ BeforeBrace rest)
  | .raw .unclosedBlock ts => rest = [] ∧ ∃ selector stop body, ts = selector ++ stop :: body ∧
      StartsRule ts ∧ preludeDepth 0 selector = some 0 ∧ stop.kind = .openBrace ∧
      (Bracket.brace.depth 0 body).isSome
  | .raw .unclosedAtRule ts => rest = [] ∧ ∃ keyword params stop block,
      ts = keyword :: (params ++ stop :: block) ∧ keyword.kind = .atKeyword ∧
      preludeDepth 0 params = some 0 ∧ stop.kind = .openBrace ∧
      (Bracket.brace.depth 0 block).isSome
  | .raw .cutOff ts => BeforeBrace rest ∧ ∃ keyword params, ts = keyword :: params ∧
      keyword.kind = .atKeyword ∧ (preludeDepth 0 params).isSome
  | .raw .notADeclaration _ => False
  | .rule selector opening body closing => RuleBlock selector opening body closing
  | .statement keyword params (some stop) => keyword.kind = .atKeyword ∧
      preludeDepth 0 params = some 0 ∧ stop.kind = .semicolon
  | .statement keyword params none => rest = [] ∧ keyword.kind = .atKeyword ∧
      (preludeDepth 0 params).isSome
  | .verbatim keyword params opening block closing => AtBlock keyword params opening block closing
  | .group _ _ _ _ _ => False

mutual

/-- Reading gives this entry in front of the given tokens, down to the entries in its blocks. -/
def Proper (rest : List Token) : Outline → Prop
  | .group keyword params opening items closing => isGrouping keyword = true ∧
      AtBlock keyword params opening (tokensAll items) closing ∧ ProperAll items
  | .verbatim keyword params opening block closing => isGrouping keyword = false ∧
      AtBlock keyword params opening block closing
  | entry => entry.Fits rest

/-- Every entry of an outline is proper in its place. -/
def ProperAll : List Outline → Prop
  | [] => True
  | entry :: more => entry.Proper (tokensAll more) ∧ ProperAll more

end

@[simp]
theorem tokensAll_append (a b : List Outline) : tokensAll (a ++ b) = tokensAll a ++ tokensAll b := by
  induction a with
  | nil => rfl
  | cons entry a ih => simp [tokensAll, ih]

/-! ### What reading cuts off fits in front of the rest -/

theorem fits_atRule (keyword : Token) (ts : List Token) (hkeyword : keyword.kind = .atKeyword) :
    (atRule keyword ts).1.Fits (atRule keyword ts).2 := by
  unfold atRule
  split
  · rename_i params hsplit
    obtain ⟨e, hdepth, _⟩ := exists_preludeDepth_of_splitPrelude hsplit
    exact ⟨rfl, hkeyword, by simp [hdepth]⟩
  rename_i params stop after hsplit
  obtain ⟨e, hdepth, hends⟩ := exists_preludeDepth_of_splitPrelude hsplit
  have hstop := hends stop after rfl
  split
  · rename_i hkind
    obtain rfl := depth_eq_zero_of_endsPrelude hstop (by simp [hkind])
    exact ⟨hkeyword, hdepth, hkind⟩
  · rename_i hkind
    obtain rfl := depth_eq_zero_of_endsPrelude hstop (by simp [hkind])
    split
    · rename_i block closing rest hclosing
      obtain ⟨f, hblock, hfirst⟩ := exists_depth_of_splitClosing hclosing
      obtain ⟨rfl, hcloses⟩ := hfirst closing rest rfl
      exact ⟨hkeyword, hdepth, hkind, hblock, by simpa [Bracket.closes] using hcloses⟩
    · rename_i block hclosing
      obtain ⟨f, hblock, _⟩ := exists_depth_of_splitClosing hclosing
      exact ⟨rfl, keyword, params, stop, block, rfl, hkeyword, hdepth, hkind, by simp [hblock]⟩
  · rename_i hsemicolon hopen
    have hbrace := closeBrace_of_endsPrelude hstop hsemicolon hopen
    exact ⟨⟨stop, after, rfl, hbrace⟩, keyword, params, rfl, hkeyword, by simp [hdepth]⟩

theorem fits_styleRule {t : Token} (ts : List Token) (hstarts : startsRule t = true) :
    (styleRule (t :: ts)).1.Fits (styleRule (t :: ts)).2 := by
  have hsplitAppend := splitPrelude_append 0 (t :: ts)
  -- The run that an entry takes starts with `t`, because it is a part of the list from its front.
  have hfirst : ∀ run rest : List Token, run ≠ [] → run ++ rest = t :: ts → StartsRule run := by
    intro run rest hne heq
    cases run with
    | nil => contradiction
    | cons u more => exact ⟨u, more, rfl, by simp_all⟩
  unfold styleRule
  split
  · rename_i selector hsplit
    rw [hsplit] at hsplitAppend
    obtain ⟨e, hdepth, _⟩ := exists_preludeDepth_of_splitPrelude hsplit
    exact ⟨hfirst selector [] (by rintro rfl; simp at hsplitAppend) hsplitAppend,
      by simp [hdepth], Or.inl rfl⟩
  rename_i selector stop after hsplit
  rw [hsplit] at hsplitAppend
  obtain ⟨e, hdepth, hends⟩ := exists_preludeDepth_of_splitPrelude hsplit
  have hstop := hends stop after rfl
  split
  · rename_i hkind
    obtain rfl := depth_eq_zero_of_endsPrelude hstop (by simp [hkind])
    exact ⟨selector, stop, rfl, hfirst _ after (by simp) (by simpa using hsplitAppend), hdepth, hkind⟩
  · rename_i hkind
    obtain rfl := depth_eq_zero_of_endsPrelude hstop (by simp [hkind])
    split
    · rename_i body closing rest hclosing
      obtain ⟨f, hbody, hnext⟩ := exists_depth_of_splitClosing hclosing
      obtain ⟨rfl, hcloses⟩ := hnext closing rest rfl
      exact ⟨hfirst _ after (by simp) (by simpa using hsplitAppend), hdepth, hkind, hbody,
        by simpa [Bracket.closes] using hcloses⟩
    · rename_i body hclosing
      have hbodyAppend := splitClosing_append .brace 0 after
      rw [hclosing] at hbodyAppend
      obtain ⟨f, hbody, _⟩ := exists_depth_of_splitClosing hclosing
      refine ⟨rfl, selector, stop, body, rfl, hfirst _ [] (by simp) ?_, hdepth, hkind,
        by simp [hbody]⟩
      simpa [← hbodyAppend] using hsplitAppend
  · rename_i hsemicolon hopen
    have hbrace := closeBrace_of_endsPrelude hstop hsemicolon hopen
    refine ⟨hfirst selector (stop :: after) ?_ hsplitAppend, by simp [hdepth],
      Or.inr ⟨stop, after, rfl, hbrace⟩⟩
    rintro rfl
    obtain ⟨rfl, rfl⟩ := List.cons.inj hsplitAppend
    simp [startsRule, hbrace] at hstarts

theorem fits_front (t : Token) (ts : List Token) : (front t ts).1.Fits (front t ts).2 := by
  unfold front
  split
  · assumption
  · assumption
  · exact ⟨t, rfl, ‹_›⟩
  · exact fits_atRule t ts ‹_›
  · exact fits_styleRule ts (by simp_all [startsRule])

/-! ### What fits is what reading cuts off -/

theorem front_of_startsRule {t : Token} (ts : List Token) (h : startsRule t = true) :
    front t ts = styleRule (t :: ts) := by
  unfold front
  split <;> simp_all [startsRule]

theorem front_eq_of_fits_raw {cause : Cause} {run rest : List Token}
    (h : (Outline.raw cause run).Fits rest) :
    ∃ t ts, run = t :: ts ∧ front t (ts ++ rest) = (.raw cause run, rest) := by
  cases cause with
  | strayBrace =>
      obtain ⟨t, rfl, hkind⟩ := h
      exact ⟨t, [], rfl, by simp [front, hkind]⟩
  | missingBlock =>
      obtain ⟨selector, stop, rfl, ⟨t, more, hstart, hkind⟩, hdepth, hstop⟩ := h
      refine ⟨t, more, hstart, ?_⟩
      rw [front_of_startsRule _ hkind, ← List.cons_append, ← hstart, List.append_assoc, styleRule,
        List.singleton_append, splitPrelude_of_stop hdepth stop (by simp [endsPrelude, hstop])]
      simp [hstop]
  | unterminated =>
      obtain ⟨⟨t, more, rfl, hkind⟩, hdepth, hrest⟩ := h
      obtain ⟨e, hrun⟩ := Option.isSome_iff_exists.mp hdepth
      refine ⟨t, more, rfl, ?_⟩
      rw [front_of_startsRule _ hkind, ← List.cons_append, styleRule]
      rcases hrest with rfl | ⟨stop, after, rfl, hstop⟩
      · simp [splitPrelude_of_end hrun]
      · rw [splitPrelude_of_stop hrun stop (by simp [endsPrelude, hstop])]
        simp [hstop]
  | unclosedBlock =>
      obtain ⟨rfl, selector, stop, body, rfl, ⟨t, more, hstart, hkind⟩, hdepth, hstop, hbody⟩ := h
      obtain ⟨e, hbodyDepth⟩ := Option.isSome_iff_exists.mp hbody
      refine ⟨t, more, hstart, ?_⟩
      rw [front_of_startsRule _ hkind, List.append_nil, ← hstart, styleRule,
        splitPrelude_of_stop hdepth stop (by simp [endsPrelude, hstop])]
      simp [hstop, splitClosing_of_end hbodyDepth]
  | unclosedAtRule =>
      obtain ⟨rfl, keyword, params, stop, block, rfl, hkeyword, hdepth, hstop, hblock⟩ := h
      obtain ⟨e, hblockDepth⟩ := Option.isSome_iff_exists.mp hblock
      refine ⟨keyword, params ++ stop :: block, rfl, ?_⟩
      simp [front, hkeyword, atRule,
        splitPrelude_of_stop hdepth stop (by simp [endsPrelude, hstop]), hstop,
        splitClosing_of_end hblockDepth]
  | cutOff =>
      obtain ⟨⟨stop, after, rfl, hstop⟩, keyword, params, rfl, hkeyword, hdepth⟩ := h
      obtain ⟨e, hparams⟩ := Option.isSome_iff_exists.mp hdepth
      refine ⟨keyword, params, rfl, ?_⟩
      simp [front, hkeyword, atRule,
        splitPrelude_of_stop hparams stop (by simp [endsPrelude, hstop]), hstop]
  | notADeclaration => exact h.elim

theorem front_eq_of_fits {entry : Outline} {rest : List Token} (h : entry.Fits rest) :
    ∃ t ts, entry.tokens = t :: ts ∧ front t (ts ++ rest) = (entry, rest) := by
  cases entry with
  | whitespace t => exact ⟨t, [], rfl, by simp [front, show t.kind = _ from h]⟩
  | comment t => exact ⟨t, [], rfl, by simp [front, show t.kind = _ from h]⟩
  | rule selector opening body closing =>
      obtain ⟨⟨t, more, hstart, hkind⟩, hselector, hopening, hbody, hclosing⟩ := h
      have hfront : ∀ tail : List Token, t :: (more ++ tail) = selector ++ opening :: tail := by
        intro tail
        rw [← List.cons_append, ← hstart, List.append_assoc, List.singleton_append]
      refine ⟨t, more ++ (body ++ [closing]), by rw [hfront]; rfl, ?_⟩
      have htokens : t :: (more ++ (body ++ [closing]) ++ rest) =
          selector ++ opening :: (body ++ closing :: rest) := by
        rw [List.append_assoc, hfront, List.append_assoc, List.singleton_append]
      rw [front_of_startsRule _ hkind, htokens, styleRule,
        splitPrelude_of_stop hselector opening (by simp [endsPrelude, hopening])]
      simp only [hopening]
      rw [splitClosing_of_stop hbody closing (by simp [Bracket.closes, hclosing])]
  | statement keyword params semicolon =>
      cases semicolon with
      | none =>
          obtain ⟨rfl, hkeyword, hdepth⟩ := h
          obtain ⟨e, hparams⟩ := Option.isSome_iff_exists.mp hdepth
          refine ⟨keyword, params, by simp [tokens], ?_⟩
          simp [front, hkeyword, atRule, splitPrelude_of_end hparams]
      | some stop =>
          obtain ⟨hkeyword, hparams, hstop⟩ := h
          refine ⟨keyword, params ++ [stop], rfl, ?_⟩
          simp [front, hkeyword, atRule,
            splitPrelude_of_stop hparams stop (by simp [endsPrelude, hstop]), hstop]
  | verbatim keyword params opening block closing =>
      obtain ⟨hkeyword, hparams, hopening, hblock, hclosing⟩ := h
      refine ⟨keyword, params ++ opening :: (block ++ [closing]), rfl, ?_⟩
      simp [front, hkeyword, atRule,
        splitPrelude_of_stop hparams opening (by simp [endsPrelude, hopening]), hopening,
        splitClosing_of_stop hblock closing (by simp [Bracket.closes, hclosing])]
  | group => exact h.elim
  | raw cause ts => exact front_eq_of_fits_raw h

end Outline

open Outline

/-! ### The outline of a token list is its only proper outline -/

theorem outline_of_front {t : Token} {ts rest : List Token} {entry : Outline}
    (h : front t ts = (entry, rest))
    (hentry : ∀ keyword params opening block closing,
      entry ≠ .verbatim keyword params opening block closing) :
    outline (t :: ts) = entry :: outline rest := by
  rw [outline]
  split
  · rename_i heq
    rw [h] at heq
    exact absurd (Prod.mk.inj heq).1 (hentry _ _ _ _ _)
  · rename_i heq
    rw [h] at heq
    obtain ⟨rfl, rfl⟩ := Prod.mk.inj heq
    rfl

theorem outline_of_front_verbatim {t keyword opening closing : Token}
    {ts rest params block : List Token}
    (h : front t ts = (.verbatim keyword params opening block closing, rest)) :
    outline (t :: ts) =
      (if isGrouping keyword then .group keyword params opening (outline block) closing
        else .verbatim keyword params opening block closing) :: outline rest := by
  rw [outline]
  split
  · rename_i heq
    rw [h] at heq
    obtain ⟨hentry, rfl⟩ := Prod.mk.inj heq
    obtain ⟨rfl, rfl, rfl, rfl, rfl⟩ := Outline.verbatim.inj hentry
    split <;> rfl
  · rename_i hother heq
    rw [h] at heq
    exact absurd (Prod.mk.inj heq).1.symm (hother _ _ _ _ _)

theorem outline_of_fits {entry : Outline} {rest : List Token} (h : entry.Fits rest)
    (hentry : ∀ keyword params opening block closing,
      entry ≠ .verbatim keyword params opening block closing) :
    outline (entry.tokens ++ rest) = entry :: outline rest := by
  obtain ⟨t, ts, htokens, hfront⟩ := front_eq_of_fits h
  rw [htokens, List.cons_append, outline_of_front hfront hentry]

theorem outline_of_atBlock {keyword opening closing : Token} {params block : List Token}
    (h : AtBlock keyword params opening block closing) (rest : List Token) :
    outline (keyword :: (params ++ opening :: (block ++ [closing])) ++ rest) =
      (if isGrouping keyword then .group keyword params opening (outline block) closing
        else .verbatim keyword params opening block closing) :: outline rest := by
  have hfits : (Outline.verbatim keyword params opening block closing).Fits rest := h
  obtain ⟨t, ts, htokens, hfront⟩ := front_eq_of_fits hfits
  have hlist : keyword :: (params ++ opening :: (block ++ [closing])) = t :: ts := htokens
  rw [hlist, List.cons_append, outline_of_front_verbatim hfront]

/-- A proper outline is what reading makes of its tokens. -/
theorem outline_tokensAll : ∀ entries : List Outline, ProperAll entries →
    outline (tokensAll entries) = entries
  | [], _ => by simp [tokensAll, outline]
  | entry :: more, h => by
      obtain ⟨hentry, hmore⟩ := h
      have ih := outline_tokensAll more hmore
      cases entry with
      | group keyword params opening items closing =>
          obtain ⟨hgrouping, hblock, hitems⟩ := hentry
          rw [tokensAll, tokens, outline_of_atBlock hblock, if_pos hgrouping,
            outline_tokensAll items hitems, ih]
      | verbatim keyword params opening block closing =>
          obtain ⟨hgrouping, hblock⟩ := hentry
          rw [tokensAll, tokens, outline_of_atBlock hblock, if_neg (by simp [hgrouping]), ih]
      | _ =>
          simp only [Proper] at hentry
          rw [tokensAll, outline_of_fits hentry (by simp), ih]

/-- Reading gives proper outlines. -/
theorem properAll_outline (ts : List Token) : ProperAll (outline ts) := by
  fun_induction outline ts with
  | case1 => trivial
  | case2 t ts keyword params opening block closing rest hfront hgrouping ihblock ihrest =>
      have hfits := fits_front t ts
      rw [hfront] at hfits
      refine ⟨⟨hgrouping, ?_, ihblock⟩, ihrest⟩
      rwa [tokensAll_outline]
  | case3 t ts keyword params opening block closing rest hfront hgrouping ih =>
      have hfits := fits_front t ts
      rw [hfront] at hfits
      exact ⟨⟨by simpa using hgrouping, hfits⟩, ih⟩
  | case4 t ts entry rest hother hfront ih =>
      have hfits := fits_front t ts
      rw [hfront] at hfits
      refine ⟨?_, ih⟩
      rw [tokensAll_outline]
      cases entry with
      | group => exact hfits.elim
      | verbatim => exact absurd rfl (hother _ _ _ _ _)
      | _ => exact hfits

/-- A rule of a stylesheet was read from a part of the tokens. -/
theorem Outline.ProperAll.exists_rule {entries : List Outline} (h : ProperAll entries) {r : Rule}
    (hr : r ∈ Item.rulesAll (Item.ofOutlines entries)) :
    ∃ before selector opening body closing after,
      tokensAll entries = before ++ (selector ++ opening :: (body ++ [closing]) ++ after) ∧
        RuleBlock selector opening body closing ∧ r = Rule.read selector opening body closing := by
  induction entries using Outline.listInduction with
  | nil => simp [Item.ofOutlines, Item.rulesAll] at hr
  | group keyword params opening items closing rest ihitems ihrest =>
      rw [Item.ofOutlines, Item.rulesAll, Item.ofOutline, Item.rules, List.mem_append] at hr
      rw [tokensAll, tokens]
      rcases hr with hr | hr
      · obtain ⟨before, selector, o, body, c, after, htokens, hread⟩ := ihitems h.1.2.2 hr
        refine ⟨keyword :: (params ++ opening :: before), selector, o, body, c,
          after ++ closing :: tokensAll rest, ?_, hread⟩
        simp [htokens]
      · obtain ⟨before, selector, o, body, c, after, htokens, hread⟩ := ihrest h.2 hr
        rw [htokens, ← List.append_assoc]
        exact ⟨_, selector, o, body, c, after, rfl, hread⟩
  | other entry rest hother ih =>
      rw [Item.ofOutlines, Item.rulesAll, List.mem_append] at hr
      rw [tokensAll]
      rcases hr with hr | hr
      · cases entry with
        | rule selector opening body closing =>
            exact ⟨[], selector, opening, body, closing, tokensAll rest, rfl, h.1,
              List.mem_singleton.mp hr⟩
        | group => exact absurd rfl (hother _ _ _ _ _)
        | _ => simp [Item.ofOutline, Item.rules] at hr
      · obtain ⟨before, selector, o, body, c, after, htokens, hread⟩ := ih h.2 hr
        rw [htokens, ← List.append_assoc]
        exact ⟨_, selector, o, body, c, after, rfl, hread⟩

end StyleFlip
