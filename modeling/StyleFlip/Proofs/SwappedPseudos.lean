import StyleFlip.Proofs.Items
import StyleFlip.Proofs.MirroredSelector
import StyleFlip.Proofs.Standing
import StyleFlip.Sheet.Reader

/-!
# Swapped pseudo-elements

Swapping looks for the name of a pseudo-element after the last colon of its text. An identifier may
have colons of its own, each of them escaped. What comes after the last of these may be one of the
two names although the identifier is neither, as in `x\:before`, and then it is swapped all the
same. No other identifier is mistaken for a name (`IsPseudo.swapsExactly_iff`).
-/

namespace StyleFlip

open Lexer Text

/-- A name of one of the two pseudo-elements, in any letter case, and the name of the other. -/
inductive SideName (name : Text) : Text → Prop
  | before (h : lower name = "before".toList) : SideName name "after".toList
  | after (h : lower name = "after".toList) : SideName name "before".toList

/-- One or two colons and an identifier. -/
structure IsPseudo (colons name : Text) : Prop where
  colons : colons = [':'] ∨ colons = [':', ':']
  ident : lexemes name = [⟨.ident, name⟩]

/-- The swap changes the pseudo-element when its identifier is one of the two names, and it puts
the other name after the colons. -/
structure SwapsExactly (colons name : Text) : Prop where
  changes_iff : SelectorPart.swapPseudo (.pseudo (colons ++ name)) ≠ .pseudo (colons ++ name) ↔
    ∃ other, SideName name other
  swapped : ∀ other, SideName name other →
    SelectorPart.swapPseudo (.pseudo (colons ++ name)) = .pseudo (colons ++ inCaseOf name other)

/-- One of the two names stands at the end of an identifier, after an escaped colon. -/
structure HidesSide (name front tail other : Text) : Prop where
  escaped : name = front ++ '\\' :: ':' :: tail
  side : SideName tail other

/-! ### The two names -/

theorem counterpart?_sidePseudos_iff {name other : Text} :
    sidePseudos.counterpart? name = some other ↔ SideName name other := by
  have hcounterpart : sidePseudos.counterpart? name =
      if lower name = "before".toList then some "after".toList
      else if lower name = "after".toList then some "before".toList else none :=
    Pairs.counterpart?_cons (by decide) (by decide) name
  rw [hcounterpart]
  constructor
  · intro h
    split at h
    · obtain rfl := Option.some.inj h
      exact .before ‹_›
    split at h
    · obtain rfl := Option.some.inj h
      exact .after ‹_›
    · contradiction
  · rintro (h | h)
    · rw [if_pos h]
    · rw [if_neg (by rw [h]; decide), if_pos h]

namespace SideName

variable {name other : Text}

theorem flip_eq (h : SideName name other) : sidePseudos.flip name = inCaseOf name other := by
  rw [Pairs.flip, counterpart?_sidePseudos_iff.mpr h]

theorem colon_not_mem (h : SideName name other) : ':' ∉ name := by
  intro hmem
  have hlower : ':' ∈ lower name := List.mem_map.mpr ⟨':', hmem, by decide⟩
  rcases h with h | h
  · exact absurd (h ▸ hlower) (by decide)
  · exact absurd (h ▸ hlower) (by decide)

theorem inCaseOf_ne (h : SideName name other) : inCaseOf name other ≠ name := by
  intro heq
  have hlower := congrArg lower heq
  rw [lower_inCaseOf] at hlower
  rcases h with h | h
  · exact absurd (hlower.trans h) (by decide)
  · exact absurd (hlower.trans h) (by decide)

end SideName

theorem flip_sidePseudos_of_not {name : Text} (h : ¬ ∃ other, SideName name other) :
    sidePseudos.flip name = name := by
  cases hother : sidePseudos.counterpart? name with
  | none => rw [Pairs.flip, hother]
  | some other => exact absurd ⟨other, counterpart?_sidePseudos_iff.mp hother⟩ h

/-! ### Colons in identifiers -/

theorem swapPseudo_append (front : Text) {name : Text} (h : ':' ∉ name) :
    SelectorPart.swapPseudo (.pseudo (front ++ ':' :: name)) =
      .pseudo (front ++ ':' :: sidePseudos.flip name) := by
  simp [SelectorPart.swapPseudo, splitPseudo_append h]

/-- A name holds no colon but after a backslash. -/
theorem exists_escape_of_name {x front tail : Text} (h : Scan.units nameVerdict x = (x, []))
    (hx : x = front ++ ':' :: tail) : ∃ before, front = before ++ ['\\'] := by
  fun_induction Scan.units nameVerdict x generalizing front with
  | case1 => simp at hx
  | case2 c rest ih =>
      have hrest : Scan.units nameVerdict rest = (rest, []) := by simpa [Prod.ext_iff] using h
      cases front with
      | nil => simp at hx
      | cons d front =>
          obtain ⟨rfl, hcons⟩ := List.cons.inj hx
          cases front with
          | nil => exact ⟨[], rfl⟩
          | cons e front =>
              obtain ⟨rfl, htail⟩ := List.cons.inj hcons
              obtain ⟨before, rfl⟩ := ih hrest htail
              exact ⟨'\\' :: c :: before, rfl⟩
  | case3 c rest _ hverdict ih =>
      have hrest : Scan.units nameVerdict rest = (rest, []) := Scan.map_cons_eq_iff.mp h
      cases front with
      | nil =>
          obtain ⟨rfl, -⟩ := List.cons.inj hx
          simp [nameVerdict, isNameChar, isNameStart] at hverdict
      | cons d front =>
          obtain ⟨rfl, htail⟩ := List.cons.inj hx
          obtain ⟨before, rfl⟩ := ih hrest htail
          exact ⟨c :: before, rfl⟩
  | case4 c rest _ hverdict =>
      unfold nameVerdict at hverdict
      split at hverdict <;> contradiction
  | case5 => simp at h

/-- The scanner of names takes an identifier to its end. -/
theorem units_of_ident {x : Text} (h : lexemes x = [⟨.ident, x⟩]) :
    Scan.units nameVerdict x = (x, []) := by
  cases x with
  | nil => simp [lexemes] at h
  | cons c rest =>
      rw [lexemes] at h
      obtain ⟨hkind, htext⟩ := Lexeme.mk.inj (List.cons.inj h).1
      have hend : (lexeme c rest).2.2 = [] := by simpa [htext] using lexeme_lossless c rest
      have hnamed : named (c :: rest) = (.ident, c :: rest, []) := by
        rw [← lexeme_eq_named (by simp [hkind])]
        exact Prod.ext hkind (Prod.ext htext hend)
      unfold named at hnamed
      split at hnamed
      · split at hnamed <;> simp at hnamed
      · rename_i hname
        rw [name] at hname
        rw [hname]
        exact (Prod.mk.inj hnamed).2

theorem HidesSide.swap_eq {name front tail other : Text} (h : HidesSide name front tail other)
    (colons : Text) :
    SelectorPart.swapPseudo (.pseudo (colons ++ name)) =
      .pseudo (colons ++ (front ++ '\\' :: ':' :: inCaseOf tail other)) := by
  have hswap := swapPseudo_append (colons ++ front ++ ['\\']) h.side.colon_not_mem
  rw [h.side.flip_eq] at hswap
  rw [h.escaped]
  simpa using hswap

namespace IsPseudo

variable {colons name : Text}

theorem swap_eq_flip (h : IsPseudo colons name) (hnot : ':' ∉ name) :
    SelectorPart.swapPseudo (.pseudo (colons ++ name)) =
      .pseudo (colons ++ sidePseudos.flip name) := by
  rcases h.colons with rfl | rfl
  · exact swapPseudo_append [] hnot
  · exact swapPseudo_append [':'] hnot

theorem swap_eq_self (h : IsPseudo colons name) (hcolon : ':' ∈ name)
    (hnone : ¬ ∃ front tail other, HidesSide name front tail other) :
    SelectorPart.swapPseudo (.pseudo (colons ++ name)) = .pseudo (colons ++ name) := by
  rcases breakLast_cases ':' name with ⟨-, hnot⟩ | ⟨front, tail, -, hname, hnot⟩
  · contradiction
  obtain ⟨before, rfl⟩ := exists_escape_of_name (units_of_ident h.ident) hname
  have hother : ¬ ∃ other, SideName tail other := by
    rintro ⟨other, hside⟩
    exact hnone ⟨before, tail, other, by rw [hname]; simp, hside⟩
  have hswap := swapPseudo_append (colons ++ (before ++ ['\\'])) hnot
  rw [flip_sidePseudos_of_not hother] at hswap
  rw [hname]
  simpa using hswap

theorem swapsExactly_of_not_mem (h : IsPseudo colons name) (hnot : ':' ∉ name) :
    SwapsExactly colons name := by
  have hswap := h.swap_eq_flip hnot
  refine ⟨⟨fun hchanged => ?_, ?_⟩, fun other hside => ?_⟩
  · refine Classical.byContradiction fun hnone => hchanged ?_
    rw [hswap, flip_sidePseudos_of_not hnone]
  · rintro ⟨other, hside⟩
    rw [hswap, hside.flip_eq]
    simpa using hside.inCaseOf_ne
  · rw [hswap, hside.flip_eq]

theorem swapsExactly_iff (h : IsPseudo colons name) :
    SwapsExactly colons name ↔ ¬ ∃ front tail other, HidesSide name front tail other := by
  constructor
  · rintro hexact ⟨front, tail, other, hhides⟩
    have hcolon : ':' ∈ name := by simp [hhides.escaped]
    -- The whole identifier has a colon in it, so it is none of the two names.
    have hnone : ¬ ∃ other, SideName name other := fun ⟨_, hside⟩ => hside.colon_not_mem hcolon
    refine hnone (hexact.changes_iff.mp ?_)
    have hne := hhides.side.inCaseOf_ne
    rw [hhides.swap_eq, hhides.escaped]
    simpa using hne
  · intro hnone
    by_cases hcolon : ':' ∈ name
    · have hkept := h.swap_eq_self hcolon hnone
      have hnoSide : ∀ other, ¬ SideName name other := fun _ hside => hside.colon_not_mem hcolon
      exact ⟨by simp [hkept, hnoSide], fun other hside => absurd hside (hnoSide other)⟩
    · exact h.swapsExactly_of_not_mem hcolon

end IsPseudo

/-! ### Pseudo-elements of a stylesheet -/

theorem exists_ident_of_pseudoPart {colons rest : List Token} {text : Text}
    (h : (pseudoPart colons rest).1 = .pseudo text) :
    ∃ t ∈ rest, t.kind = .ident ∧ text = textOf colons ++ t.text := by
  unfold pseudoPart at h
  split at h
  · contradiction
  rename_i t after
  split at h
  · rename_i hkind
    exact ⟨t, by simp, hkind, by simpa using (SelectorPart.pseudo.inj h).symm⟩
  · contradiction
  · contradiction

/-- A pseudo-element is read off one or two colons and an identifier. -/
theorem exists_ident_of_selectorPart {t : Token} {rest : List Token} {text : Text}
    (hspelled : SpelledAll (t :: rest)) (h : (selectorPart t rest).1 = .pseudo text) :
    ∃ colons, (colons = [':'] ∨ colons = [':', ':']) ∧
      ∃ u ∈ rest, u.kind = .ident ∧ text = colons ++ u.text := by
  have hcolon : ∀ u ∈ t :: rest, u.kind = .colon → u.text = [':'] := fun u hu hkind =>
    Token.text_eq_of_sign (hspelled u hu) (by rw [hkind]; rfl)
  cases hkind : t.kind with
  | colon =>
      have hone : textOf [t] = [':'] := by simp [hcolon t (by simp) hkind]
      cases rest with
      | nil =>
          simp only [selectorPart, hkind] at h
          obtain ⟨u, hu, -⟩ := exists_ident_of_pseudoPart h
          contradiction
      | cons second after =>
          by_cases hsecond : second.kind = .colon
          · have htwo : textOf [t, second] = [':', ':'] := by
              simp [hcolon t (by simp) hkind, hcolon second (by simp) hsecond]
            simp only [selectorPart, hkind, hsecond, beq_self_eq_true, if_true] at h
            obtain ⟨u, hu, hident, htext⟩ := exists_ident_of_pseudoPart h
            exact ⟨_, .inr rfl, u, List.mem_cons_of_mem second hu, hident, by rw [htext, htwo]⟩
          · have hother : (second.kind == .colon) = false := beq_eq_false_iff_ne.mpr hsecond
            simp only [selectorPart, hkind, hother, Bool.false_eq_true, if_false] at h
            obtain ⟨u, hu, hident, htext⟩ := exists_ident_of_pseudoPart h
            exact ⟨_, .inl rfl, u, hu, hident, by rw [htext, hone]⟩
  | openBracket =>
      simp only [selectorPart, hkind, attributePart] at h
      split at h <;> contradiction
  | delim =>
      simp only [selectorPart, hkind] at h
      split at h
      · split at h
        · contradiction
        · split at h <;> contradiction
      · split at h <;> contradiction
  | _ => simp [selectorPart, hkind] at h

theorem Selector.exists_ident_of_pseudo {ts : List Token} {text : Text} (hspelled : SpelledAll ts)
    (h : .pseudo text ∈ Selector.read ts) :
    ∃ colons, (colons = [':'] ∨ colons = [':', ':']) ∧
      ∃ u ∈ ts, u.kind = .ident ∧ text = colons ++ u.text := by
  fun_induction Selector.read ts with
  | case1 => contradiction
  | case2 t rest next ih =>
      have hsuffix := selectorPart_suffix t rest
      rcases List.mem_cons.mp h with hfirst | hafter
      · obtain ⟨colons, hcolons, u, hu, hident⟩ :=
          exists_ident_of_selectorPart hspelled hfirst.symm
        exact ⟨colons, hcolons, u, List.mem_cons_of_mem t hu, hident⟩
      · have hspelledAfter : SpelledAll next.2 := fun u hu =>
          hspelled u (List.mem_cons_of_mem t (hsuffix.subset hu))
        obtain ⟨colons, hcolons, u, hu, hident⟩ := ih hspelledAfter hafter
        exact ⟨colons, hcolons, u, List.mem_cons_of_mem t (hsuffix.subset hu), hident⟩

theorem Stylesheet.isPseudo_of_mem_selector {css : Text} {r : Rule}
    (hr : r ∈ (Stylesheet.parse css).rules) {text : Text} (h : .pseudo text ∈ r.selector) :
    ∃ colons name, text = colons ++ name ∧ IsPseudo colons name := by
  obtain ⟨before, selector, opening, body, closing, after, htokens, -, rfl⟩ :=
    (properAll_outline (tokenize css)).exists_rule hr
  rw [tokensAll_outline] at htokens
  have hsub : ∀ t ∈ selector, t ∈ tokenize css := fun t ht => by simp [htokens, ht]
  have hstand := stand_tokenize css
  have hspelled : SpelledAll selector := fun t ht => hstand.spelledAll t (hsub t ht)
  obtain ⟨colons, hcolons, t, ht, hkind, htext⟩ := Selector.exists_ident_of_pseudo hspelled h
  have hlexemes := hstand.lexemes_text (hsub t ht)
  refine ⟨colons, t.text, htext, hcolons, ?_⟩
  rw [hlexemes, ← hkind]

/-- Swapping the pseudo-elements of a rule is exact, except for identifiers that end in an escaped
colon and one of the two names. -/
theorem swap_of_parsed_rule (css : Text) (options : FlipOptions) (hswap : options.swapPseudo = true)
    (r : Rule) (hr : r ∈ (Stylesheet.parse css).rules) :
    (r.flip options).selector =
        (if options.flipSelectors then Selector.flipWords (Selector.swapPseudos r.selector)
          else Selector.swapPseudos r.selector) ∧
      (∀ part ∈ r.selector, (∀ text, part ≠ .pseudo text) → part.swapPseudo = part) ∧
      ∀ text, .pseudo text ∈ r.selector → ∃ colons name, text = colons ++ name ∧
        IsPseudo colons name ∧
        (SwapsExactly colons name ↔ ¬ ∃ front tail other, HidesSide name front tail other) ∧
        ∀ front tail other, HidesSide name front tail other →
          SelectorPart.swapPseudo (.pseudo text) =
            .pseudo (colons ++ (front ++ '\\' :: ':' :: inCaseOf tail other)) := by
  refine ⟨?_, fun part _ hpart => ?_, fun text htext => ?_⟩
  · simp only [Rule.flip, Selector.flip, Edit.stepIf, hswap, if_true]
    split <;> rfl
  · cases part with
    | pseudo text => exact absurd rfl (hpart text)
    | _ => rfl
  · obtain ⟨colons, name, rfl, hpseudo⟩ := Stylesheet.isPseudo_of_mem_selector hr htext
    exact ⟨colons, name, rfl, hpseudo, hpseudo.swapsExactly_iff,
      fun front tail other hhides => hhides.swap_eq colons⟩

theorem swap_of_parsed_rule_capitals :
    let r : Rule := ⟨[.element ['a'], .pseudo "::BEFORE".toList], [], ⟨0, 11, 1, 1⟩,
      some "a::BEFORE\x7b\x7d".toList⟩
    (r.flip { swapPseudo := true }).selector = [.element ['a'], .pseudo "::AFTER".toList] := by
  intro r
  have hr : r ∈ (Stylesheet.parse "a::BEFORE\x7b\x7d".toList).rules := by decide +kernel
  rw [(swap_of_parsed_rule _ { swapPseudo := true } rfl r hr).1]
  decide +kernel

/-- The identifier of `:x\:before` is none of the two names, and still the swap changes it. -/
theorem escaped_colon_swapped :
    ∃ r ∈ (Stylesheet.parse "a:x\\:before\x7b\x7d".toList).rules,
      IsPseudo [':'] "x\\:before".toList ∧ (¬ ∃ other, SideName "x\\:before".toList other) ∧
        .pseudo ":x\\:before".toList ∈ r.selector ∧
        .pseudo ":x\\:after".toList ∈ (r.flip { swapPseudo := true }).selector := by
  have hpseudo : IsPseudo [':'] "x\\:before".toList := ⟨.inl rfl, by decide +kernel⟩
  have hnone : ¬ ∃ other, SideName "x\\:before".toList other := by
    rintro ⟨other, hside⟩
    exact hside.colon_not_mem (by decide)
  have hsome : (Stylesheet.parse "a:x\\:before\x7b\x7d".toList).rules.any (fun r =>
      .pseudo ":x\\:before".toList ∈ r.selector ∧
        .pseudo ":x\\:after".toList ∈ (r.flip { swapPseudo := true }).selector) = true := by
    decide +kernel
  obtain ⟨r, hr, hmem⟩ := List.any_eq_true.mp hsome
  exact ⟨r, hr, hpseudo, hnone, of_decide_eq_true hmem⟩

end StyleFlip
