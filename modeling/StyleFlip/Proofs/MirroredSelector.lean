import StyleFlip.Flip.Rule
import StyleFlip.Proofs.MirroredWords
import StyleFlip.Proofs.Printing
import StyleFlip.Proofs.RespelledTokens
import StyleFlip.Selector.Reader

/-!
# Selectors that flip back

Flipping a selector respells some of its tokens, and the respelled tokens are read as the flipped
selector. A second flip gives the selector back with its names in their regular letter case.
-/

namespace StyleFlip

open Text

namespace SelectorPart

def flip (options : FlipOptions) (part : SelectorPart) : SelectorPart :=
  let swapped := if options.swapPseudo then part.swapPseudo else part
  if options.flipSelectors then swapped.flipWords else swapped

/-- A part that flipping has nothing to do with. -/
def isFixed : SelectorPart → Bool
  | .pseudo _ => false
  | .className _ => false
  | .idName _ => false
  | .attr _ => false
  | _ => true

theorem flip_of_isFixed {part : SelectorPart} (h : part.isFixed = true) (options : FlipOptions) :
    part.flip options = part := by
  have hswap : part.swapPseudo = part := by cases part <;> first | rfl | contradiction
  have hwords : part.flipWords = part := by cases part <;> first | rfl | contradiction
  simp [flip, hswap, hwords]

/-- What becomes of the name of a class or an id, or of the value of an attribute. -/
def flipName (options : FlipOptions) (name : Text) : Text :=
  if options.flipSelectors then StyleFlip.flipWords name else name

theorem respelled_flipName (options : FlipOptions) (name : Text) :
    Respelled name (flipName options name) := by
  unfold flipName
  split
  · exact respelled_flipWords name
  · exact .refl name

theorem flip_className (options : FlipOptions) (name : Text) :
    flip options (.className name) = .className (flipName options name) := by
  unfold flip flipName
  cases options.swapPseudo <;> cases options.flipSelectors <;> rfl

theorem flip_idName (options : FlipOptions) (name : Text) :
    flip options (.idName name) = .idName (flipName options name) := by
  unfold flip flipName
  cases options.swapPseudo <;> cases options.flipSelectors <;> rfl

theorem flip_attr (options : FlipOptions) (a : Attribute) :
    flip options (.attr a) = .attr { a with value := flipName options a.value } := by
  unfold flip flipName
  cases options.swapPseudo <;> cases options.flipSelectors <;> rfl

/-- What becomes of a pseudo-element. -/
def flipPseudo (options : FlipOptions) (text : Text) : Text :=
  if options.swapPseudo then (splitPseudo text).1 ++ sidePseudos.flip (splitPseudo text).2 else text

theorem flip_pseudo (options : FlipOptions) (text : Text) :
    flip options (.pseudo text) = .pseudo (flipPseudo options text) := by
  unfold flip flipPseudo
  cases options.swapPseudo <;> cases options.flipSelectors <;> rfl

end SelectorPart

theorem Selector.value_flip (options : FlipOptions) (selector : Selector) :
    (Selector.flip options selector).value = selector.map (SelectorPart.flip options) := by
  unfold Selector.flip Edit.stepIf SelectorPart.flip
  cases options.swapPseudo with
  | false =>
      cases options.flipSelectors with
      | false => exact (List.map_id selector).symm
      | true => rfl
  | true =>
      cases options.flipSelectors with
      | false => rfl
      | true => exact List.map_map

/-! ### Flipping twice -/

theorem colon_not_mem_flip {name : Text} (h : ':' ∉ name) : ':' ∉ sidePseudos.flip name := by
  intro hmem
  cases hother : sidePseudos.counterpart? name with
  | none => exact h (by simpa [Pairs.flip, hother] using hmem)
  | some other =>
      obtain ⟨-, hname, -⟩ := Pairs.counterpart?_symm Pairs.isSound_sidePseudos hother
      have hrun : IsRun (sidePseudos.flip name) := by
        refine Pairs.isRun_of_isName ?_
        rw [Pairs.flip, hother, lower_inCaseOf, Pairs.lower_of_isName hname]
        exact hname
      exact absurd (hrun.2 ':' hmem) (by decide)

/-- The name of a pseudo-element is what stands after its last colon. -/
theorem splitPseudo_append {front name : Text} (h : ':' ∉ name) :
    splitPseudo (front ++ ':' :: name) = (front ++ [':'], name) := by
  simp [splitPseudo, breakLast_append_cons h]

theorem splitPseudo_of_not_mem {name : Text} (h : ':' ∉ name) : splitPseudo name = ([], name) := by
  simp [splitPseudo, breakLast_of_not_mem h]

theorem append_splitPseudo (text : Text) : (splitPseudo text).1 ++ (splitPseudo text).2 = text := by
  rcases breakLast_cases ':' text with ⟨-, hnot⟩ | ⟨front, name, -, rfl, hnot⟩
  · rw [splitPseudo_of_not_mem hnot]
    rfl
  · rw [splitPseudo_append hnot, List.append_assoc]
    rfl

theorem splitPseudo_flip (text : Text) :
    splitPseudo ((splitPseudo text).1 ++ sidePseudos.flip (splitPseudo text).2) =
      ((splitPseudo text).1, sidePseudos.flip (splitPseudo text).2) := by
  rcases breakLast_cases ':' text with ⟨-, hnot⟩ | ⟨front, name, -, rfl, hnot⟩
  · rw [splitPseudo_of_not_mem hnot]
    exact splitPseudo_of_not_mem (colon_not_mem_flip hnot)
  · rw [splitPseudo_append hnot, List.append_assoc]
    exact splitPseudo_append (colon_not_mem_flip hnot)

namespace SelectorPart

variable (options : FlipOptions)

def settleName (name : Text) : Text :=
  if options.flipSelectors then settleWords name else name

def settlePseudo (text : Text) : Text :=
  if options.swapPseudo then (splitPseudo text).1 ++ sidePseudos.settle (splitPseudo text).2 else text

/-- The part with the names and words that flipping it flips in their regular letter case. -/
def settle : SelectorPart → SelectorPart
  | .pseudo text => .pseudo (settlePseudo options text)
  | .className name => .className (settleName options name)
  | .idName name => .idName (settleName options name)
  | .attr a => .attr { a with value := settleName options a.value }
  | part => part

theorem flipName_flipName (name : Text) :
    flipName options (flipName options name) = settleName options name := by
  unfold flipName settleName
  cases options.flipSelectors with
  | false => rfl
  | true => exact flipWords_flipWords name

theorem settleName_flipName (name : Text) :
    settleName options (flipName options name) = flipName options name := by
  unfold flipName settleName
  cases options.flipSelectors with
  | false => rfl
  | true => exact settleWords_flipWords name

theorem flipPseudo_flipPseudo (text : Text) :
    flipPseudo options (flipPseudo options text) = settlePseudo options text := by
  unfold flipPseudo settlePseudo
  cases options.swapPseudo with
  | false => rfl
  | true =>
      simp only [if_true]
      rw [splitPseudo_flip, Pairs.flip_flip Pairs.isSound_sidePseudos]

theorem settlePseudo_flipPseudo (text : Text) :
    settlePseudo options (flipPseudo options text) = flipPseudo options text := by
  unfold flipPseudo settlePseudo
  cases options.swapPseudo with
  | false => rfl
  | true =>
      simp only [if_true]
      rw [splitPseudo_flip, Pairs.settle_flip Pairs.isSound_sidePseudos]

theorem flip_flip (part : SelectorPart) : (part.flip options).flip options = part.settle options := by
  by_cases hfixed : part.isFixed = true
  · rw [flip_of_isFixed hfixed, flip_of_isFixed hfixed]
    cases part <;> first | rfl | contradiction
  cases part with
  | pseudo text => rw [flip_pseudo, flip_pseudo, flipPseudo_flipPseudo, settle]
  | className name => rw [flip_className, flip_className, flipName_flipName, settle]
  | idName name => rw [flip_idName, flip_idName, flipName_flipName, settle]
  | attr a => rw [flip_attr, flip_attr, flipName_flipName, settle]
  | _ => exact absurd rfl hfixed

theorem settle_flip (part : SelectorPart) : (part.flip options).settle options = part.flip options := by
  by_cases hfixed : part.isFixed = true
  · rw [flip_of_isFixed hfixed]
    cases part <;> first | rfl | contradiction
  cases part with
  | pseudo text => rw [flip_pseudo, settle, settlePseudo_flipPseudo]
  | className name => rw [flip_className, settle, settleName_flipName]
  | idName name => rw [flip_idName, settle, settleName_flipName]
  | attr a => rw [flip_attr, settle, settleName_flipName]
  | _ => exact absurd rfl hfixed

/-- Every name and word that flipping the part flips has a letter case that allows to flip it
back. -/
def admits : SelectorPart → Bool
  | .pseudo text => !options.swapPseudo || sidePseudos.admits (splitPseudo text).2
  | .className name => !options.flipSelectors || admitsWords name
  | .idName name => !options.flipSelectors || admitsWords name
  | .attr a => !options.flipSelectors || admitsWords a.value
  | _ => true

variable {options}

theorem settleName_of_admits {name : Text}
    (h : (!options.flipSelectors || admitsWords name) = true) : settleName options name = name := by
  unfold settleName
  cases hoption : options.flipSelectors with
  | false => rfl
  | true => exact settleWords_of_admits (by simpa [hoption] using h)

theorem settle_of_admits {part : SelectorPart} (h : part.admits options = true) :
    part.settle options = part := by
  cases part with
  | pseudo text =>
      rw [settle, settlePseudo]
      split
      · rename_i hswap
        rw [Pairs.settle_of_admits (by simpa [admits, hswap] using h), append_splitPseudo]
      · rfl
  | className name => rw [settle, settleName_of_admits h]
  | idName name => rw [settle, settleName_of_admits h]
  | attr a => rw [settle, settleName_of_admits h]
  | _ => rfl

end SelectorPart

/-! ### Respelled tokens are read as the flipped selector -/

theorem respelledAll_cons_inv {t : Token} {ts us : List Token} (h : RespelledAll (t :: ts) us) :
    ∃ t' ts', us = t' :: ts' ∧ t'.kind = t.kind ∧ RespelledAll ts ts' := by
  cases h with
  | cons hkind _ _ h => exact ⟨_, _, rfl, hkind, h⟩

/-- A token with another text. -/
def Token.withText (t : Token) (text : Text) : Token := ⟨⟨t.kind, text⟩, t.span⟩

@[simp]
theorem Token.text_withText (t : Token) (text : Text) : (t.withText text).text = text := rfl

@[simp]
theorem Token.kind_withText (t : Token) (text : Text) : (t.withText text).kind = t.kind := rfl

theorem RespelledAll.withText {t : Token} {text : Text} {ts ts' : List Token}
    (htext : Respelled t.text text) (ht : t.isTrivia = false) (h : RespelledAll ts ts') :
    RespelledAll (t :: ts) (t.withText text :: ts') :=
  .cons rfl htext (by simp [ht]) h

theorem SelectorPart.exists_flip_pseudo (options : FlipOptions) (front x : Text) :
    ∃ x', Respelled x x' ∧
      flip options (.pseudo (front ++ ':' :: x)) = .pseudo (front ++ ':' :: x') := by
  have hsound := Pairs.respelled_flip Pairs.isSound_sidePseudos
  cases hswap : options.swapPseudo with
  | false => exact ⟨x, .refl x, by simp [flip, hswap, flipWords]⟩
  | true =>
      rcases breakLast_cases ':' x with ⟨-, hnot⟩ | ⟨before, name, -, rfl, hnot⟩
      · exact ⟨sidePseudos.flip x, hsound x,
          by simp [flip, hswap, swapPseudo, splitPseudo_append hnot, flipWords]⟩
      · refine ⟨before ++ ':' :: sidePseudos.flip name,
          (Respelled.refl before).append ((hsound name).keep ':'), ?_⟩
        have hsplit : splitPseudo (front ++ ':' :: (before ++ ':' :: name)) =
            (front ++ ':' :: before ++ [':'], name) := by
          rw [← List.cons_append, ← List.append_assoc]
          exact splitPseudo_append hnot
        simp [flip, hswap, swapPseudo, hsplit, flipWords]

theorem exists_pseudoPart_flip (options : FlipOptions) {colons : List Token} {front : Text}
    (hcolons : textOf colons = front ++ [':']) (rest : List Token) :
    ∃ used, ∀ after, RespelledAll (pseudoPart colons rest).2 after →
      pseudoPart colons (used ++ after) = ((pseudoPart colons rest).1.flip options, after) ∧
        RespelledAll rest (used ++ after) := by
  cases rest with
  | nil =>
      refine ⟨[], fun after hafter => ?_⟩
      cases hafter
      have hfixed : (pseudoPart colons []).1.isFixed = true := rfl
      exact ⟨by rw [SelectorPart.flip_of_isFixed hfixed]; rfl, .nil⟩
  | cons t rest =>
      by_cases hident : t.kind = .ident
      · obtain ⟨x, hx, hflip⟩ := SelectorPart.exists_flip_pseudo options front t.text
        refine ⟨[t.withText x], fun after hafter => ?_⟩
        simp only [pseudoPart, hident] at hafter
        refine ⟨?_, .withText hx (by simp [Token.isTrivia, hident]) hafter⟩
        simp [pseudoPart, hident, hcolons, hflip]
      by_cases hfunction : t.kind = .function
      · have hfixed : (pseudoPart colons (t :: rest)).1.isFixed = true := by
          simp only [pseudoPart, hfunction]
          rfl
        rw [SelectorPart.flip_of_isFixed hfixed]
        have happend := splitClosing_append .paren 0 rest
        obtain ⟨n, hdepth, hstop⟩ := exists_depth_of_splitClosing
          (show splitClosing .paren 0 rest = (_, _) from rfl)
        cases htail : (splitClosing .paren 0 rest).2 with
        | nil =>
            refine ⟨t :: rest, fun after hafter => ?_⟩
            simp only [pseudoPart, hfunction, htail, List.drop_nil] at hafter
            cases hafter
            rw [List.append_nil]
            refine ⟨?_, .refl _⟩
            simp [pseudoPart, hfunction, htail]
        | cons close more =>
            obtain ⟨rfl, hclose⟩ := hstop close more htail
            rw [htail] at happend
            refine ⟨t :: ((splitClosing .paren 0 rest).1 ++ [close]), fun after hafter => ?_⟩
            simp only [pseudoPart, hfunction, htail, List.drop_one, List.tail_cons] at hafter
            have hsplit : splitClosing .paren 0 ((splitClosing .paren 0 rest).1 ++ close :: after) =
                ((splitClosing .paren 0 rest).1, close :: after) :=
              splitClosing_of_stop hdepth close hclose after
            constructor
            · simp [pseudoPart, hfunction, hsplit, htail]
            · conv => lhs; rw [← happend]
              simpa using ((hafter.keep close).append_left _).keep t
      · have hread : ∀ u more, u.kind = t.kind →
            pseudoPart colons (u :: more) = (.other (textOf colons), u :: more) := by
          intro u more hu
          unfold pseudoPart
          dsimp only
          rw [hu]
          split
          · contradiction
          · contradiction
          · rfl
        refine ⟨[], fun after hafter => ?_⟩
        rw [hread t rest rfl] at hafter ⊢
        obtain ⟨u, more, rfl, hu, -⟩ := respelledAll_cons_inv hafter
        exact ⟨by rw [List.nil_append, hread u more hu, SelectorPart.flip_of_isFixed rfl], hafter⟩

/-- The value of an attribute is one token. -/
theorem Attribute.exists_value {f : Text → Text} (hf : ∀ text, Respelled text (f text))
    (tokens : List Token) :
    ∃ tokens', RespelledAll tokens tokens' ∧
      Attribute.read tokens' =
        { Attribute.read tokens with value := f (Attribute.read tokens).value } := by
  have hnil : f [] = [] := (hf []).eq_nil
  cases hequals : tokens.dropWhile (!·.isDelim '=') with
  | nil => exact ⟨tokens, .refl _, by simp [Attribute.read, hequals, hnil]⟩
  | cons equals after =>
      have hsplit := List.takeWhile_append_dropWhile (p := (!·.isDelim '=')) (l := tokens)
      have hafter := List.takeWhile_append_dropWhile (p := Token.isTrivia) (l := after)
      cases hvalue : after.dropWhile Token.isTrivia with
      | nil =>
          refine ⟨tokens, .refl _, ?_⟩
          simp [Attribute.read, hequals, hvalue, hnil]
      | cons v more =>
          have hv : v.isTrivia = false := by
            have hstop := List.head?_dropWhile_not Token.isTrivia after
            rw [hvalue] at hstop
            simpa using hstop
          have hdelim : equals.isDelim '=' = true := by
            have hstop := List.head?_dropWhile_not (!·.isDelim '=') tokens
            rw [hequals] at hstop
            simpa using hstop
          have hbefore : ∀ t ∈ tokens.takeWhile (!·.isDelim '='), (!t.isDelim '=') = true :=
            fun t ht => List.all_eq_true.mp List.all_takeWhile t ht
          have htrivia : ∀ t ∈ after.takeWhile Token.isTrivia, t.isTrivia = true :=
            fun t ht => List.all_eq_true.mp List.all_takeWhile t ht
          have hv' : (v.withText (f v.text)).isTrivia = false := hv
          refine ⟨tokens.takeWhile (!·.isDelim '=') ++ equals :: (after.takeWhile Token.isTrivia ++
            v.withText (f v.text) :: more), ?_, ?_⟩
          · conv => lhs; rw [← hsplit, hequals, ← hafter, hvalue]
            exact (((RespelledAll.withText (hf _) hv (.refl more)).append_left
              _).keep equals).append_left _
          · rw [Attribute.read, Attribute.read, hequals]
            simp [List.dropWhile_append_of_pos hbefore, List.takeWhile_append_of_pos hbefore,
              List.dropWhile_append_of_pos htrivia, List.takeWhile_append_of_pos htrivia, hdelim,
              hv', hvalue]

theorem exists_attributePart_flip (options : FlipOptions) (opening : Token) (rest : List Token) :
    ∃ used, ∀ after, RespelledAll (attributePart opening rest).2 after →
      attributePart opening (used ++ after) = ((attributePart opening rest).1.flip options, after) ∧
        RespelledAll rest (used ++ after) := by
  have hsplit := List.takeWhile_append_dropWhile (p := (·.kind != .closeBracket)) (l := rest)
  cases hclose : rest.dropWhile (·.kind != .closeBracket) with
  | nil =>
      have hread : attributePart opening rest = (.other (textOf (opening :: rest)), []) := by
        simp [attributePart, hclose]
      refine ⟨rest, fun after hafter => ?_⟩
      rw [hread] at hafter ⊢
      cases hafter
      rw [List.append_nil, hread, SelectorPart.flip_of_isFixed rfl]
      exact ⟨rfl, .refl rest⟩
  | cons close more =>
      have hbracket : close.kind = .closeBracket := by
        have hstop := List.head?_dropWhile_not (·.kind != .closeBracket) rest
        rw [hclose] at hstop
        simpa using hstop
      have hread : ∀ inside after : List Token, (∀ t ∈ inside, t.kind ≠ .closeBracket) →
          attributePart opening (inside ++ close :: after) = (.attr (Attribute.read inside), after) := by
        intro inside after hinside
        have hgoes : ∀ t ∈ inside, (t.kind != .closeBracket) = true := by simpa using hinside
        simp [attributePart, List.dropWhile_append_of_pos hgoes, List.takeWhile_append_of_pos hgoes,
          hbracket]
      have hinside : ∀ t ∈ rest.takeWhile (·.kind != .closeBracket), t.kind ≠ .closeBracket := by
        intro t ht
        simpa using List.all_eq_true.mp List.all_takeWhile t ht
      obtain ⟨inside', hrespelled, hflip⟩ :
          ∃ inside', RespelledAll (rest.takeWhile (·.kind != .closeBracket)) inside' ∧
            SelectorPart.attr (Attribute.read inside') = SelectorPart.flip options
              (.attr (Attribute.read (rest.takeWhile (·.kind != .closeBracket)))) := by
        obtain ⟨inside', hrespelled, hvalue⟩ :=
          Attribute.exists_value (SelectorPart.respelled_flipName options)
            (rest.takeWhile (·.kind != .closeBracket))
        exact ⟨inside', hrespelled, by rw [hvalue, SelectorPart.flip_attr]⟩
      have hinside' : ∀ t ∈ inside', t.kind ≠ .closeBracket := by
        intro t ht hkind
        have hmem : Kind.closeBracket ∈ inside'.map (·.kind) := List.mem_map.mpr ⟨t, ht, hkind⟩
        rw [hrespelled.kinds] at hmem
        obtain ⟨u, hu, hukind⟩ := List.mem_map.mp hmem
        exact hinside u hu hukind
      have hold : attributePart opening rest =
          (.attr (Attribute.read (rest.takeWhile (·.kind != .closeBracket))), more) := by
        conv => lhs; rw [← hsplit, hclose]
        exact hread _ more hinside
      refine ⟨inside' ++ [close], fun after hafter => ?_⟩
      rw [hold] at hafter ⊢
      rw [List.append_assoc, List.singleton_append, hread _ after hinside', hflip]
      refine ⟨rfl, ?_⟩
      conv => lhs; rw [← hsplit, hclose]
      exact hrespelled.append (hafter.keep close)

/-- Some tokens are the first ones respelled and are read as the first part flipped, whatever the
tokens after that part are respelled as. -/
def MirrorsPart (options : FlipOptions) (t : Token) (rest : List Token) : Prop :=
  ∃ t' used, ∀ after, RespelledAll (selectorPart t rest).2 after →
    selectorPart t' (used ++ after) = ((selectorPart t rest).1.flip options, after) ∧
      RespelledAll (t :: rest) (t' :: (used ++ after))

section FirstPart

variable (options : FlipOptions) {t : Token} {rest : List Token}

/-- A part of one token that stays as it is. -/
theorem mirrorsPart_of_isFixed (part : SelectorPart) (hfixed : part.isFixed = true)
    (hread : ∀ more, RespelledAll rest more → selectorPart t more = (part, more)) :
    MirrorsPart options t rest := by
  refine ⟨t, [], fun after hafter => ?_⟩
  rw [hread rest (.refl rest)] at hafter ⊢
  rw [List.nil_append, hread after hafter, SelectorPart.flip_of_isFixed hfixed]
  exact ⟨rfl, hafter.keep t⟩

theorem mirrorsPart_of_hash (hspelled : t.Spelled) (hkind : t.kind = .hash) :
    MirrorsPart options t rest := by
  have hname : t.text = '#' :: t.text.drop 1 := by
    rw [Lexeme.Spelled, hkind] at hspelled
    obtain ⟨c, name, hname⟩ := hspelled
    rw [hname]
    rfl
  refine ⟨t.withText ('#' :: SelectorPart.flipName options (t.text.drop 1)), [],
    fun after hafter => ?_⟩
  simp only [selectorPart, hkind] at hafter
  refine ⟨?_, .withText ?_ (by simp [Token.isTrivia, hkind]) hafter⟩
  · simp only [selectorPart, Token.kind_withText, hkind, SelectorPart.flip_idName]
    rfl
  · conv => lhs; rw [hname]
    exact (SelectorPart.respelled_flipName options _).keep '#'

theorem mirrorsPart_of_colon (hspelled : SpelledAll (t :: rest)) (hkind : t.kind = .colon) :
    MirrorsPart options t rest := by
  have hcolon : ∀ u : Token, u ∈ t :: rest → u.kind = .colon → u.text = [':'] := by
    intro u hu hukind
    exact Token.text_eq_of_sign (hspelled u hu) (by rw [hukind]; rfl)
  have hone : textOf [t] = [] ++ [':'] := by simp [hcolon t (by simp) hkind]
  cases rest with
  | nil =>
      obtain ⟨used, hused⟩ := exists_pseudoPart_flip options hone []
      refine ⟨t, used, fun after hafter => ?_⟩
      simp only [selectorPart, hkind] at hafter ⊢
      obtain ⟨hread, hrespelled⟩ := hused after hafter
      generalize used ++ after = all at hread hrespelled ⊢
      cases hrespelled
      exact ⟨hread, .refl _⟩
  | cons second more =>
      by_cases hsecond : second.kind = .colon
      · have htwo : textOf [t, second] = [':'] ++ [':'] := by
          simp [hcolon t (by simp) hkind, hcolon second (by simp) hsecond]
        obtain ⟨used, hused⟩ := exists_pseudoPart_flip options htwo more
        refine ⟨t, second :: used, fun after hafter => ?_⟩
        simp only [selectorPart, hkind, hsecond, beq_self_eq_true, if_true] at hafter
        obtain ⟨hread, hrespelled⟩ := hused after hafter
        refine ⟨?_, (hrespelled.keep second).keep t⟩
        simp [selectorPart, hkind, hsecond, hread]
      · have hread : ∀ u us, u.kind = second.kind →
            selectorPart t (u :: us) = pseudoPart [t] (u :: us) := by
          intro u us hu
          simp [selectorPart, hkind, hu, hsecond]
        obtain ⟨used, hused⟩ := exists_pseudoPart_flip options hone (second :: more)
        refine ⟨t, used, fun after hafter => ?_⟩
        rw [hread second more rfl] at hafter ⊢
        obtain ⟨hpart, hrespelled⟩ := hused after hafter
        obtain ⟨u, us, heq, hu, -⟩ := respelledAll_cons_inv hrespelled
        refine ⟨?_, hrespelled.keep t⟩
        rw [heq] at hpart ⊢
        rw [hread u us hu, hpart]

theorem mirrorsPart_of_openBracket (hkind : t.kind = .openBracket) : MirrorsPart options t rest := by
  obtain ⟨used, hused⟩ := exists_attributePart_flip options t rest
  refine ⟨t, used, fun after hafter => ?_⟩
  simp only [selectorPart, hkind] at hafter ⊢
  obtain ⟨hread, hrespelled⟩ := hused after hafter
  exact ⟨hread, hrespelled.keep t⟩

theorem mirrorsPart_of_delim (hkind : t.kind = .delim) : MirrorsPart options t rest := by
  have hfixed : (if isCombinator t then .combinator t.text else .other t.text :
      SelectorPart).isFixed = true := by
    split <;> rfl
  cases rest with
  | nil =>
      refine mirrorsPart_of_isFixed options _ hfixed fun more hmore => ?_
      cases hmore
      simp [selectorPart, hkind]
  | cons name more =>
      by_cases hclass : t.isDelim '.' = true ∧ name.kind = .ident
      · obtain ⟨hdot, hname⟩ := hclass
        refine ⟨t, [name.withText (SelectorPart.flipName options name.text)],
          fun after hafter => ?_⟩
        simp only [selectorPart, hkind, hdot, hname, beq_self_eq_true, Bool.and_self,
          if_true] at hafter
        refine ⟨by simp [selectorPart, hkind, hdot, hname, SelectorPart.flip_className], ?_⟩
        exact (RespelledAll.withText (SelectorPart.respelled_flipName options _)
          (by simp [Token.isTrivia, hname]) hafter).keep t
      · refine mirrorsPart_of_isFixed options _ hfixed fun us hus => ?_
        obtain ⟨u, us, rfl, hu, -⟩ := respelledAll_cons_inv hus
        have hnot : (t.isDelim '.' && u.kind == .ident) = false := by
          rw [hu]
          simpa using hclass
        simp only [selectorPart, hkind, hnot, Bool.false_eq_true, if_false]
        split <;> rfl

/-- Flipping one part of a selector respells the tokens it was read from. -/
theorem mirrorsPart (hspelled : SpelledAll (t :: rest)) : MirrorsPart options t rest := by
  cases hkind : t.kind with
  | hash => exact mirrorsPart_of_hash options (spelledAll_cons.mp hspelled).1 hkind
  | colon => exact mirrorsPart_of_colon options hspelled hkind
  | openBracket => exact mirrorsPart_of_openBracket options hkind
  | delim => exact mirrorsPart_of_delim options hkind
  | whitespace =>
      exact mirrorsPart_of_isFixed options (.whitespace t.text) rfl fun more _ => by
        simp [selectorPart, hkind]
  | comment =>
      exact mirrorsPart_of_isFixed options (.comment t.text) rfl fun more _ => by
        simp [selectorPart, hkind]
  | ident =>
      exact mirrorsPart_of_isFixed options (.element t.text) rfl fun more _ => by
        simp [selectorPart, hkind]
  | comma =>
      exact mirrorsPart_of_isFixed options .comma rfl fun more _ => by
        simp [selectorPart, hkind]
  | _ =>
      exact mirrorsPart_of_isFixed options (.other t.text) rfl fun more _ => by
        simp [selectorPart, hkind]

end FirstPart

/-- Flipping a selector respells its tokens. -/
theorem Selector.exists_respelledAll (options : FlipOptions) {ts : List Token}
    (hspelled : SpelledAll ts) :
    ∃ ts', RespelledAll ts ts' ∧
      Selector.read ts' = (Selector.flip options (Selector.read ts)).value := by
  rw [Selector.value_flip]
  fun_induction Selector.read ts with
  | case1 => exact ⟨[], .nil, by rw [Selector.read]; rfl⟩
  | case2 t rest next ih =>
      have hafter : SpelledAll (selectorPart t rest).2 := by
        have hsuffix := selectorPart_suffix t rest
        exact fun u hu => hspelled u (List.mem_cons_of_mem t (hsuffix.subset hu))
      obtain ⟨after, hrespelled, hread⟩ := ih hafter
      obtain ⟨t', used, hused⟩ := mirrorsPart options hspelled
      obtain ⟨hpart, hall⟩ := hused after hrespelled
      refine ⟨t' :: (used ++ after), hall, ?_⟩
      rw [Selector.read, hpart, hread]
      rfl

end StyleFlip
