import StyleFlip.Proofs.MirroredSheet
import StyleFlip.Proofs.PrefaceText

/-!
# Reading the flipped text

The text that a flip prints is read as the flipped stylesheet if, and only if, each flipped
declaration is read back when it stands in a rule by itself. All that can fail is a shorthand whose
components were moved: two of them may come to touch, or one that is not closed may swallow what
comes after it. Where components have blanks, comments or slashes between them and are closed, nothing
fails.
-/

namespace StyleFlip

open Lexer

namespace Declaration

/-- The text of a rule that holds the declaration and nothing else. -/
def alone (d : Declaration) : Text := 'a' :: '{' :: (d.render ++ ['}'])

/-- Reading the declaration in a rule by itself gives it back. -/
def ReadsBack (d : Declaration) : Prop :=
  ∃ r, Stylesheet.parse d.alone = [.rule r] ∧ r.body.map BodyItem.bare = [.declaration d.bare]

/-- The semicolon of a declaration that has one. -/
def semicolonToken? (d : Declaration) : Option Token :=
  if d.semicolon then some (.sign .semicolon ';') else none

theorem stopsAt_semicolonToken? (d : Declaration) : d.StopsAt d.semicolonToken? [] := by
  have hspelled : (Token.sign .semicolon ';').toLexeme.Spelled := ⟨_, rfl, rfl⟩
  unfold semicolonToken?
  split
  · rename_i hsemicolon
    exact ⟨hsemicolon, by simp, by rintro _ ⟨⟩; rfl, by rintro _ ⟨⟩; exact hspelled⟩
  · rename_i hsemicolon
    exact ⟨by simpa using hsemicolon, fun _ => rfl, by simp, by simp⟩

/-- The rule with one declaration, as an entry of an outline. -/
def aloneOutline (d : Declaration) (ts : List Token) : Outline :=
  .rule [.word ['a']] (.sign .openBrace '{') (Segment.content ts d.semicolonToken?).tokens
    (.sign .closeBrace '}')

namespace SpelledBy

variable {d : Declaration} {ts : List Token} (h : d.SpelledBy ts)

include h

theorem body_read :
    (Body.read (Segment.content ts d.semicolonToken?).tokens).map BodyItem.bare =
      [.declaration d.bare] := by
  have hstop := d.stopsAt_semicolonToken?
  have hproper : ProperSegments [.content ts d.semicolonToken?] := ⟨h.fits hstop, trivial⟩
  have hsegments := segments_flatMap_tokens _ hproper
  rw [List.flatMap_singleton] at hsegments
  rw [Body.read, hsegments, List.map_singleton, List.map_singleton, h.bare_ofSegment hstop]

theorem proper_alone : Outline.ProperAll [d.aloneOutline ts] := by
  have hbalanced := balanced_of_no_brace (h.noBraces_segment d.stopsAt_semicolonToken?) 0
  have hblock : Outline.RuleBlock [.word ['a']] (.sign .openBrace '{')
      (Segment.content ts d.semicolonToken?).tokens (.sign .closeBrace '}') :=
    ⟨⟨_, _, rfl, rfl⟩, rfl, rfl, hbalanced, rfl⟩
  exact ⟨hblock, trivial⟩

theorem stand_alone : Stand (Outline.tokensAll [d.aloneOutline ts]) [] := by
  have hword : (Token.word ['a']).toLexeme.StandsBefore ['{'] := ⟨_, _, rfl, rfl⟩
  have hopen : ∀ x, (Token.sign .openBrace '{').toLexeme.StandsBefore x :=
    Lexeme.standsBefore_of_sign? ⟨_, rfl, rfl⟩ rfl
  have hclose : ∀ x, (Token.sign .closeBrace '}').toLexeme.StandsBefore x :=
    Lexeme.standsBefore_of_sign? ⟨_, rfl, rfl⟩ rfl
  rw [Outline.tokensAll, Outline.tokensAll, List.append_nil, aloneOutline, Outline.tokens]
  refine ⟨hword.next (next_cons_of_isDecisive (by decide) _ _), hopen _, ?_⟩
  rw [stand_append]
  exact ⟨h.stand_segment d.stopsAt_semicolonToken? [], hclose _, trivial⟩

theorem textOf_alone : textOf (Outline.tokensAll [d.aloneOutline ts]) = d.alone := by
  have hsemicolon : textOf d.semicolonToken?.toList = if d.semicolon then [';'] else [] := by
    unfold semicolonToken?
    split <;> simp [Token.sign]
  simp [aloneOutline, Outline.tokensAll, Outline.tokens, Segment.tokens, alone, render, h.textOf_eq,
    hsemicolon, Token.word, Token.sign]

theorem readsBack : d.ReadsBack := by
  have hread := Stylesheet.unplaced_parse h.proper_alone h.stand_alone
  rw [h.textOf_alone, Stylesheet.unplaced, Item.unplacedAll_eq_map] at hread
  obtain ⟨item, hparse, hitem⟩ := List.map_eq_singleton_iff.mp hread
  cases item with
  | rule r =>
      have hrule := Item.rule.inj hitem
      have hbody : r.unplaced.body = _ := congrArg Rule.body hrule
      exact ⟨r, hparse, hbody.trans h.body_read⟩
  | _ => contradiction

end SpelledBy

end Declaration

/-- The declarations that a flip flips, in document order. -/
def Stylesheet.flippedDeclarations (sheet : Stylesheet) : List Declaration :=
  (Item.flippedRules false sheet).flatMap fun r => r.body.unguarded

/-! ### Declarations of a stylesheet that was read -/

/-- A declaration of a text, or one that differs from it in its span only, is spelled. -/
theorem Stylesheet.isSpelled_of_mem {css : Text} {r : Rule}
    (hrule : r ∈ Stylesheet.rules (Stylesheet.parse css)) {body : Body}
    (hbody : body.map BodyItem.bare = r.body.map BodyItem.bare) {d : Declaration}
    (hmem : d ∈ body.declarations) : d.IsSpelled := by
  have hstand := stand_tokenize css
  rw [← tokensAll_outline (tokenize css)] at hstand
  have hsame := (Body.glued_of_map_bare hbody).declarations
  have hbare : d.bare ∈ r.body.declarations.map Declaration.bare := by
    rw [← hsame]
    exact List.mem_map_of_mem hmem
  obtain ⟨d', hmem', hbare⟩ := List.mem_map.mp hbare
  obtain ⟨ts, hts⟩ := Outline.isSpelled_of_mem (properAll_outline (tokenize css)) hstand hrule hmem'
  exact ⟨ts, hts.of_bare hbare⟩

theorem Declaration.readsBack_iff {d : Declaration} : d.ReadsBack ↔ d.IsSpelled := by
  constructor
  · rintro ⟨r, hparse, hbody⟩
    have hrule : r ∈ Stylesheet.rules (Stylesheet.parse d.alone) := by
      rw [hparse]
      exact List.mem_singleton_self r
    have hbare : [BodyItem.declaration d].map BodyItem.bare = r.body.map BodyItem.bare := by
      rw [hbody]
      rfl
    exact Stylesheet.isSpelled_of_mem hrule hbare (List.mem_singleton_self d)
  · rintro ⟨ts, hts⟩
    exact hts.readsBack

/-! ### Declarations of a flipped stylesheet -/

theorem Body.mem_declarations_mapFrom (f : Declaration → Declaration) {guarded : Bool} {body : Body}
    {d : Declaration} (h : d ∈ unguardedFrom guarded body) :
    f d ∈ (mapFrom f guarded body).declarations := by
  induction body generalizing guarded with
  | nil => contradiction
  | cons item rest ih =>
      rw [unguardedFrom, List.mem_append] at h
      rw [mapFrom, declarations, List.filterMap_cons]
      rcases h with hitem | hrest
      · cases guarded with
        | true => contradiction
        | false =>
            cases item with
            | declaration d' =>
                obtain rfl : d = d' := by simpa [BodyItem.declaration?] using hitem
                exact List.mem_cons_self
            | _ => contradiction
      · have htail := ih hrest
        split
        · exact htail
        · exact List.mem_cons_of_mem _ htail

theorem Rule.mem_declarations_flip (options : FlipOptions) {r : Rule} {d : Declaration}
    (h : d ∈ r.body.unguarded) : (d.flip options).value ∈ (r.flip options).body.declarations := by
  rw [Body.unguarded_eq] at h
  rw [Rule.flip, Body.value_flip, Body.flipFrom_eq_mapFrom]
  exact Body.mem_declarations_mapFrom _ h

theorem Item.mem_rulesAll_flipAll (options : FlipOptions) {guarded : Bool} {items : List Item}
    {r : Rule} (h : r ∈ flippedRules guarded items) :
    r.flip options ∈ rulesAll (flipAll options guarded items) := by
  induction items using listInduction generalizing guarded with
  | nil => contradiction
  | rule r' rest ih =>
      rw [flippedRules_cons, List.mem_append] at h
      rw [flipAll, rulesAll, List.mem_append]
      refine h.imp (fun hmem => ?_) ih
      cases guarded with
      | true => contradiction
      | false =>
          obtain rfl := List.mem_singleton.mp hmem
          exact List.mem_singleton_self _
  | group head items rest ihitems ihrest =>
      rw [flippedRules_cons, List.mem_append] at h
      rw [flipAll, rulesAll, List.mem_append]
      refine h.imp (fun hmem => ?_) ihrest
      cases guarded with
      | true => contradiction
      | false => exact ihitems hmem
  | plain item rest hplain ih =>
      rw [flippedRules_cons, gather_of_isPlain hplain] at h
      rw [flipAll, rulesAll, List.mem_append]
      exact Or.inr (ih h)

theorem Item.rulesAll_unplacedAll (items : List Item) :
    rulesAll (unplacedAll items) = (rulesAll items).map Rule.unplaced := by
  induction items using listInduction with
  | nil => rfl
  | rule r rest ih => rw [unplacedAll, rulesAll, rulesAll, List.map_append, ih]; rfl
  | group head items rest ihitems ihrest =>
      rw [unplacedAll, rulesAll, rulesAll, List.map_append, ihrest, unplaced, rules, rules, ihitems]
  | plain item rest hplain ih =>
      have hplain' : item.unplaced.isPlain = true := by rw [isPlain_unplaced, hplain]
      rw [unplacedAll, rulesAll, rulesAll, rules_of_isPlain hplain, rules_of_isPlain hplain', ih]
      rfl

/-! ### The flipped text -/

theorem Stylesheet.readsBack_of_unplaced_parse {css : Text} {sheet : Stylesheet}
    {options : FlipOptions}
    (h : Stylesheet.unplaced (Stylesheet.parse css) =
      Stylesheet.unplaced (Stylesheet.flip options sheet)) {d : Declaration}
    (hd : d ∈ Stylesheet.flippedDeclarations sheet) : (d.flip options).value.ReadsBack := by
  obtain ⟨r, hr, hmem⟩ := List.mem_flatMap.mp hd
  have hrules : (Stylesheet.rules (Stylesheet.parse css)).map Rule.unplaced =
      (Stylesheet.rules (Stylesheet.flip options sheet)).map Rule.unplaced := by
    rw [Stylesheet.rules, Stylesheet.rules, ← Item.rulesAll_unplacedAll, ← Item.rulesAll_unplacedAll]
    exact congrArg Item.rulesAll h
  have hflipped : (r.flip options).unplaced ∈
      (Stylesheet.rules (Stylesheet.parse css)).map Rule.unplaced := by
    rw [hrules]
    exact List.mem_map_of_mem (Item.mem_rulesAll_flipAll options hr)
  obtain ⟨r', hr', hsame⟩ := List.mem_map.mp hflipped
  have hbody : (r.flip options).unplaced.body = r'.unplaced.body := by rw [hsame]
  exact Declaration.readsBack_iff.mpr
    (Stylesheet.isSpelled_of_mem hr' hbody (Rule.mem_declarations_flip options hmem))

theorem unplaced_parse_flip {css : Text} {options : FlipOptions}
    (h : ∀ d ∈ Stylesheet.flippedDeclarations (Stylesheet.parse css),
      (d.flip options).value.ReadsBack) :
    Stylesheet.unplaced (Stylesheet.parse (flip css options).css) =
      Stylesheet.unplaced (Stylesheet.flip options (Stylesheet.parse css)) := by
  have hstand := stand_tokenize css
  rw [← tokensAll_outline (tokenize css)] at hstand
  have hspelled : ∀ r ∈ Item.flippedRules false (Stylesheet.parse css), ∀ d ∈ r.body.unguarded,
      (d.flip options).value.IsSpelled :=
    fun r hr d hd => Declaration.readsBack_iff.mp (h d (List.mem_flatMap.mpr ⟨r, hr, hd⟩))
  obtain ⟨es, hback⟩ := Outline.exists_mirrored_of_isSpelled options
    (properAll_outline (tokenize css)) hstand hspelled
  have hfresh := Item.fresh_flipAll options false _ (Stylesheet.fresh_parse css)
  have htext : (flip css options).css = textOf (Outline.tokensAll es) := hback.renderAll_eq hfresh
  rw [htext, Stylesheet.unplaced_parse hback.proper hback.stand]
  exact hback.same.symm

theorem Declaration.readsBack_flip {css : Text} {options : FlipOptions} {d : Declaration}
    (hd : d ∈ Stylesheet.flippedDeclarations (Stylesheet.parse css)) (hmove : d.canMove = true) :
    (d.flip options).value.ReadsBack := by
  obtain ⟨r, hr, hmem⟩ := List.mem_flatMap.mp hd
  obtain ⟨ts, hts⟩ := Stylesheet.isSpelled_of_mem (Item.mem_rulesAll_of_mem_flippedRules hr) rfl
    (Body.mem_declarations_of_mem_unguarded hmem)
  exact Declaration.readsBack_iff.mpr (hts.flip hmove options)

/-- The text that a flip prints is read as the flipped stylesheet, up to spans and source texts, if
and only if each flipped declaration is read back by itself. Those whose components can be moved
are. -/
theorem unplaced_parse_flip_iff (css : Text) (options : FlipOptions) :
    (Stylesheet.unplaced (Stylesheet.parse (flip css options).css) =
        Stylesheet.unplaced (Stylesheet.flip options (Stylesheet.parse css)) ↔
      ∀ d ∈ Stylesheet.flippedDeclarations (Stylesheet.parse css),
        (d.flip options).value.ReadsBack) ∧
    ∀ d ∈ Stylesheet.flippedDeclarations (Stylesheet.parse css),
      d.canMove = true → (d.flip options).value.ReadsBack := by
  refine ⟨⟨?_, unplaced_parse_flip⟩, ?_⟩
  · exact fun hsame d hd => Stylesheet.readsBack_of_unplaced_parse hsame hd
  · exact fun d hd hmove => Declaration.readsBack_flip hd hmove

theorem unplaced_parse_flip_shorthands :
    let css := ".left\x7bborder-radius:1px 2px 3px/4px;margin:1px 2px/**/3px 4px\x7d".toList
    Stylesheet.unplaced (Stylesheet.parse (flip css {}).css) =
      Stylesheet.unplaced (Stylesheet.flip {} (Stylesheet.parse css)) := by
  intro css
  have hmove : (Stylesheet.flippedDeclarations (Stylesheet.parse css)).all
      Declaration.canMove = true := by
    decide +kernel
  obtain ⟨hiff, hback⟩ := unplaced_parse_flip_iff css {}
  exact hiff.mpr fun d hd => hback d hd (List.all_eq_true.mp hmove d hd)

/-- Two lengths that nothing stands between are read as one once they have changed places. -/
theorem lengths_grow_together :
    let css := "a\x7bmargin:1px 2px 3px+4px\x7d".toList
    Stylesheet.unplaced (Stylesheet.parse (flip css {}).css) ≠
      Stylesheet.unplaced (Stylesheet.flip {} (Stylesheet.parse css)) := by
  intro css hsame
  have hrules := congrArg Stylesheet.rules hsame
  exact absurd hrules (by decide +kernel)

end StyleFlip
