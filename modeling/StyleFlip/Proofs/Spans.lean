import StyleFlip.Proofs.Items
import StyleFlip.Proofs.ProperOutline
import StyleFlip.Sheet.Reader

/-!
# Reading passes spans on

The readers copy and join spans and decide nothing by them. So they can be exchanged with every
function on spans that keeps joins: reading tokens with other spans gives what reading the tokens
gives, with these spans instead (`Body.read_mapSpans`, `Item.ofOutlines_outline_mapSpans`).
-/

namespace StyleFlip

/-- A function on spans that can be applied before or after spans are joined. -/
structure Span.KeepsJoin (f : Span → Span) : Prop where
  unknown : f .unknown = .unknown
  join : ∀ a b, f (a.join b) = (f a).join (f b)

variable {f : Span → Span}

def Token.mapSpan (f : Span → Span) (t : Token) : Token := { t with span := f t.span }

@[simp]
theorem Token.kind_mapSpan (t : Token) : (t.mapSpan f).kind = t.kind := rfl

@[simp]
theorem Token.text_mapSpan (t : Token) : (t.mapSpan f).text = t.text := rfl

@[simp]
theorem Token.isTrivia_mapSpan (t : Token) : (t.mapSpan f).isTrivia = t.isTrivia := rfl

@[simp]
theorem Token.isDelim_mapSpan (t : Token) (c : Char) : (t.mapSpan f).isDelim c = t.isDelim c := rfl

def mapSpans (f : Span → Span) (ts : List Token) : List Token := ts.map (Token.mapSpan f)

@[simp]
theorem mapSpans_nil : mapSpans f [] = [] := rfl

@[simp]
theorem mapSpans_cons (t : Token) (ts : List Token) :
    mapSpans f (t :: ts) = t.mapSpan f :: mapSpans f ts := rfl

@[simp]
theorem mapSpans_append (a b : List Token) :
    mapSpans f (a ++ b) = mapSpans f a ++ mapSpans f b := by
  simp [mapSpans]

@[simp]
theorem textOf_mapSpans (ts : List Token) : textOf (mapSpans f ts) = textOf ts := by
  induction ts with
  | nil => rfl
  | cons t ts ih => simp [ih]

theorem spanOf_mapSpans (hf : Span.KeepsJoin f) (ts : List Token) :
    spanOf (mapSpans f ts) = f (spanOf ts) := by
  cases ts with
  | nil => exact hf.unknown.symm
  | cons t ts =>
      obtain ⟨last, hlast⟩ : ∃ last, (t :: ts).getLast? = some last :=
        ⟨_, List.getLast?_eq_some_getLast (List.cons_ne_nil t ts)⟩
      simp only [spanOf, mapSpans, List.head?_map, List.getLast?_map, hlast, List.head?_cons,
        Option.map_some]
      exact (hf.join t.span last.span).symm

theorem takeWhile_mapSpans {p : Token → Bool} (hp : ∀ t : Token, p (t.mapSpan f) = p t)
    (ts : List Token) : (mapSpans f ts).takeWhile p = mapSpans f (ts.takeWhile p) := by
  rw [mapSpans, List.takeWhile_map, show p ∘ Token.mapSpan f = p from funext hp, mapSpans]

theorem dropWhile_mapSpans {p : Token → Bool} (hp : ∀ t : Token, p (t.mapSpan f) = p t)
    (ts : List Token) : (mapSpans f ts).dropWhile p = mapSpans f (ts.dropWhile p) := by
  rw [mapSpans, List.dropWhile_map, show p ∘ Token.mapSpan f = p from funext hp, mapSpans]

theorem take_mapSpans (n : Nat) (ts : List Token) :
    (mapSpans f ts).take n = mapSpans f (ts.take n) := by
  rw [mapSpans, mapSpans, List.map_take]

theorem tail_mapSpans (ts : List Token) : (mapSpans f ts).tail = mapSpans f ts.tail := by
  cases ts <;> rfl

/-! ### Cuts -/

@[simp]
theorem map_cons_mapSpans (t : Token) (p : List Token × List Token) :
    Prod.map (t.mapSpan f :: ·) id (Prod.map (mapSpans f) (mapSpans f) p) =
      Prod.map (mapSpans f) (mapSpans f) (Prod.map (t :: ·) id p) := rfl

theorem splitPrelude_mapSpans (depth : Nat) (ts : List Token) :
    splitPrelude depth (mapSpans f ts) =
      Prod.map (mapSpans f) (mapSpans f) (splitPrelude depth ts) := by
  fun_induction splitPrelude depth ts with
  | case1 => rfl
  | case2 depth t ts hends => simp [splitPrelude, hends]
  | case3 depth t ts hends ih => simp [splitPrelude, hends, ih]

theorem splitClosing_mapSpans (bracket : Bracket) (depth : Nat) (ts : List Token) :
    splitClosing bracket depth (mapSpans f ts) =
      Prod.map (mapSpans f) (mapSpans f) (splitClosing bracket depth ts) := by
  fun_induction splitClosing bracket depth ts with
  | case1 => rfl
  | case2 t ts hcloses => simp [splitClosing, hcloses]
  | case3 t ts hcloses depth ih => simp [splitClosing, hcloses, ih]
  | case4 depth t ts hcloses hopens ih => simp [splitClosing, hcloses, hopens, ih]
  | case5 depth t ts hcloses hopens ih => simp [splitClosing, hcloses, hopens, ih]

theorem splitSegment_mapSpans (depth braces : Nat) (ts : List Token) :
    splitSegment depth braces (mapSpans f ts) =
      Prod.map (mapSpans f) (mapSpans f) (splitSegment depth braces ts) := by
  fun_induction splitSegment depth braces ts with
  | case1 => rfl
  | case2 depth braces t ts hends => simp [splitSegment, hends]
  | case3 depth braces t ts hgoes hclose hbraces => simp [splitSegment, hclose, hbraces]
  | case4 depth braces t ts hgoes hclose hmany ih => simp [splitSegment, hclose, hmany, ih]
  | case5 depth braces t ts hgoes hclose hopen ih => simp [splitSegment, hopen, ih]
  | case6 depth braces t ts hgoes hclose hopen ih => simp [splitSegment, hgoes, hclose, hopen, ih]

/-! ### Values and selectors -/

theorem Value.read_mapSpans (ts : List Token) : Value.read (mapSpans f ts) = Value.read ts := by
  fun_induction Value.read ts with
  | case1 => simp [Value.read]
  | case2 t ts hopens split ihargs ihrest =>
      have hempty : (mapSpans f split.2).isEmpty = split.2.isEmpty := by cases split.2 <;> rfl
      rw [mapSpans_cons, Value.read]
      simp only [Token.kind_mapSpan, hopens, if_true, splitClosing_mapSpans, Prod.map_fst,
        Prod.map_snd, Token.text_mapSpan]
      rw [tail_mapSpans, ihargs, ihrest, hempty]
  | case3 t ts hopens ih =>
      rw [mapSpans_cons, Value.read]
      simp [hopens, ih]

theorem splitMatcherMark_mapSpans (ts : List Token) :
    splitMatcherMark (mapSpans f ts) =
      Prod.map (mapSpans f) (mapSpans f) (splitMatcherMark ts) := by
  have hlast : (mapSpans f ts).getLast? = ts.getLast?.map (Token.mapSpan f) := by
    rw [mapSpans, List.getLast?_map]
  unfold splitMatcherMark
  rw [hlast]
  cases ts.getLast? with
  | none => rfl
  | some mark =>
      have hmark : isMatcherMark (mark.mapSpan f) = isMatcherMark mark := rfl
      have hdrop : (mapSpans f ts).dropLast = mapSpans f ts.dropLast := by
        rw [mapSpans, mapSpans, List.map_dropLast]
      simp only [Option.map_some, hmark, hdrop]
      split <;> rfl

theorem Attribute.read_mapSpans (ts : List Token) :
    Attribute.read (mapSpans f ts) = Attribute.read ts := by
  unfold Attribute.read
  rw [dropWhile_mapSpans (fun _ => rfl), takeWhile_mapSpans (fun _ => rfl)]
  cases ts.dropWhile (!Token.isDelim '=' ·) with
  | nil => simp
  | cons equals after =>
      simp only [mapSpans_cons, splitMatcherMark_mapSpans, Prod.map_fst, Prod.map_snd]
      rw [dropWhile_mapSpans (fun _ => rfl), takeWhile_mapSpans (fun _ => rfl)]
      simp [take_mapSpans, tail_mapSpans]

theorem pseudoPart_mapSpans (colons rest : List Token) :
    pseudoPart (mapSpans f colons) (mapSpans f rest) =
      Prod.map id (mapSpans f) (pseudoPart colons rest) := by
  cases rest with
  | nil => simp [pseudoPart]
  | cons t after =>
      simp only [pseudoPart, mapSpans_cons, Token.kind_mapSpan]
      split
      · simp
      · simp [splitClosing_mapSpans, take_mapSpans, tail_mapSpans]
      · simp

theorem attributePart_mapSpans (opening : Token) (rest : List Token) :
    attributePart (opening.mapSpan f) (mapSpans f rest) =
      Prod.map id (mapSpans f) (attributePart opening rest) := by
  unfold attributePart
  rw [dropWhile_mapSpans (fun _ => rfl), takeWhile_mapSpans (fun _ => rfl)]
  cases rest.dropWhile (·.kind != .closeBracket) with
  | nil => simp
  | cons closing after => simp [Attribute.read_mapSpans]

theorem selectorPart_mapSpans (t : Token) (rest : List Token) :
    selectorPart (t.mapSpan f) (mapSpans f rest) =
      Prod.map id (mapSpans f) (selectorPart t rest) := by
  unfold selectorPart
  simp only [Token.kind_mapSpan]
  split
  · rfl
  · rfl
  · rfl
  · rfl
  · rfl
  · cases rest with
    | nil => exact pseudoPart_mapSpans [t] []
    | cons second after =>
        by_cases hkind : (second.kind == .colon) = true
        · simp only [mapSpans_cons, Token.kind_mapSpan, hkind, if_true]
          exact pseudoPart_mapSpans [t, second] after
        · simp only [mapSpans_cons, Token.kind_mapSpan, hkind]
          exact pseudoPart_mapSpans [t] (second :: after)
  · exact attributePart_mapSpans t rest
  · have hcombinator : isCombinator (t.mapSpan f) = isCombinator t := rfl
    cases rest with
    | nil => simp [hcombinator]
    | cons name after =>
        simp only [mapSpans_cons, Token.kind_mapSpan, Token.isDelim_mapSpan, hcombinator]
        split
        · rfl
        · split <;> rfl
  · rfl

theorem Selector.read_mapSpans (ts : List Token) :
    Selector.read (mapSpans f ts) = Selector.read ts := by
  fun_induction Selector.read ts with
  | case1 => simp [Selector.read]
  | case2 t rest next ih =>
      rw [mapSpans_cons, Selector.read]
      simp only [selectorPart_mapSpans, Prod.map_fst, Prod.map_snd, id]
      rw [ih]

/-! ### Bodies -/

def Segment.mapSpans (f : Span → Span) : Segment → Segment
  | .whitespace t => .whitespace (t.mapSpan f)
  | .comment t => .comment (t.mapSpan f)
  | .content ts semicolon => .content (StyleFlip.mapSpans f ts) (semicolon.map (Token.mapSpan f))

theorem Segment.front_mapSpans (t : Token) (ts : List Token) :
    front (t.mapSpan f) (StyleFlip.mapSpans f ts) =
      Prod.map (mapSpans f) (StyleFlip.mapSpans f) (front t ts) := by
  unfold front
  simp only [Token.kind_mapSpan]
  split
  · rfl
  · rfl
  · rw [← mapSpans_cons, splitSegment_mapSpans]
    cases splitSegment 0 0 (t :: ts) with
    | mk inner rest =>
        cases rest with
        | nil => rfl
        | cons stop rest =>
            by_cases hstop : stop.kind = .semicolon <;> simp [hstop, Segment.mapSpans]

theorem segments_mapSpans (ts : List Token) :
    segments (mapSpans f ts) = (segments ts).map (Segment.mapSpans f) := by
  fun_induction segments ts with
  | case1 => simp [segments]
  | case2 t ts next ih =>
      rw [mapSpans_cons, segments]
      simp only [Segment.front_mapSpans, Prod.map_fst, Prod.map_snd, List.map_cons]
      rw [ih]

def Declaration.mapSpan (f : Span → Span) (d : Declaration) : Declaration :=
  { d with span := f d.span }

def BodyItem.mapSpan (f : Span → Span) : BodyItem → BodyItem
  | .declaration d => .declaration (d.mapSpan f)
  | .comment c => .comment { c with span := f c.span }
  | .whitespace text => .whitespace text
  | .raw r => .raw { r with span := f r.span }

theorem Declaration.read?_mapSpans (hf : Span.KeepsJoin f) (ts : List Token) (semicolon : Bool) :
    Declaration.read? (mapSpans f ts) semicolon =
      (Declaration.read? ts semicolon).map (Declaration.mapSpan f) := by
  have hspan := spanOf_mapSpans hf ts
  cases ts with
  | nil => rfl
  | cons property rest =>
      rw [mapSpans_cons] at hspan ⊢
      simp only [Declaration.read?]
      by_cases hkind : property.kind = .ident
      · rw [if_pos hkind, if_pos (show (property.mapSpan f).kind = .ident from hkind),
          dropWhile_mapSpans (fun _ => rfl), takeWhile_mapSpans (fun _ => rfl)]
        cases rest.dropWhile Token.isTrivia with
        | nil => rfl
        | cons colon after =>
            simp only [mapSpans_cons]
            by_cases hcolon : colon.kind = .colon
            · rw [if_pos hcolon, if_pos (show (colon.mapSpan f).kind = .colon from hcolon),
                dropWhile_mapSpans (fun _ => rfl), takeWhile_mapSpans (fun _ => rfl),
                Value.read_mapSpans, hspan]
              simp [Declaration.mapSpan]
            · rw [if_neg hcolon, if_neg (show (colon.mapSpan f).kind ≠ .colon from hcolon),
                Option.map_none]
      · rw [if_neg hkind, if_neg (show (property.mapSpan f).kind ≠ .ident from hkind),
          Option.map_none]

theorem Segment.declaration?_mapSpans (hf : Span.KeepsJoin f) (segment : Segment) :
    (segment.mapSpans f).declaration? = segment.declaration?.map (Declaration.mapSpan f) := by
  cases segment with
  | whitespace t => rfl
  | comment t => rfl
  | content ts semicolon =>
      have hany : (StyleFlip.mapSpans f ts).any (·.kind == .openBrace) =
          ts.any (·.kind == .openBrace) := by
        rw [StyleFlip.mapSpans, List.any_map]
        rfl
      simp only [Segment.mapSpans, Segment.declaration?, hany, Option.isSome_map]
      split
      · rfl
      · exact Declaration.read?_mapSpans hf ts _

theorem BodyItem.ofSegment_mapSpans (hf : Span.KeepsJoin f) (segment : Segment) :
    BodyItem.ofSegment (segment.mapSpans f) = (BodyItem.ofSegment segment).mapSpan f := by
  cases segment with
  | whitespace t => rfl
  | comment t => rfl
  | content ts semicolon =>
      have hread := Segment.declaration?_mapSpans hf (.content ts semicolon)
      have htokens : mapSpans f ts ++ (semicolon.map (Token.mapSpan f)).toList =
          mapSpans f (ts ++ semicolon.toList) := by cases semicolon <;> simp
      simp only [Segment.mapSpans] at hread ⊢
      simp only [BodyItem.ofSegment, hread, htokens, textOf_mapSpans, spanOf_mapSpans hf]
      cases (Segment.content ts semicolon).declaration? <;> rfl

theorem Body.read_mapSpans (hf : Span.KeepsJoin f) (ts : List Token) :
    Body.read (mapSpans f ts) = (Body.read ts).map (BodyItem.mapSpan f) := by
  simp only [Body.read, segments_mapSpans, List.map_map]
  exact List.map_congr_left fun segment _ => BodyItem.ofSegment_mapSpans hf segment

/-! ### Outlines -/

namespace Outline

mutual

def mapSpans (f : Span → Span) : Outline → Outline
  | .whitespace t => .whitespace (t.mapSpan f)
  | .comment t => .comment (t.mapSpan f)
  | .raw cause ts => .raw cause (StyleFlip.mapSpans f ts)
  | .rule selector opening body closing =>
    .rule (StyleFlip.mapSpans f selector) (opening.mapSpan f) (StyleFlip.mapSpans f body)
      (closing.mapSpan f)
  | .statement keyword params semicolon =>
    .statement (keyword.mapSpan f) (StyleFlip.mapSpans f params) (semicolon.map (Token.mapSpan f))
  | .verbatim keyword params opening block closing =>
    .verbatim (keyword.mapSpan f) (StyleFlip.mapSpans f params) (opening.mapSpan f)
      (StyleFlip.mapSpans f block) (closing.mapSpan f)
  | .group keyword params opening items closing =>
    .group (keyword.mapSpan f) (StyleFlip.mapSpans f params) (opening.mapSpan f)
      (mapSpansAll f items) (closing.mapSpan f)

def mapSpansAll (f : Span → Span) : List Outline → List Outline
  | [] => []
  | entry :: rest => mapSpans f entry :: mapSpansAll f rest

end

theorem atRule_mapSpans (keyword : Token) (ts : List Token) :
    atRule (keyword.mapSpan f) (StyleFlip.mapSpans f ts) =
      Prod.map (mapSpans f) (StyleFlip.mapSpans f) (atRule keyword ts) := by
  unfold atRule
  rw [splitPrelude_mapSpans]
  cases splitPrelude 0 ts with
  | mk params rest =>
      cases rest with
      | nil => rfl
      | cons stop after =>
          simp only [Prod.map, mapSpans_cons, Token.kind_mapSpan]
          split
          · rfl
          · rw [splitClosing_mapSpans]
            cases splitClosing .brace 0 after with
            | mk block rest =>
                cases rest with
                | nil => simp [Prod.map, mapSpans]
                | cons closing rest => rfl
          · rfl

theorem styleRule_mapSpans (ts : List Token) :
    styleRule (StyleFlip.mapSpans f ts) =
      Prod.map (mapSpans f) (StyleFlip.mapSpans f) (styleRule ts) := by
  unfold styleRule
  rw [splitPrelude_mapSpans]
  cases splitPrelude 0 ts with
  | mk selector rest =>
      cases rest with
      | nil => rfl
      | cons stop after =>
          simp only [Prod.map, mapSpans_cons, Token.kind_mapSpan]
          split
          · simp [mapSpans]
          · rw [splitClosing_mapSpans]
            cases splitClosing .brace 0 after with
            | mk body rest =>
                cases rest with
                | nil => simp [Prod.map, mapSpans]
                | cons closing rest => rfl
          · rfl

theorem front_mapSpans (t : Token) (ts : List Token) :
    front (t.mapSpan f) (StyleFlip.mapSpans f ts) =
      Prod.map (mapSpans f) (StyleFlip.mapSpans f) (front t ts) := by
  unfold front
  simp only [Token.kind_mapSpan]
  split
  · rfl
  · rfl
  · rfl
  · exact atRule_mapSpans t ts
  · exact styleRule_mapSpans (t :: ts)

end Outline

open Outline in
theorem outline_mapSpans (ts : List Token) :
    outline (StyleFlip.mapSpans f ts) = mapSpansAll f (outline ts) := by
  fun_induction outline ts with
  | case1 => simp [outline, mapSpansAll]
  | case2 t ts keyword params opening block closing rest hfront hgrouping ihblock ihrest =>
      have hmapped := front_mapSpans (f := f) t ts
      rw [hfront] at hmapped
      rw [mapSpans_cons, outline_of_front_verbatim hmapped,
        if_pos (show isGrouping (keyword.mapSpan f) = true from hgrouping), ihblock, ihrest,
        mapSpansAll, Outline.mapSpans]
  | case3 t ts keyword params opening block closing rest hfront hgrouping ih =>
      have hmapped := front_mapSpans (f := f) t ts
      rw [hfront] at hmapped
      rw [mapSpans_cons, outline_of_front_verbatim hmapped,
        if_neg (show ¬ isGrouping (keyword.mapSpan f) = true from hgrouping), ih, mapSpansAll,
        Outline.mapSpans]
  | case4 t ts entry rest hother hfront ih =>
      have hmapped := front_mapSpans (f := f) t ts
      rw [hfront] at hmapped
      rw [mapSpans_cons, outline_of_front hmapped ?_, ih, mapSpansAll]
      intro keyword params opening block closing heq
      cases entry with
      | verbatim => exact hother _ _ _ _ _ rfl
      | _ => simp [Outline.mapSpans] at heq

/-! ### Stylesheets -/

def Rule.mapSpans (f : Span → Span) (r : Rule) : Rule :=
  { r with body := r.body.map (BodyItem.mapSpan f), span := f r.span }

def AtHead.mapSpan (f : Span → Span) (head : AtHead) : AtHead := { head with span := f head.span }

namespace Item

mutual

/-- Replaces the spans of an item, at any depth. -/
def mapSpans (f : Span → Span) : Item → Item
  | .rule r => .rule (r.mapSpans f)
  | .statement head semicolon => .statement (head.mapSpan f) semicolon
  | .verbatim head block => .verbatim (head.mapSpan f) block
  | .group head items => .group (head.mapSpan f) (mapSpansAll f items)
  | .comment c => .comment { c with span := f c.span }
  | .whitespace text => .whitespace text
  | .raw r => .raw { r with span := f r.span }

def mapSpansAll (f : Span → Span) : List Item → List Item
  | [] => []
  | item :: rest => mapSpans f item :: mapSpansAll f rest

end

end Item

theorem Rule.read_mapSpans (hf : Span.KeepsJoin f) (selector : List Token) (opening : Token)
    (body : List Token) (closing : Token) :
    Rule.read (StyleFlip.mapSpans f selector) (opening.mapSpan f) (StyleFlip.mapSpans f body)
        (closing.mapSpan f) =
      (Rule.read selector opening body closing).mapSpans f := by
  have htokens : StyleFlip.mapSpans f selector ++ opening.mapSpan f ::
      (StyleFlip.mapSpans f body ++ [closing.mapSpan f]) =
      StyleFlip.mapSpans f (selector ++ opening :: (body ++ [closing])) := by simp
  rw [Rule.read, Rule.read, htokens, Selector.read_mapSpans, Body.read_mapSpans hf,
    spanOf_mapSpans hf, textOf_mapSpans, Rule.mapSpans]

theorem Item.ofOutline_mapSpans (hf : Span.KeepsJoin f) {entry : Outline}
    (hother : ∀ keyword params opening items closing,
      entry ≠ .group keyword params opening items closing) :
    ofOutline (entry.mapSpans f) = (ofOutline entry).mapSpans f := by
  cases entry with
  | group => exact absurd rfl (hother _ _ _ _ _)
  | rule selector opening body closing =>
      exact congrArg Item.rule (Rule.read_mapSpans hf selector opening body closing)
  | statement keyword params semicolon =>
      have htokens : keyword.mapSpan f :: (StyleFlip.mapSpans f params ++
          (semicolon.map (Token.mapSpan f)).toList) =
          StyleFlip.mapSpans f (keyword :: (params ++ semicolon.toList)) := by
        cases semicolon <;> simp
      simp only [Outline.mapSpans, ofOutline, htokens, spanOf_mapSpans hf, Option.isSome_map,
        AtHead.read, textOf_mapSpans]
      rfl
  | verbatim keyword params opening block closing =>
      simp only [Outline.mapSpans, ofOutline, AtHead.read, textOf_mapSpans]
      simp [Token.mapSpan, ← hf.join, mapSpans, AtHead.mapSpan, atName]
  | raw cause ts => simp [Outline.mapSpans, ofOutline, spanOf_mapSpans hf, mapSpans]
  | _ => simp [Outline.mapSpans, ofOutline, mapSpans, Token.mapSpan]

theorem Item.ofOutlines_mapSpansAll (hf : Span.KeepsJoin f) (es : List Outline) :
    ofOutlines (Outline.mapSpansAll f es) = mapSpansAll f (ofOutlines es) := by
  induction es using Outline.listInduction with
  | nil => rfl
  | group keyword params opening items closing rest ihitems ihrest =>
      simp only [Outline.mapSpansAll, Outline.mapSpans, ofOutlines, ofOutline, mapSpansAll,
        mapSpans, AtHead.read, textOf_mapSpans, ihitems, ihrest]
      simp [Token.mapSpan, ← hf.join, AtHead.mapSpan, atName]
  | other entry rest hother ih =>
      rw [Outline.mapSpansAll, ofOutlines, ofOutline_mapSpans hf hother, ih, ofOutlines,
        mapSpansAll]

/-- Tokens with other spans stand for the same stylesheet with these spans. -/
theorem Item.ofOutlines_outline_mapSpans (hf : Span.KeepsJoin f) (ts : List Token) :
    ofOutlines (outline (StyleFlip.mapSpans f ts)) = mapSpansAll f (ofOutlines (outline ts)) := by
  rw [outline_mapSpans, ofOutlines_mapSpansAll hf]

end StyleFlip
