import StyleFlip.Proofs.Spans

/-!
# Reading does not look at spans

A bare token is one without its span. Reading bare tokens gives what reading the tokens gives, with
the spans left out.
-/

namespace StyleFlip

def Token.bare (t : Token) : Token := { t with span := .unknown }

@[simp]
theorem Token.kind_bare (t : Token) : t.bare.kind = t.kind := rfl

def bareAll (ts : List Token) : List Token := ts.map Token.bare

theorem bareAll_eq_mapSpans (ts : List Token) : bareAll ts = mapSpans (fun _ => .unknown) ts := rfl

@[simp]
theorem textOf_bareAll (ts : List Token) : textOf (bareAll ts) = textOf ts := by
  rw [bareAll_eq_mapSpans, textOf_mapSpans]

/-- Tokens with the same lexemes differ in their spans only. -/
theorem bareAll_eq_of_map_toLexeme {ts us : List Token}
    (h : ts.map (·.toLexeme) = us.map (·.toLexeme)) : bareAll ts = bareAll us := by
  have hbare : ∀ ts : List Token, bareAll ts =
      (ts.map (·.toLexeme)).map fun l => ⟨l, .unknown⟩ := by
    intro ts
    simp [bareAll, Token.bare]
  rw [hbare, hbare, h]

def Declaration.bare (d : Declaration) : Declaration := { d with span := .unknown }

def BodyItem.bare : BodyItem → BodyItem
  | .declaration d => .declaration d.bare
  | .comment c => .comment { c with span := .unknown }
  | .whitespace text => .whitespace text
  | .raw r => .raw { r with span := .unknown }

theorem BodyItem.bare_eq_mapSpan (item : BodyItem) :
    item.bare = item.mapSpan fun _ => .unknown := by
  cases item <;> rfl

theorem BodyItem.bare_mapSpan (f : Span → Span) (item : BodyItem) :
    (item.mapSpan f).bare = item.bare := by
  cases item <;> rfl

theorem Span.keepsJoin_unknown : Span.KeepsJoin (fun _ => .unknown) := ⟨rfl, fun _ _ => rfl⟩

theorem Item.ofOutlines_outline_bareAll (ts : List Token) :
    ofOutlines (outline (bareAll ts)) =
      mapSpansAll (fun _ => .unknown) (ofOutlines (outline ts)) :=
  ofOutlines_outline_mapSpans Span.keepsJoin_unknown ts

end StyleFlip
