import StyleFlip.Body.Basic
import StyleFlip.Outline.Basic
import StyleFlip.Token.Split
import StyleFlip.Value.Reader

/-!
# Reading rule bodies

A body is first cut into segments, which together hold all its tokens (`flatMap_tokens_segments`).
A segment is a declaration when it starts with a property name and a colon and has no block in it.
-/

namespace StyleFlip

/-- A piece of a rule body between two semicolons, or the blanks and comments around such pieces. -/
inductive Segment
  | whitespace (token : Token)
  | comment (token : Token)
  | content (tokens : List Token) (semicolon : Option Token)
deriving DecidableEq, Repr

namespace Segment

def tokens : Segment → List Token
  | .whitespace t => [t]
  | .comment t => [t]
  | .content ts semicolon => ts ++ semicolon.toList

def front (t : Token) (ts : List Token) : Segment × List Token :=
  match t.kind with
  | .whitespace => (.whitespace t, ts)
  | .comment => (.comment t, ts)
  | _ =>
    match splitSegment 0 0 (t :: ts) with
    | (inner, []) => (.content inner none, [])
    | (inner, stop :: rest) =>
      if stop.kind = .semicolon then (.content inner (some stop), rest)
      else (.content inner none, stop :: rest)

theorem front_tokens (t : Token) (ts : List Token) :
    (front t ts).1.tokens ++ (front t ts).2 = t :: ts := by
  have hsplit := splitSegment_append 0 0 (t :: ts)
  unfold front
  split
  · rfl
  · rfl
  · split <;> rename_i heq <;> rw [heq] at hsplit
    · simpa [tokens] using hsplit
    · split <;> simpa [tokens] using hsplit

theorem front_tokens_ne_nil (t : Token) (ts : List Token) : (front t ts).1.tokens ≠ [] := by
  unfold front
  split
  · simp [tokens]
  · simp [tokens]
  by_cases hsemicolon : t.kind = .semicolon
  · simp [splitSegment, hsemicolon, tokens]
  have hinner := splitSegment_ne_nil 0 0 ts hsemicolon
  split <;> rename_i heq <;> rw [heq] at hinner
  · simpa [tokens] using hinner
  · split <;> simp_all [tokens]

theorem length_front (t : Token) (ts : List Token) : (front t ts).2.length < (t :: ts).length := by
  have hlength := congrArg List.length (front_tokens t ts)
  have hpos := List.length_pos_iff.mpr (front_tokens_ne_nil t ts)
  rw [List.length_append] at hlength
  omega

end Segment

def segments (tokens : List Token) : List Segment :=
  match tokens with
  | [] => []
  | t :: ts =>
    let next := Segment.front t ts
    next.1 :: segments next.2
termination_by tokens.length
decreasing_by exact Segment.length_front t ts

theorem flatMap_tokens_segments (tokens : List Token) :
    (segments tokens).flatMap Segment.tokens = tokens := by
  fun_induction segments tokens with
  | case1 => rfl
  | case2 t ts next ih => rw [List.flatMap_cons, ih, Segment.front_tokens]

/-- Reads a declaration: a property name, perhaps blanks and comments, a colon with the blanks after
it, and the value. -/
def Declaration.read? (tokens : List Token) (semicolon : Bool) : Option Declaration :=
  match tokens with
  | [] => none
  | property :: rest =>
    if property.kind = .ident then
      match rest.dropWhile (·.isTrivia) with
      | [] => none
      | colon :: after =>
        if colon.kind = .colon then
          some
            { property := property.text
              colon := textOf (rest.takeWhile (·.isTrivia) ++
                colon :: after.takeWhile (·.kind == .whitespace))
              value := Value.read (after.dropWhile (·.kind == .whitespace))
              semicolon := semicolon
              span := spanOf tokens }
        else none
    else none

/-- A segment that holds a block is no declaration. -/
def Segment.declaration? : Segment → Option Declaration
  | .content tokens semicolon =>
    if tokens.any (·.kind == .openBrace) then none
    else Declaration.read? tokens semicolon.isSome
  | _ => none

def BodyItem.ofSegment : Segment → BodyItem
  | .whitespace t => .whitespace t.text
  | .comment t => .comment ⟨t.text, t.span⟩
  | .content tokens semicolon =>
    match (Segment.content tokens semicolon).declaration? with
    | some d => .declaration d
    | none =>
      .raw ⟨textOf (tokens ++ semicolon.toList), spanOf (tokens ++ semicolon.toList)⟩

def Body.read (tokens : List Token) : Body := (segments tokens).map BodyItem.ofSegment

end StyleFlip
