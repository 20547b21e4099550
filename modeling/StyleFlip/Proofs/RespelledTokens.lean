import StyleFlip.Body.Reader
import StyleFlip.Flip.Value
import StyleFlip.Proofs.ProperBody
import StyleFlip.Proofs.Standing

/-!
# Respelled tokens

Tokens that keep their kinds, with texts respelled one by one, stand where the old ones stood and are
nested in the same way.
-/

namespace StyleFlip

open Lexer

/-- The same tokens with some of their texts respelled. Blanks and comments stay as they are. -/
inductive RespelledAll : List Token → List Token → Prop
  | nil : RespelledAll [] []
  | cons {t t' : Token} {ts ts' : List Token} (hkind : t'.kind = t.kind)
      (htext : Respelled t.text t'.text) (htrivia : t.isTrivia = true → t'.text = t.text)
      (h : RespelledAll ts ts') : RespelledAll (t :: ts) (t' :: ts')

namespace RespelledAll

variable {ts ts' us us' : List Token}

theorem keep (t : Token) (h : RespelledAll ts ts') : RespelledAll (t :: ts) (t :: ts') :=
  .cons rfl (.refl _) (fun _ => rfl) h

theorem refl (ts : List Token) : RespelledAll ts ts := by
  induction ts with
  | nil => exact .nil
  | cons t ts ih => exact ih.keep t

theorem append (h : RespelledAll ts ts') (hu : RespelledAll us us') :
    RespelledAll (ts ++ us) (ts' ++ us') := by
  induction h with
  | nil => exact hu
  | cons hkind htext htrivia _ ih => exact .cons hkind htext htrivia ih

theorem append_left (front : List Token) (h : RespelledAll ts ts') :
    RespelledAll (front ++ ts) (front ++ ts') := (refl front).append h

theorem kinds (h : RespelledAll ts ts') : ts'.map (·.kind) = ts.map (·.kind) := by
  induction h with
  | nil => rfl
  | cons hkind _ _ _ ih => rw [List.map_cons, List.map_cons, hkind, ih]

end RespelledAll

/-! ### Nesting depends on the kinds alone -/

theorem preludeDepth_of_kinds {ts ts' : List Token} (h : ts'.map (·.kind) = ts.map (·.kind))
    (depth : Nat) : preludeDepth depth ts' = preludeDepth depth ts := by
  induction ts generalizing ts' depth with
  | nil => rw [List.map_eq_nil_iff.mp h]
  | cons t ts ih =>
      obtain ⟨t', ts', rfl, hkind, hrest⟩ := List.map_eq_cons_iff.mp h
      rw [preludeDepth, preludeDepth, hkind, ih hrest]

theorem Bracket.depth_of_kinds (bracket : Bracket) {ts ts' : List Token}
    (h : ts'.map (·.kind) = ts.map (·.kind)) (n : Nat) : bracket.depth n ts' = bracket.depth n ts := by
  induction ts generalizing ts' n with
  | nil => rw [List.map_eq_nil_iff.mp h]
  | cons t ts ih =>
      obtain ⟨t', ts', rfl, hkind, hrest⟩ := List.map_eq_cons_iff.mp h
      cases n with
      | zero => simp only [Bracket.depth, hkind, ih hrest]
      | succ n => simp only [Bracket.depth, hkind, ih hrest]

theorem segmentDepth_of_kinds {ts ts' : List Token} (h : ts'.map (·.kind) = ts.map (·.kind))
    (depth braces : Nat) : segmentDepth depth braces ts' = segmentDepth depth braces ts := by
  induction ts generalizing ts' depth braces with
  | nil => rw [List.map_eq_nil_iff.mp h]
  | cons t ts ih =>
      obtain ⟨t', ts', rfl, hkind, hrest⟩ := List.map_eq_cons_iff.mp h
      simp only [segmentDepth, hkind, ih hrest]

/-! ### Standing -/

theorem Lexeme.StandsBefore.text_ne_nil {l : Lexeme} {r : Text} (h : l.StandsBefore r) :
    l.text ≠ [] := by
  obtain ⟨c, tail, htext, -⟩ := h
  simp [htext]

theorem Next.respelled {x x' r r' : Text} (hx : Respelled x x') (hne : x ≠ []) (h : Next r r') :
    Next (x ++ r) (x' ++ r') where
  ahead := hx.ahead h.ahead
  space := by
    intro hspace
    by_cases hold : startsWith isSpace (x ++ r) = true
    · exact hold
    · have hnew := hx.startsWith hne (fun c hc => isSpace_of_isRunChar hc) r r' (by simpa using hold)
      simp [hnew] at hspace

/-- A respelled token stands where the old one stood. -/
theorem Token.standsBefore_respelled {t t' : Token} {r r' : Text} (h : t.toLexeme.StandsBefore r)
    (hkind : t'.kind = t.kind) (htext : Respelled t.text t'.text)
    (htrivia : t.isTrivia = true → t'.text = t.text) (hnext : Next r r') :
    t'.toLexeme.StandsBefore r' := by
  obtain ⟨⟨kind, x⟩, span⟩ := t
  obtain ⟨⟨kind', x'⟩, span'⟩ := t'
  dsimp only at hkind htext htrivia h
  subst hkind
  by_cases hspace : kind' = .whitespace
  · subst hspace
    obtain rfl : x' = x := htrivia rfl
    exact h.next hnext
  · exact h.respelled htext hnext.ahead.ofName (fun _ => hnext.ahead .line) hspace
      fun hcomment => htrivia (by simp [Token.isTrivia, hcomment])

theorem Stand.respelledAll {ts ts' : List Token} {r r' : Text} (h : Stand ts r)
    (hts : RespelledAll ts ts') (hnext : Next r r') :
    Stand ts' r' ∧ Next (textOf ts ++ r) (textOf ts' ++ r') := by
  induction hts with
  | nil => exact ⟨trivial, hnext⟩
  | cons hkind htext htrivia _ ih =>
      obtain ⟨hstand, hafter⟩ := ih h.2
      refine ⟨⟨Token.standsBefore_respelled h.1 hkind htext htrivia hafter, hstand⟩, ?_⟩
      rw [textOf_cons, textOf_cons, List.append_assoc, List.append_assoc]
      exact Next.respelled htext h.1.text_ne_nil hafter

/-! ### Values -/

theorem Value.read_function {t : Token} (hopens : Bracket.paren.opens t.kind = true)
    {args : List Token} (hdepth : Bracket.paren.depth 0 args = some 0) {close : Token}
    (hclose : close.kind = .closeParen) (rest : List Token) :
    Value.read (t :: (args ++ close :: rest)) =
      .function t.text.dropLast (Value.read args) true :: Value.read rest := by
  rw [Value.read, if_pos hopens]
  dsimp only
  rw [splitClosing_of_stop hdepth close (by simp [Bracket.closes, hclose])]
  rfl

theorem Value.read_open_function {t : Token} (hopens : Bracket.paren.opens t.kind = true)
    {args : List Token} {n : Nat} (hdepth : Bracket.paren.depth 0 args = some n) :
    Value.read (t :: args) = [.function t.text.dropLast (Value.read args) false] := by
  have hnil : Value.read [] = [] := by rw [Value.read]
  rw [Value.read, if_pos hopens]
  dsimp only
  rw [splitClosing_of_end hdepth]
  simp [hnil]

theorem Value.read_leaf {t : Token} (hopens : Bracket.paren.opens t.kind = false)
    (rest : List Token) : Value.read (t :: rest) = .leaf t.kind.leaf t.text :: Value.read rest := by
  rw [Value.read, if_neg (by simp [hopens])]

/-- The tokens of a value are leaves, functions with their closing parenthesis, and perhaps a last
function without one. -/
@[elab_as_elim]
theorem Value.tokenInduction {motive : List Token → Prop} (nil : motive [])
    (leaf : ∀ t rest, Bracket.paren.opens t.kind = false → motive rest → motive (t :: rest))
    (closed : ∀ t args close rest, Bracket.paren.opens t.kind = true →
      Bracket.paren.depth 0 args = some 0 → close.kind = .closeParen → motive args → motive rest →
      motive (t :: (args ++ close :: rest)))
    (unclosed : ∀ t args n, Bracket.paren.opens t.kind = true →
      Bracket.paren.depth 0 args = some n → motive args → motive (t :: args))
    (ts : List Token) : motive ts := by
  fun_induction Value.read ts with
  | case1 => exact nil
  | case2 t rest hopens split ihargs ihrest =>
      have happend := splitClosing_append .paren 0 rest
      obtain ⟨n, hdepth, hstop⟩ :=
        exists_depth_of_splitClosing (show splitClosing .paren 0 rest = (split.1, split.2) from rfl)
      rw [← happend]
      show motive (t :: (split.1 ++ split.2))
      cases htail : split.2 with
      | nil =>
          rw [List.append_nil]
          exact unclosed t _ n hopens hdepth ihargs
      | cons close more =>
          obtain ⟨rfl, hclose⟩ := hstop close more htail
          rw [htail] at ihrest
          exact closed t _ close more hopens hdepth (by simpa [Bracket.closes] using hclose) ihargs
            ihrest
  | case3 t rest hopens ih => exact leaf t rest (by simpa using hopens) ih

/-- Respelling the leaves of a value respells its tokens. -/
theorem Value.exists_respelledAll (enter : Text → Bool) {f : LeafKind → Text → Text}
    (hf : ∀ kind text, Respelled text (f kind text))
    (htrivia : ∀ text, f .whitespace text = text ∧ f .comment text = text) (ts : List Token) :
    ∃ ts', RespelledAll ts ts' ∧
      Value.read ts' = Component.mapLeavesAll enter f (Value.read ts) := by
  -- Inside a function that is not entered the tokens stay.
  have hargs : ∀ (t : Token) (args : List Token), (∃ args', RespelledAll args args' ∧
        Value.read args' = Component.mapLeavesAll enter f (Value.read args)) →
      ∃ args', RespelledAll args args' ∧ ∀ closed,
        Component.mapLeaves enter f (.function t.text.dropLast (Value.read args) closed) =
          .function t.text.dropLast (Value.read args') closed := by
    rintro t args ⟨args', hargs, hread⟩
    by_cases henter : enter t.text.dropLast = true
    · refine ⟨args', hargs, fun closed => ?_⟩
      rw [Component.mapLeaves, if_pos henter, hread]
    · refine ⟨args, .refl args, fun closed => ?_⟩
      rw [Component.mapLeaves, if_neg henter]
  induction ts using Value.tokenInduction with
  | nil => exact ⟨[], .nil, by rw [Value.read, Component.mapLeavesAll]⟩
  | leaf t rest hopens ih =>
      obtain ⟨rest', hrest, hread⟩ := ih
      refine ⟨⟨⟨t.kind, f t.kind.leaf t.text⟩, t.span⟩ :: rest', .cons rfl (hf _ _) ?_ hrest, ?_⟩
      · intro ht
        simp only [Token.isTrivia, Bool.or_eq_true, beq_iff_eq] at ht
        rcases ht with ht | ht <;> simp [ht, Kind.leaf, htrivia]
      · have hnew : Value.read (⟨⟨t.kind, f t.kind.leaf t.text⟩, t.span⟩ :: rest') =
            .leaf t.kind.leaf (f t.kind.leaf t.text) :: Value.read rest' :=
          @Value.read_leaf ⟨⟨t.kind, f t.kind.leaf t.text⟩, t.span⟩ hopens rest'
        rw [hnew, Value.read_leaf hopens, hread]
        rfl
  | closed t args close rest hopens hdepth hclose ihargs ihrest =>
      obtain ⟨args', hargs', hfunction⟩ := hargs t args ihargs
      obtain ⟨rest', hrest, hread⟩ := ihrest
      refine ⟨t :: (args' ++ close :: rest'), (hargs'.append (hrest.keep close)).keep t, ?_⟩
      have hdepth' : Bracket.paren.depth 0 args' = some 0 := by
        rw [Bracket.depth_of_kinds _ hargs'.kinds, hdepth]
      rw [Value.read_function hopens hdepth' hclose, Value.read_function hopens hdepth hclose, hread,
        Component.mapLeavesAll, hfunction]
  | unclosed t args n hopens hdepth ihargs =>
      obtain ⟨args', hargs', hfunction⟩ := hargs t args ihargs
      refine ⟨t :: args', hargs'.keep t, ?_⟩
      have hdepth' : Bracket.paren.depth 0 args' = some n := by
        rw [Bracket.depth_of_kinds _ hargs'.kinds, hdepth]
      rw [Value.read_open_function hopens hdepth', Value.read_open_function hopens hdepth,
        Component.mapLeavesAll, Component.mapLeavesAll, hfunction]

end StyleFlip
