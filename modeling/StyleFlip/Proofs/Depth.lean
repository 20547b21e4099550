import StyleFlip.Token.Split

/-!
# Where a run of tokens is cut

The splitting functions of `StyleFlip.Token.Split` search for a stopping point while they count
brackets. Here the counting is a function of its own: a run has a depth when nothing in it stops the
search. A split is then determined by the depth of its first part and the kind of the token after
it, and what comes later does not matter.
-/

namespace StyleFlip

/-- The depth of parentheses and square brackets after a run of tokens, if nothing in the run ends a
prelude. -/
def preludeDepth (depth : Nat) : List Token → Option Nat
  | [] => some depth
  | t :: rest =>
    if endsPrelude depth t.kind then none else preludeDepth (t.kind.nest depth) rest

/-- How many brackets are open after a run of tokens, if the run closes none that was open before
it. -/
def Bracket.depth (bracket : Bracket) (depth : Nat) : List Token → Option Nat
  | [] => some depth
  | t :: rest =>
    if bracket.closes t.kind then
      match depth with
      | 0 => none
      | depth + 1 => bracket.depth depth rest
    else if bracket.opens t.kind then bracket.depth (depth + 1) rest
    else bracket.depth depth rest

theorem preludeDepth_append (depth : Nat) (a b : List Token) :
    preludeDepth depth (a ++ b) = (preludeDepth depth a).bind (preludeDepth · b) := by
  induction a generalizing depth with
  | nil => rfl
  | cons t a ih =>
      simp only [List.cons_append, preludeDepth]
      split
      · rfl
      · exact ih _

theorem splitPrelude_of_stop {depth e : Nat} {before : List Token}
    (hdepth : preludeDepth depth before = some e) (stop : Token)
    (hstop : endsPrelude e stop.kind = true) (after : List Token) :
    splitPrelude depth (before ++ stop :: after) = (before, stop :: after) := by
  induction before generalizing depth with
  | nil =>
      obtain rfl := Option.some.inj hdepth
      simp [splitPrelude, hstop]
  | cons t before ih =>
      rw [preludeDepth] at hdepth
      split at hdepth
      · contradiction
      · rename_i hgoes
        rw [List.cons_append, splitPrelude, if_neg hgoes, ih hdepth]
        rfl

theorem splitPrelude_of_end {depth e : Nat} {before : List Token}
    (hdepth : preludeDepth depth before = some e) : splitPrelude depth before = (before, []) := by
  induction before generalizing depth with
  | nil => rfl
  | cons t before ih =>
      rw [preludeDepth] at hdepth
      split at hdepth
      · contradiction
      · rename_i hgoes
        rw [splitPrelude, if_neg hgoes, ih hdepth]
        rfl

/-- The first part of a split has a depth, and the token after it ends a prelude there. -/
theorem exists_preludeDepth_of_splitPrelude {depth : Nat} {ts before after : List Token}
    (h : splitPrelude depth ts = (before, after)) :
    ∃ e, preludeDepth depth before = some e ∧
      ∀ stop rest, after = stop :: rest → endsPrelude e stop.kind = true := by
  induction ts generalizing depth before with
  | nil =>
      obtain ⟨rfl, rfl⟩ := Prod.mk.inj h
      exact ⟨depth, rfl, by simp⟩
  | cons t ts ih =>
      rw [splitPrelude] at h
      split at h
      · rename_i hends
        obtain ⟨rfl, rfl⟩ := Prod.mk.inj h
        refine ⟨depth, rfl, ?_⟩
        intro stop rest heq
        obtain ⟨rfl, rfl⟩ := List.cons.inj heq
        exact hends
      · rename_i hgoes
        obtain ⟨rfl, rfl⟩ := Prod.mk.inj h
        obtain ⟨e, hdepth, hstop⟩ := ih rfl
        exact ⟨e, by simp [preludeDepth, hgoes, hdepth], hstop⟩

theorem Bracket.closes_of_opens {bracket : Bracket} {kind : Kind}
    (h : bracket.opens kind = true) : bracket.closes kind = false := by
  cases bracket with
  | brace =>
      obtain rfl := beq_iff_eq.mp h
      rfl
  | paren =>
      simp only [Bracket.opens, Bool.or_eq_true, beq_iff_eq] at h
      rcases h with rfl | rfl <;> rfl

theorem Bracket.depth_append (bracket : Bracket) (depth : Nat) (a b : List Token) :
    bracket.depth depth (a ++ b) = (bracket.depth depth a).bind (bracket.depth · b) := by
  induction a generalizing depth with
  | nil => rfl
  | cons t a ih =>
      simp only [List.cons_append, Bracket.depth]
      split
      · cases depth with
        | zero => rfl
        | succ depth => exact ih _
      · split <;> exact ih _

theorem splitClosing_of_stop {bracket : Bracket} {depth : Nat} {before : List Token}
    (hdepth : bracket.depth depth before = some 0) (stop : Token)
    (hstop : bracket.closes stop.kind = true) (after : List Token) :
    splitClosing bracket depth (before ++ stop :: after) = (before, stop :: after) := by
  fun_induction Bracket.depth bracket depth before with
  | case1 depth =>
      obtain rfl := Option.some.inj hdepth
      simp [splitClosing, hstop]
  | case2 => contradiction
  | case3 t before hcloses depth ih =>
      simp [splitClosing, hcloses, ih hdepth]
  | case4 depth t before hcloses hopens ih =>
      simp [splitClosing, hcloses, hopens, ih hdepth]
  | case5 depth t before hcloses hopens ih =>
      simp [splitClosing, hcloses, hopens, ih hdepth]

theorem splitClosing_of_end {bracket : Bracket} {depth e : Nat} {before : List Token}
    (hdepth : bracket.depth depth before = some e) :
    splitClosing bracket depth before = (before, []) := by
  fun_induction Bracket.depth bracket depth before with
  | case1 => rfl
  | case2 => contradiction
  | case3 t before hcloses depth ih =>
      simp [splitClosing, hcloses, ih hdepth]
  | case4 depth t before hcloses hopens ih =>
      simp [splitClosing, hcloses, hopens, ih hdepth]
  | case5 depth t before hcloses hopens ih =>
      simp [splitClosing, hcloses, hopens, ih hdepth]

/-- The first part of a split at a closing bracket has a depth; it is zero when there is a closing
bracket after it. -/
theorem exists_depth_of_splitClosing {bracket : Bracket} {depth : Nat}
    {ts before after : List Token} (h : splitClosing bracket depth ts = (before, after)) :
    ∃ e, bracket.depth depth before = some e ∧
      ∀ stop rest, after = stop :: rest → e = 0 ∧ bracket.closes stop.kind = true := by
  fun_induction splitClosing bracket depth ts generalizing before with
  | case1 depth =>
      obtain ⟨rfl, rfl⟩ := Prod.mk.inj h
      exact ⟨depth, rfl, by simp⟩
  | case2 t ts hcloses =>
      obtain ⟨rfl, rfl⟩ := Prod.mk.inj h
      refine ⟨0, rfl, ?_⟩
      intro stop rest heq
      obtain ⟨rfl, rfl⟩ := List.cons.inj heq
      exact ⟨rfl, hcloses⟩
  | case3 t ts hcloses depth ih =>
      obtain ⟨rfl, rfl⟩ := Prod.mk.inj h
      obtain ⟨e, hdepth, hstop⟩ := ih rfl
      exact ⟨e, by simp [Bracket.depth, hcloses, hdepth], hstop⟩
  | case4 depth t ts hcloses hopens ih =>
      obtain ⟨rfl, rfl⟩ := Prod.mk.inj h
      obtain ⟨e, hdepth, hstop⟩ := ih rfl
      exact ⟨e, by simp [Bracket.depth, hcloses, hopens, hdepth], hstop⟩
  | case5 depth t ts hcloses hopens ih =>
      obtain ⟨rfl, rfl⟩ := Prod.mk.inj h
      obtain ⟨e, hdepth, hstop⟩ := ih rfl
      exact ⟨e, by simp [Bracket.depth, hcloses, hopens, hdepth], hstop⟩

/-- A token that ends a prelude without closing a block is a `{` or a `;` outside brackets. -/
theorem depth_eq_zero_of_endsPrelude {e : Nat} {kind : Kind} (h : endsPrelude e kind = true)
    (hkind : kind ≠ .closeBrace) : e = 0 := by
  unfold endsPrelude at h
  simp_all

theorem closeBrace_of_endsPrelude {e : Nat} {kind : Kind} (h : endsPrelude e kind = true)
    (hsemicolon : kind ≠ .semicolon) (hopen : kind ≠ .openBrace) : kind = .closeBrace := by
  unfold endsPrelude at h
  simp_all

end StyleFlip
