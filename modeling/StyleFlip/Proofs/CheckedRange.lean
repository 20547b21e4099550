import StyleFlip.Proofs.CheckedReader
import StyleFlip.Proofs.ExactSpans

/-!
# Ranges of tokens

A range of indices holds a run of tokens (`Source.Window`). Texts and spans of a range are those of
its tokens, and a search in a range stops where the splitting functions of `StyleFlip.Token.Split`
cut its tokens, so none of these reads fails.
-/

namespace StyleFlip.Checked

/-! ### Slices -/

theorem cutAt_append (a b : Text) : cutAt (Text.byteSize a) (a ++ b) = pure (a, b) := by
  induction a with
  | nil => simp [Text.byteSize, cutAt]
  | cons c a ih =>
      obtain ⟨n, hn⟩ : ∃ n, c.utf8Size = n + 1 := ⟨c.utf8Size - 1, by have := c.utf8Size_pos; omega⟩
      have hsize : Text.byteSize (c :: a) = (n + Text.byteSize a) + 1 := by
        rw [Text.byteSize, hn]
        omega
      have hrest : n + Text.byteSize a + 1 - c.utf8Size = Text.byteSize a := by omega
      rw [hsize, List.cons_append, cutAt, if_pos (by omega), hrest, ih]
      rfl

theorem slice_append (a b c : Text) :
    slice (a ++ (b ++ c)) (Text.byteSize a) (Text.byteSize (a ++ b)) = pure b := by
  have hsize : Text.byteSize (a ++ b) - Text.byteSize a = Text.byteSize b := by simp
  rw [slice, if_pos (by simp), cutAt_append, pure_bind]
  dsimp only
  rw [hsize, cutAt_append, pure_bind]

theorem dropByte_cons {c : Char} (hc : c.utf8Size = 1) (text : Text) :
    dropByte (c :: text) = pure text := by
  have hslice := slice_append [c] text []
  rwa [show Text.byteSize [c] = 1 from hc, List.append_nil, List.singleton_append] at hslice

theorem dropLastByte_concat {c : Char} (hc : c.utf8Size = 1) (text : Text) :
    dropLastByte (text ++ [c]) = pure text := by
  have hsize : Text.byteSize (text ++ [c]) = Text.byteSize text + 1 := by
    rw [Text.byteSize_append, show Text.byteSize [c] = 1 from hc]
  rw [dropLastByte, hsize, countDown, pure_bind]
  exact slice_append [] text [c]

theorem dropByte_text {t : Token} (h : t.toLexeme.Spelled)
    (hkind : t.kind = .hash ∨ t.kind = .atKeyword) : dropByte t.text = pure (t.text.drop 1) := by
  have hmark : ∃ mark rest, mark.utf8Size = 1 ∧ t.text = mark :: rest := by
    rw [Lexeme.Spelled] at h
    rcases hkind with hkind | hkind <;> rw [hkind] at h <;> obtain ⟨c, name, htext⟩ := h
    · exact ⟨'#', c :: name, by decide, htext⟩
    · exact ⟨'@', c :: name, by decide, htext⟩
  obtain ⟨mark, rest, hsize, htext⟩ := hmark
  rw [htext, dropByte_cons hsize]
  rfl

/-! ### The tokens of a range -/

/-- The tokens of a range of indices, in a source that was cut into its tokens. -/
structure Source.Window (src : Source) (lo hi : Nat) (run : List Token) : Prop where
  inside : ∃ before after, src.tokens = before ++ (run ++ after) ∧ before.length = lo
  size : lo + run.length = hi
  source : Run src.css [] src.tokens

theorem Source.window_tokenize (css : Text) :
    Source.Window ⟨css, tokenize css⟩ 0 (tokenize css).length (tokenize css) where
  inside := ⟨[], [], by simp, rfl⟩
  size := Nat.zero_add _
  source := run_tokenize css

namespace Source.Window

variable {src : Source} {lo mid hi : Nat}

theorem cut {run a b : List Token} (h : src.Window lo hi run) (hrun : a ++ b = run) :
    src.Window lo (lo + a.length) a ∧ src.Window (lo + a.length) hi b := by
  obtain ⟨⟨before, after, htokens, hlo⟩, hsize, hsource⟩ := h
  rw [← hrun, List.append_assoc] at htokens
  rw [← hrun, List.length_append] at hsize
  refine ⟨⟨⟨before, b ++ after, htokens, hlo⟩, rfl, hsource⟩,
    ⟨⟨before ++ a, after, ?_, ?_⟩, by omega, hsource⟩⟩
  · rw [htokens, List.append_assoc]
  · rw [List.length_append, hlo]

theorem join {a b : List Token} (ha : src.Window lo mid a) (hb : src.Window mid hi b) :
    src.Window lo hi (a ++ b) := by
  obtain ⟨⟨before, after, htokens, hlo⟩, hsize, hsource⟩ := ha
  obtain ⟨⟨before', after', htokens', hlo'⟩, hsize', -⟩ := hb
  have hlength : (before ++ a).length = before'.length := by
    rw [List.length_append]
    omega
  have hsame : (before ++ a) ++ after = before' ++ (b ++ after') := by
    rw [List.append_assoc, ← htokens, htokens']
  obtain ⟨-, rfl⟩ := List.append_inj hsame hlength
  refine ⟨⟨before, after', by rw [htokens, List.append_assoc], hlo⟩, ?_, hsource⟩
  rw [List.length_append]
  omega

theorem bounds {run : List Token} (h : src.Window lo hi run) :
    lo ≤ hi ∧ hi ≤ src.tokens.length := by
  obtain ⟨⟨before, after, htokens, hlo⟩, hsize, -⟩ := h
  rw [htokens]
  simp only [List.length_append]
  omega

theorem exists_run {run : List Token} (h : src.Window lo hi run) :
    ∃ before, Run src.css before run := by
  obtain ⟨before, after, htokens, -⟩ := h.inside
  have hsource := h.source
  rw [htokens] at hsource
  exact ⟨_, hsource.append.2.append.1⟩

section Cons

variable {t : Token} {ts : List Token} (h : src.Window lo hi (t :: ts))

include h

theorem head : src.token lo = pure t := by
  obtain ⟨before, after, htokens, hlo⟩ := h.inside
  have hget : src.tokens[lo]? = some t := by
    rw [htokens, List.getElem?_append_right (by omega), hlo, Nat.sub_self]
    rfl
  rw [token, hget]

theorem first : src.Window lo (lo + 1) [t] := (h.cut (a := [t]) rfl).1

theorem tail : src.Window (lo + 1) hi ts := (h.cut (a := [t]) rfl).2

theorem spelled : t.toLexeme.Spelled := by
  obtain ⟨before, hrun⟩ := h.exists_run
  exact (spelledAll_cons.mp hrun.spelled).1

theorem lt : lo < hi := by
  have hsize := h.size
  rw [List.length_cons] at hsize
  omega

end Cons

theorem eq_of_nil (h : src.Window lo hi []) : lo = hi := h.size

/-- A range has a first and a last token, which tell where its text stands. -/
theorem exists_ends {run : List Token} (h : src.Window lo hi run) (hne : run ≠ []) :
    ∃ first last, src.token lo = pure first ∧ (countDown hi >>= src.token) = pure last ∧
      first.span.join last.span = spanOf run ∧
      slice src.css first.span.start last.span.stop = pure (textOf run) := by
  obtain ⟨first, more, hfirst⟩ := List.exists_cons_of_ne_nil hne
  obtain ⟨init, last, hlast⟩ : ∃ init last, run = init ++ [last] :=
    ⟨run.dropLast, run.getLast hne, (List.dropLast_concat_getLast hne).symm⟩
  have hend : (countDown hi >>= src.token) = pure last := by
    have hsize := h.size
    rw [hlast, List.length_append, List.length_singleton, ← Nat.add_assoc] at hsize
    rw [← hsize, countDown, pure_bind]
    exact (h.cut hlast.symm).2.head
  obtain ⟨before, hrun⟩ := h.exists_run
  obtain ⟨after, hcss⟩ := hrun.inside
  have hstart : first.span.start = Text.byteSize before := by
    rw [hfirst] at hrun
    rw [hrun.placed.1, Span.ofText, Position.offset_after_origin]
  have hstop : last.span.stop = Text.byteSize (before ++ textOf run) := by
    rw [hlast] at hrun ⊢
    obtain ⟨-, hplaced, -⟩ := placed_append.mp hrun.placed
    simp [hplaced, Span.ofText, Position.offset_after, Position.origin, Nat.add_assoc]
  refine ⟨first, last, (hfirst ▸ h).head, hend, ?_, ?_⟩
  · have hhead : run.head? = some first := by rw [hfirst]; rfl
    have hgetLast : run.getLast? = some last := by rw [hlast, List.getLast?_concat]
    rw [spanOf, hhead, hgetLast]
  · rw [hstart, hstop, ← hcss, List.append_assoc, slice_append]

section Whole

variable {run : List Token} (h : src.Window lo hi run)

include h

theorem text : src.text lo hi = pure (textOf run) := by
  cases run with
  | nil => rw [Source.text, h.eq_of_nil, if_neg (Nat.lt_irrefl hi), textOf_nil]
  | cons t ts =>
      obtain ⟨first, last, hfirst, hlast, -, hslice⟩ := h.exists_ends (by simp)
      rw [Source.text, if_pos h.lt, hfirst, pure_bind, ← bind_assoc, hlast, pure_bind, hslice]

theorem span : src.span lo hi = pure (spanOf run) := by
  cases run with
  | nil =>
      rw [Source.span, h.eq_of_nil, if_neg (Nat.lt_irrefl hi)]
      rfl
  | cons t ts =>
      obtain ⟨first, last, hfirst, hlast, hjoin, -⟩ := h.exists_ends (by simp)
      rw [Source.span, if_pos h.lt, hfirst, pure_bind, ← bind_assoc, hlast, pure_bind, hjoin]

theorem raw : src.raw lo hi = pure ⟨textOf run, spanOf run⟩ := by
  rw [Source.raw, h.text, h.span]
  rfl

theorem slice_span (hne : run ≠ []) :
    slice src.css (spanOf run).start (spanOf run).stop = pure (textOf run) := by
  obtain ⟨before, hrun⟩ := h.exists_run
  obtain ⟨after, hcss⟩ := hrun.inside
  rw [hrun.spanOf_eq hne, Span.ofText, ← Position.after_append, Position.offset_after_origin,
    Position.offset_after_origin, ← hcss, List.append_assoc, slice_append]

theorem isAt (kind : Kind) : src.isAt kind lo hi = pure (run.head?.any (·.kind == kind)) := by
  cases run with
  | nil =>
      rw [Source.isAt, h.eq_of_nil, if_neg (Nat.lt_irrefl hi)]
      rfl
  | cons t ts =>
      rw [Source.isAt, if_pos h.lt, h.head]
      rfl

/-- The first token of a range, if it has one, and what comes after it. -/
theorem cut_one : src.Window lo (min (lo + 1) hi) (run.take 1) ∧
    src.Window (min (lo + 1) hi) hi (run.drop 1) := by
  cases run with
  | nil =>
      obtain rfl := h.eq_of_nil
      rw [Nat.min_eq_right (Nat.le_succ lo)]
      exact ⟨h, h⟩
  | cons t ts =>
      rw [Nat.min_eq_left h.lt]
      exact ⟨h.first, h.tail⟩

/-- The empty range at the end of a range. -/
theorem atEnd : src.Window hi hi [] := by
  have hend := (h.cut (List.append_nil run)).2
  rwa [h.size] at hend

end Whole

/-! ### Searching for an index -/

section Scan

variable {β σ : Type} {step : σ → Nat → Token → Read (σ ⊕ β)} {finish : σ → β} {state : σ}

theorem scan_nil (h : src.Window lo hi []) :
    src.scan step finish state lo hi = pure (finish state) := by
  rw [scan, h.eq_of_nil, if_neg (Nat.lt_irrefl hi)]

theorem scan_inl {t : Token} {ts : List Token} (h : src.Window lo hi (t :: ts)) (next : σ)
    (hstep : step state lo t = pure (.inl next)) :
    src.scan step finish state lo hi = src.scan step finish next (lo + 1) hi := by
  rw [scan, if_pos h.lt, h.head, pure_bind, hstep, pure_bind]

theorem scan_inr {t : Token} {ts : List Token} (h : src.Window lo hi (t :: ts)) (result : β)
    (hstep : step state lo t = pure (.inr result)) :
    src.scan step finish state lo hi = pure result := by
  rw [scan, if_pos h.lt, h.head, pure_bind, hstep, pure_bind]

end Scan

theorem skip_eq {run : List Token} (h : src.Window lo hi run) (test : Token → Bool) :
    src.skip test lo hi = pure (lo + (run.takeWhile test).length) := by
  induction run generalizing lo with
  | nil =>
      rw [Source.skip, h.scan_nil, h.eq_of_nil]
      rfl
  | cons t ts ih =>
      rw [Source.skip]
      by_cases htest : test t = true
      · rw [h.scan_inl () (by rw [if_pos htest]), List.takeWhile_cons_of_pos htest,
          List.length_cons]
        exact (ih h.tail).trans (by rw [Nat.succ_add_eq_add_succ])
      · rw [h.scan_inr lo (by rw [if_neg htest]), List.takeWhile_cons_of_neg htest]
        rfl

theorem exists_skip {run : List Token} (h : src.Window lo hi run) (test : Token → Bool) :
    ∃ pos, src.skip test lo hi = pure pos ∧ src.Window lo pos (run.takeWhile test) ∧
      src.Window pos hi (run.dropWhile test) :=
  ⟨_, h.skip_eq test, h.cut List.takeWhile_append_dropWhile⟩

theorem scan_preludeStep {run : List Token} (h : src.Window lo hi run) (depth : Nat) :
    src.scan preludeStep (fun _ => (hi, none)) depth lo hi = pure
      (lo + (splitPrelude depth run).1.length,
        (splitPrelude depth run).2.head?.map (·.kind)) := by
  induction run generalizing lo depth with
  | nil =>
      rw [h.scan_nil, h.eq_of_nil]
      rfl
  | cons t ts ih =>
      rw [splitPrelude]
      split
      · rename_i hends
        rw [h.scan_inr (lo, some t.kind) (by rw [preludeStep, if_pos hends])]
        rfl
      · rename_i hends
        rw [h.scan_inl (t.kind.nest depth) (by rw [preludeStep, if_neg hends]), ih h.tail,
          Nat.succ_add_eq_add_succ]
        rfl

/-- A prelude ends at a token of the range or with the range. -/
theorem preludeEnd_cases {run : List Token} (h : src.Window lo hi run) :
    (splitPrelude 0 run = (run, []) ∧ src.preludeEnd lo hi = pure (hi, none)) ∨
      ∃ before stop after mid, splitPrelude 0 run = (before, stop :: after) ∧
        src.preludeEnd lo hi = pure (mid, some stop.kind) ∧ src.Window lo mid before ∧
        src.Window mid hi (stop :: after) := by
  have happend := splitPrelude_append 0 run
  rw [Source.preludeEnd, h.scan_preludeStep]
  generalize splitPrelude 0 run = parts at happend ⊢
  obtain ⟨before, rest⟩ := parts
  cases rest with
  | nil =>
      rw [List.append_nil] at happend
      refine Or.inl ⟨by rw [← happend], ?_⟩
      rw [happend, h.size]
      rfl
  | cons stop after =>
      obtain ⟨hbefore, hrest⟩ := h.cut happend
      exact Or.inr ⟨before, stop, after, _, rfl, rfl, hbefore, hrest⟩

theorem scan_closingStep {bracket : Bracket} {run : List Token} (h : src.Window lo hi run)
    (depth : Nat) :
    src.scan (closingStep bracket) (fun _ => none) (depth + 1) lo hi = pure
      ((splitClosing bracket depth run).2.head?.map fun _ =>
        lo + (splitClosing bracket depth run).1.length) := by
  induction run generalizing lo depth with
  | nil =>
      rw [h.scan_nil]
      rfl
  | cons t ts ih =>
      -- One token more in front of the closing bracket.
      have hshift : ∀ next, closingStep bracket (depth + 1) lo t = pure (.inl (next + 1)) →
          splitClosing bracket depth (t :: ts) =
            Prod.map (t :: ·) id (splitClosing bracket next ts) →
          src.scan (closingStep bracket) (fun _ => none) (depth + 1) lo hi = pure
            ((splitClosing bracket depth (t :: ts)).2.head?.map fun _ =>
              lo + (splitClosing bracket depth (t :: ts)).1.length) := by
        intro next hstep hsplit
        rw [h.scan_inl (next + 1) hstep, ih h.tail, hsplit, Nat.succ_add_eq_add_succ]
        rfl
      by_cases hcloses : bracket.closes t.kind = true
      · cases depth with
        | zero =>
            rw [h.scan_inr (some lo) (by rw [closingStep, if_pos hcloses]; rfl)]
            simp [splitClosing, hcloses]
        | succ depth =>
            refine hshift depth (by rw [closingStep, if_pos hcloses]; rfl) ?_
            rw [splitClosing, if_pos hcloses]
      · by_cases hopens : bracket.opens t.kind = true
        · refine hshift (depth + 1) (by rw [closingStep, if_neg hcloses, if_pos hopens]) ?_
          rw [splitClosing.eq_def]
          simp [hcloses, hopens]
        · refine hshift depth (by rw [closingStep, if_neg hcloses, if_neg hopens]) ?_
          rw [splitClosing.eq_def]
          simp [hcloses, hopens]

/-- The bracket at the start of a range is closed within it or not at all. -/
theorem closing?_cases {t : Token} {ts : List Token} (h : src.Window lo hi (t :: ts))
    (bracket : Bracket) (hopens : bracket.opens t.kind = true) :
    (splitClosing bracket 0 ts = (ts, []) ∧ src.closing? bracket lo hi = pure none) ∨
      ∃ inner close rest mid, splitClosing bracket 0 ts = (inner, close :: rest) ∧
        src.closing? bracket lo hi = pure (some mid) ∧ src.Window (lo + 1) mid inner ∧
        src.Window mid hi (close :: rest) := by
  have hcloses : ¬ bracket.closes t.kind = true := by simp [Bracket.closes_of_opens hopens]
  have happend := splitClosing_append bracket 0 ts
  rw [Source.closing?, h.scan_inl 1 (by rw [closingStep, if_neg hcloses, if_pos hopens]),
    h.tail.scan_closingStep 0]
  generalize splitClosing bracket 0 ts = parts at happend ⊢
  obtain ⟨inner, rest⟩ := parts
  cases rest with
  | nil =>
      rw [List.append_nil] at happend
      exact Or.inl ⟨by rw [← happend], rfl⟩
  | cons close rest =>
      obtain ⟨hinner, hrest⟩ := h.tail.cut happend
      exact Or.inr ⟨inner, close, rest, _, rfl, rfl, hinner, hrest⟩

theorem exists_parenEnd {t : Token} {ts : List Token} (h : src.Window lo hi (t :: ts))
    (hopens : Bracket.paren.opens t.kind = true) :
    ∃ close, src.parenEnd lo hi = pure close ∧
      src.Window (lo + 1) close (splitClosing .paren 0 ts).1 ∧
      src.Window close hi (splitClosing .paren 0 ts).2 := by
  rw [Source.parenEnd]
  rcases h.closing?_cases .paren hopens with
    ⟨hsplit, hfind⟩ | ⟨inner, close, rest, mid, hsplit, hfind, hparts⟩
  · rw [hsplit, hfind]
    exact ⟨hi, rfl, h.tail, h.atEnd⟩
  · rw [hsplit, hfind]
    exact ⟨mid, rfl, hparts⟩

theorem scan_segmentStep {run : List Token} (h : src.Window lo hi run) (parens braces : Nat)
    (nested : Bool) :
    src.scan segmentStep (fun c => (hi, c.nested)) ⟨parens, braces, nested⟩ lo hi = pure
      (lo + (splitSegment parens braces run).1.length,
        nested || (splitSegment parens braces run).1.any (·.kind == .openBrace)) := by
  induction run generalizing lo parens braces nested with
  | nil =>
      rw [h.scan_nil, h.eq_of_nil]
      simp [splitSegment]
  | cons t ts ih =>
      have hshift : ∀ c : Counters, segmentStep ⟨parens, braces, nested⟩ lo t = pure (.inl c) →
          c.nested = (nested || t.kind == .openBrace) →
          src.scan segmentStep (fun c => (hi, c.nested)) ⟨parens, braces, nested⟩ lo hi = pure
            (lo + (t :: (splitSegment c.parens c.braces ts).1).length,
              nested ||
                (t :: (splitSegment c.parens c.braces ts).1).any (·.kind == .openBrace)) := by
        intro c hstep hnested
        rw [h.scan_inl c hstep, ih h.tail, hnested, List.length_cons, Nat.succ_add_eq_add_succ,
          List.any_cons, Bool.or_assoc]
      rw [splitSegment]
      split
      · rename_i hends
        rw [h.scan_inr (lo, nested) (by rw [segmentStep, if_pos hends])]
        simp
      rename_i hends
      split
      · rename_i hclose
        split
        · rename_i hbraces
          rw [h.scan_inr (lo + 1, nested)
            (by rw [segmentStep, if_neg hends, if_pos hclose, if_pos (by dsimp only; omega)])]
          simp [show (t.kind == .openBrace) = false by rw [hclose]; rfl]
        · rename_i hbraces
          refine hshift ⟨parens, braces - 1, nested⟩ ?_ (by simp [hclose])
          rw [segmentStep, if_neg hends, if_pos hclose, if_neg (by dsimp only; omega)]
      rename_i hclose
      split
      · rename_i hopen
        refine hshift ⟨parens, braces + 1, true⟩ ?_ (by simp [hopen])
        rw [segmentStep, if_neg hends, if_neg hclose, if_pos hopen]
      · rename_i hopen
        refine hshift ⟨t.kind.nest parens, braces, nested⟩ ?_ (by simp [hopen])
        rw [segmentStep, if_neg hends, if_neg hclose, if_neg hopen]

theorem exists_segmentEnd {run : List Token} (h : src.Window lo hi run) :
    ∃ stop, src.segmentEnd lo hi =
        pure (stop, (splitSegment 0 0 run).1.any (·.kind == .openBrace)) ∧
      src.Window lo stop (splitSegment 0 0 run).1 ∧
      src.Window stop hi (splitSegment 0 0 run).2 := by
  refine ⟨_, ?_, h.cut (splitSegment_append 0 0 run)⟩
  rw [Source.segmentEnd, h.scan_segmentStep, Bool.false_or]

end Source.Window

end StyleFlip.Checked
