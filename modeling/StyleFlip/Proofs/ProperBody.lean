import StyleFlip.Body.Reader
import StyleFlip.Proofs.Depth

/-!
# Proper segments

The same for rule bodies as `StyleFlip.Proofs.ProperOutline` for stylesheets: the segments of a token
list are the only segments with these tokens that are proper, each in front of the next.
-/

namespace StyleFlip

/-- The counters of parentheses and of braces after a run of tokens in which no segment ends. -/
def segmentDepth (depth braces : Nat) : List Token → Option (Nat × Nat)
  | [] => some (depth, braces)
  | t :: rest =>
    if t.kind = .semicolon ∧ depth = 0 ∧ braces = 0 then none
    else if t.kind = .closeBrace then
      if braces ≤ 1 then none else segmentDepth depth (braces - 1) rest
    else if t.kind = .openBrace then segmentDepth depth (braces + 1) rest
    else segmentDepth (t.kind.nest depth) braces rest

theorem segmentDepth_append (depth braces : Nat) (a b : List Token) :
    segmentDepth depth braces (a ++ b) =
      (segmentDepth depth braces a).bind fun counters => segmentDepth counters.1 counters.2 b := by
  fun_induction segmentDepth depth braces a with
  | case1 => rfl
  | case2 depth braces t a hends => simp [segmentDepth, hends]
  | case3 depth braces t a hgoes hclose hbraces => simp [segmentDepth, hclose, hbraces]
  | case4 depth braces t a hgoes hclose hmany ih => simp [segmentDepth, hclose, hmany, ih]
  | case5 depth braces t a hgoes hclose hopen ih => simp [segmentDepth, hopen, ih]
  | case6 depth braces t a hgoes hclose hopen ih =>
      simp [segmentDepth, hgoes, hclose, hopen, ih]

theorem splitSegment_of_semicolon {depth braces : Nat} {before : List Token}
    (hdepth : segmentDepth depth braces before = some (0, 0)) (stop : Token)
    (hstop : stop.kind = .semicolon) (after : List Token) :
    splitSegment depth braces (before ++ stop :: after) = (before, stop :: after) := by
  fun_induction segmentDepth depth braces before with
  | case1 depth braces =>
      obtain ⟨rfl, rfl⟩ := Prod.mk.inj (Option.some.inj hdepth)
      simp [splitSegment, hstop]
  | case2 => contradiction
  | case3 => contradiction
  | case4 depth braces t before hgoes hclose hbraces ih =>
      simp [splitSegment, hclose, hbraces, ih hdepth]
  | case5 depth braces t before hgoes hclose hopen ih =>
      simp [splitSegment, hopen, ih hdepth]
  | case6 depth braces t before hgoes hclose hopen ih =>
      simp [splitSegment, hgoes, hclose, hopen, ih hdepth]

theorem splitSegment_of_brace {depth braces e b : Nat} {before : List Token}
    (hdepth : segmentDepth depth braces before = some (e, b)) (hbraces : b ≤ 1) (stop : Token)
    (hstop : stop.kind = .closeBrace) (after : List Token) :
    splitSegment depth braces (before ++ stop :: after) = (before ++ [stop], after) := by
  fun_induction segmentDepth depth braces before with
  | case1 depth braces =>
      obtain ⟨rfl, rfl⟩ := Prod.mk.inj (Option.some.inj hdepth)
      simp [splitSegment, hstop, hbraces]
  | case2 => contradiction
  | case3 => contradiction
  | case4 depth braces t before hgoes hclose hmany ih =>
      simp [splitSegment, hclose, hmany, ih hdepth]
  | case5 depth braces t before hgoes hclose hopen ih =>
      simp [splitSegment, hopen, ih hdepth]
  | case6 depth braces t before hgoes hclose hopen ih =>
      simp [splitSegment, hgoes, hclose, hopen, ih hdepth]

theorem splitSegment_of_end {depth braces : Nat} {counters : Nat × Nat} {before : List Token}
    (hdepth : segmentDepth depth braces before = some counters) :
    splitSegment depth braces before = (before, []) := by
  fun_induction segmentDepth depth braces before with
  | case1 => rfl
  | case2 => contradiction
  | case3 => contradiction
  | case4 depth braces t before hgoes hclose hmany ih =>
      simp [splitSegment, hclose, hmany, ih hdepth]
  | case5 depth braces t before hgoes hclose hopen ih =>
      simp [splitSegment, hopen, ih hdepth]
  | case6 depth braces t before hgoes hclose hopen ih =>
      simp [splitSegment, hgoes, hclose, hopen, ih hdepth]

/-- How a segment ends: at a semicolon, after a closing brace, or with the list. -/
inductive SegmentEnd (depth braces : Nat) : List Token → List Token → Prop
  | semicolon {inner rest : List Token} {stop : Token} (hstop : stop.kind = .semicolon)
      (hdepth : segmentDepth depth braces inner = some (0, 0)) :
      SegmentEnd depth braces inner (stop :: rest)
  | brace {before rest : List Token} {close : Token} {e b : Nat} (hclose : close.kind = .closeBrace)
      (hdepth : segmentDepth depth braces before = some (e, b)) (hbraces : b ≤ 1) :
      SegmentEnd depth braces (before ++ [close]) rest
  | last {inner : List Token} (hdepth : (segmentDepth depth braces inner).isSome) :
      SegmentEnd depth braces inner []

theorem SegmentEnd.cons {depth braces depth' braces' : Nat} {t : Token}
    {inner rest : List Token} (hend : SegmentEnd depth' braces' inner rest)
    (hstep : ∀ run, segmentDepth depth braces (t :: run) = segmentDepth depth' braces' run) :
    SegmentEnd depth braces (t :: inner) rest := by
  cases hend with
  | semicolon hstop hdepth => exact .semicolon hstop (by rw [hstep, hdepth])
  | brace hclose hdepth hbraces =>
      rw [← List.cons_append]
      exact .brace hclose (by rw [hstep, hdepth]) hbraces
  | last hdepth => exact .last (by rw [hstep]; exact hdepth)

theorem segmentEnd_splitSegment (depth braces : Nat) (ts : List Token) :
    SegmentEnd depth braces (splitSegment depth braces ts).1
      (splitSegment depth braces ts).2 := by
  fun_induction splitSegment depth braces ts with
  | case1 => exact .last rfl
  | case2 depth braces t ts hends =>
      obtain ⟨hkind, rfl, rfl⟩ := hends
      exact .semicolon hkind rfl
  | case3 depth braces t ts hgoes hclose hbraces =>
      rw [← List.nil_append [t]]
      exact .brace hclose rfl hbraces
  | case4 depth braces t ts hgoes hclose hmany ih =>
      exact ih.cons (by simp [segmentDepth, hclose, hmany])
  | case5 depth braces t ts hgoes hclose hopen ih =>
      exact ih.cons (by simp [segmentDepth, hopen])
  | case6 depth braces t ts hgoes hclose hopen ih =>
      exact ih.cons (by simp [segmentDepth, hgoes, hclose, hopen])

/-- The first token of a run is neither a blank nor a comment. -/
def StartsContent (ts : List Token) : Prop := ∃ t more, ts = t :: more ∧ t.isTrivia = false

namespace Segment

/-- Reading cuts this segment off in front of the given tokens. -/
inductive Fits (rest : List Token) : Segment → Prop
  | whitespace {t : Token} (hkind : t.kind = .whitespace) : Fits rest (.whitespace t)
  | comment {t : Token} (hkind : t.kind = .comment) : Fits rest (.comment t)
  | ended {inner : List Token} {stop : Token} (hstarts : StartsContent (inner ++ [stop]))
      (hdepth : segmentDepth 0 0 inner = some (0, 0)) (hstop : stop.kind = .semicolon) :
      Fits rest (.content inner (some stop))
  | blockEnded {before : List Token} {close stop : Token} {e b : Nat}
      (hstarts : StartsContent (before ++ [close]))
      (hdepth : segmentDepth 0 0 before = some (e, b)) (hbraces : b ≤ 1)
      (hclose : close.kind = .closeBrace) (hstop : stop.kind = .semicolon) :
      Fits rest (.content (before ++ [close]) (some stop))
  | block {before : List Token} {close : Token} {e b : Nat}
      (hstarts : StartsContent (before ++ [close]))
      (hdepth : segmentDepth 0 0 before = some (e, b)) (hbraces : b ≤ 1)
      (hclose : close.kind = .closeBrace)
      (hrest : ∀ t more, rest = t :: more → t.kind ≠ .semicolon) :
      Fits rest (.content (before ++ [close]) none)
  | last {inner : List Token} (hrest : rest = []) (hstarts : StartsContent inner)
      (hdepth : (segmentDepth 0 0 inner).isSome) : Fits rest (.content inner none)

theorem front_of_startsContent {t : Token} (ts : List Token) (h : t.isTrivia = false) :
    front t ts =
      match splitSegment 0 0 (t :: ts) with
      | (inner, []) => (.content inner none, [])
      | (inner, stop :: rest) =>
        if stop.kind = .semicolon then (.content inner (some stop), rest)
        else (.content inner none, stop :: rest) := by
  unfold front
  split
  · simp_all [Token.isTrivia]
  · simp_all [Token.isTrivia]
  · rfl

/-- What reading cuts off fits in front of the rest. -/
theorem fits_front (t : Token) (ts : List Token) : (front t ts).1.Fits (front t ts).2 := by
  by_cases htrivia : t.isTrivia = true
  · unfold front
    split
    · exact .whitespace ‹_›
    · exact .comment ‹_›
    · simp_all [Token.isTrivia]
  simp only [Bool.not_eq_true] at htrivia
  rw [front_of_startsContent ts htrivia]
  have happend := splitSegment_append 0 0 (t :: ts)
  have hend := segmentEnd_splitSegment 0 0 (t :: ts)
  -- The segment starts with `t`, because it is a part of the list from its front.
  have hfirst : ∀ run rest : List Token, run ≠ [] → run ++ rest = t :: ts → StartsContent run := by
    intro run rest hne heq
    cases run with
    | nil => contradiction
    | cons u more => exact ⟨u, more, rfl, by simp_all⟩
  split <;> rename_i heq <;> rw [heq] at happend hend
  · rename_i inner
    have hne : inner ≠ [] := by
      rintro rfl
      simp at happend
    cases hend with
    | brace hclose hdepth hbraces =>
        exact .block (hfirst _ [] hne happend) hdepth hbraces hclose (by simp)
    | last hdepth => exact .last rfl (hfirst _ [] hne happend) hdepth
  · rename_i inner stop rest
    split
    · rename_i hstop
      cases hend with
      | semicolon _ hdepth =>
          exact .ended (hfirst _ rest (by simp) (by simpa using happend)) hdepth hstop
      | brace hclose hdepth hbraces =>
          exact .blockEnded (hfirst _ (stop :: rest) (by simp) happend) hdepth hbraces hclose hstop
    · rename_i hstop
      cases hend with
      | semicolon hkind _ => contradiction
      | brace hclose hdepth hbraces =>
          refine .block (hfirst _ (stop :: rest) (by simp) happend) hdepth hbraces hclose ?_
          intro u more hrest
          obtain ⟨rfl, rfl⟩ := List.cons.inj hrest
          exact hstop

/-- What fits is what reading cuts off. -/
theorem front_eq_of_fits {segment : Segment} {rest : List Token} (h : segment.Fits rest) :
    ∃ t ts, segment.tokens = t :: ts ∧ front t (ts ++ rest) = (segment, rest) := by
  cases h with
  | whitespace hkind => exact ⟨_, [], rfl, by simp [front, hkind]⟩
  | comment hkind => exact ⟨_, [], rfl, by simp [front, hkind]⟩
  | @ended inner stop hstarts hdepth hstop =>
      obtain ⟨t, more, hstart, htrivia⟩ := hstarts
      refine ⟨t, more, hstart, ?_⟩
      rw [front_of_startsContent _ htrivia, ← List.cons_append, ← hstart, List.append_assoc,
        List.singleton_append, splitSegment_of_semicolon hdepth stop hstop]
      simp [hstop]
  | @blockEnded before close stop e b hstarts hdepth hbraces hclose hstop =>
      obtain ⟨t, more, hstart, htrivia⟩ := hstarts
      refine ⟨t, more ++ [stop], by simp [tokens, ← List.cons_append, ← hstart], ?_⟩
      have hlist : t :: (more ++ [stop] ++ rest) = before ++ close :: (stop :: rest) := by
        rw [List.append_assoc, ← List.cons_append, ← hstart]
        simp
      rw [front_of_startsContent _ htrivia, hlist,
        splitSegment_of_brace hdepth hbraces close hclose]
      simp [hstop]
  | @block before close e b hstarts hdepth hbraces hclose hrest =>
      obtain ⟨t, more, hstart, htrivia⟩ := hstarts
      refine ⟨t, more, by simp [tokens, hstart], ?_⟩
      rw [front_of_startsContent _ htrivia, ← List.cons_append, ← hstart, List.append_assoc,
        List.singleton_append, splitSegment_of_brace hdepth hbraces close hclose]
      cases rest with
      | nil => rfl
      | cons u rest => simp [hrest u rest rfl]
  | last hrest hstarts hdepth =>
      obtain ⟨t, more, rfl, htrivia⟩ := hstarts
      obtain ⟨counters, hcounters⟩ := Option.isSome_iff_exists.mp hdepth
      refine ⟨t, more, by simp [tokens], ?_⟩
      rw [hrest, List.append_nil, front_of_startsContent _ htrivia, splitSegment_of_end hcounters]

theorem Fits.semicolon_kind {inner rest : List Token} {stop : Token}
    (h : (content inner (some stop)).Fits rest) : stop.kind = .semicolon := by
  cases h <;> assumption

end Segment

/-- Every segment is proper in its place. -/
def ProperSegments : List Segment → Prop
  | [] => True
  | segment :: more => segment.Fits (more.flatMap Segment.tokens) ∧ ProperSegments more

/-- Proper segments are what reading makes of their tokens. -/
theorem segments_flatMap_tokens (parts : List Segment) (h : ProperSegments parts) :
    segments (parts.flatMap Segment.tokens) = parts := by
  induction parts with
  | nil => simp [segments]
  | cons segment more ih =>
      obtain ⟨hfits, hmore⟩ := h
      obtain ⟨t, ts, htokens, hfront⟩ := Segment.front_eq_of_fits hfits
      rw [List.flatMap_cons, htokens, List.cons_append, segments, hfront]
      simp [ih hmore]

/-- Reading gives proper segments. -/
theorem properSegments_segments (ts : List Token) : ProperSegments (segments ts) := by
  fun_induction segments ts with
  | case1 => trivial
  | case2 t ts next ih =>
      refine ⟨?_, ih⟩
      rw [flatMap_tokens_segments]
      exact Segment.fits_front t ts

end StyleFlip
