import StyleFlip.Proofs.CheckedRange

/-!
# Reading by index does not fail

Each pass of a loop takes at least the first token of what is left of its range, and starts the loop
over only behind that token. So every check of `StyleFlip.Checked` is passed, and reading by index
gives what cutting the token list gives (`parse_never_faults`).
-/

namespace StyleFlip.Checked

namespace Source

variable {α : Type} {src : Source} {lo hi : Nat}

/-! ### Loops -/

/-- The loop reads every range behind the index `lo`, up to the index `hi`. -/
def ReadsWithin (src : Source) (lo hi : Nat) (read : List Token → List α)
    (again : Nat → Nat → Read (List α)) : Prop :=
  ∀ {lo' hi' run}, lo < lo' → hi' ≤ hi → src.Window lo' hi' run →
    again lo' hi' = pure (read run)

/-- What one pass gives: the first entry of a range that starts with `t`, and the index after it. -/
def Passed (src : Source) (hi : Nat) (read : List Token → List α) (t : Token) (ts : List Token)
    (result : Read (α × Nat)) : Prop :=
  ∃ entry next rest, result = pure (entry, next) ∧ src.Window next hi rest ∧
    rest.length ≤ ts.length ∧ read (t :: ts) = entry :: read rest

/-- Every pass reads an entry, if the loop reads what comes after the first token. -/
structure Reads (src : Source) (pass : (Nat → Nat → Read (List α)) → Nat → Nat → Read (α × Nat))
    (read : List Token → List α) : Prop where
  nil : read [] = []
  cons : ∀ {again lo hi t ts}, src.Window lo hi (t :: ts) → src.ReadsWithin lo hi read again →
    src.Passed hi read t ts (pass again hi lo)

theorem passes_eq {pass : Nat → Read (α × Nat)} {read : List Token → List α}
    (hnil : read [] = [])
    (hpass : ∀ {pos t ts}, lo ≤ pos → src.Window pos hi (t :: ts) →
      src.Passed hi read t ts (pass pos))
    {pos : Nat} {run : List Token} (hpos : lo ≤ pos) (h : src.Window pos hi run) :
    passes pass hi pos = pure (read run) := by
  -- The rest of the range gets shorter with each pass.
  induction hn : run.length using Nat.strongRecOn generalizing pos run with
  | _ n ih =>
    cases run with
    | nil => rw [passes, h.eq_of_nil, if_neg (Nat.lt_irrefl hi), hnil]
    | cons t ts =>
        obtain ⟨entry, next, rest, hentry, hrest, hlength, hread⟩ := hpass hpos h
        have hsize := h.size
        have hrestSize := hrest.size
        rw [List.length_cons] at hsize hn
        have hnext : pos < next ∧ next ≤ hi := by omega
        have htail := ih rest.length (by omega) (by omega) hrest rfl
        rw [passes, if_pos h.lt, hentry, pure_bind]
        dsimp only
        rw [dif_pos hnext, htail, pure_bind, hread]

theorem Reads.loop_eq {pass : (Nat → Nat → Read (List α)) → Nat → Nat → Read (α × Nat)}
    {read : List Token → List α} (hreads : src.Reads pass read) {run : List Token}
    (h : src.Window lo hi run) : src.loop pass lo hi = pure (read run) := by
  -- The loop starts over on shorter ranges only.
  induction hn : run.length using Nat.strongRecOn generalizing lo hi run with
  | _ n ih =>
    rw [loop, if_pos h.bounds]
    refine passes_eq hreads.nil ?_ (Nat.le_refl lo) h
    intro pos t ts hpos hwindow
    refine hreads.cons hwindow ?_
    intro lo' hi' inner hlo hhi hinner
    have hlt := hwindow.lt
    have hsize := h.size
    have hinnerSize := hinner.size
    dsimp only
    rw [dif_pos (by omega)]
    exact ih inner.length (by omega) hinner rfl

/-! ### Values and declarations -/

theorem reads_value : src.Reads src.valuePass Value.read where
  nil := by rw [Value.read]
  cons := by
    intro again lo hi t ts h hagain
    rw [valuePass, h.head, pure_bind]
    by_cases hopens : Bracket.paren.opens t.kind = true
    · have hname : dropLastByte t.text = pure t.text.dropLast := by
        rw [← Token.dropLast_text_append h.spelled hopens, dropLastByte_concat (by decide),
          List.dropLast_concat]
      have hlength := length_splitClosing .paren 0 ts
      obtain ⟨close, hclose, hargs, hrest⟩ := h.exists_parenEnd hopens
      rw [if_pos hopens, hclose, pure_bind, hname, pure_bind,
        hagain (Nat.lt_succ_self lo) hrest.bounds.1 hargs, pure_bind]
      cases htail : (splitClosing .paren 0 ts).2 with
      | nil =>
          rw [htail] at hrest
          rw [hrest.eq_of_nil, if_neg (Nat.lt_irrefl hi)]
          exact ⟨_, hi, [], rfl, h.atEnd, Nat.zero_le _, by simp [Value.read, hopens, htail]⟩
      | cons closing rest =>
          rw [htail] at hrest hlength
          rw [List.length_cons] at hlength
          rw [if_pos hrest.lt]
          exact ⟨_, _, rest, rfl, hrest.tail, by omega,
            by simp [Value.read, hopens, htail, hrest.lt]⟩
    · rw [if_neg hopens]
      exact ⟨_, _, ts, rfl, h.tail, Nat.le_refl _, by rw [Value.read, if_neg hopens]⟩

theorem Window.value {run : List Token} (h : src.Window lo hi run) :
    src.value lo hi = pure (Value.read run) :=
  reads_value.loop_eq h

/-- The token at the start of the range is looked at even if the range is empty. -/
theorem Window.declaration? {run : List Token} (h : src.Window lo hi run) {t : Token}
    (ht : src.token lo = pure t) (hnil : run = [] → t.kind ≠ .ident) (semicolon : Bool) :
    src.declaration? lo hi semicolon = pure (Declaration.read? run semicolon) := by
  cases run with
  | nil =>
      rw [Source.declaration?, ht, pure_bind, if_neg (hnil rfl)]
      rfl
  | cons property rest =>
      rw [Source.declaration?, h.head, pure_bind, Declaration.read?]
      split
      · obtain ⟨pos, hpos, hgap, hafter⟩ := h.tail.exists_skip (·.isTrivia)
        rw [hpos, pure_bind, hafter.isAt, pure_bind]
        cases hdrop : rest.dropWhile (·.isTrivia) with
        | nil => rfl
        | cons colon after =>
            rw [hdrop] at hafter
            by_cases hcolon : colon.kind = .colon
            · obtain ⟨start, hstart, hblanks, hvalue⟩ :=
                hafter.tail.exists_skip (·.kind == .whitespace)
              have htext := (hgap.join (hafter.first.join hblanks)).text
              simp [hcolon, hstart, htext, hvalue.value, h.span]
            · simp [hcolon]
      · rfl

/-! ### Rule bodies -/

theorem Window.segment {stop next : Nat} {inner : List Token} (hinner : src.Window lo stop inner)
    (semicolon : Option Token) (hwhole : src.Window lo next (inner ++ semicolon.toList))
    {t : Token} (ht : src.token lo = pure t) (hnil : inner = [] → t.kind ≠ .ident) :
    src.segment lo stop next (inner.any (·.kind == .openBrace)) semicolon.isSome =
      pure (BodyItem.ofSegment (.content inner semicolon)) := by
  rw [Source.segment, hinner.declaration? ht hnil, BodyItem.ofSegment, Segment.declaration?,
    hwhole.raw]
  split
  · rfl
  · rw [pure_bind]
    cases Declaration.read? inner semicolon.isSome <;> rfl

/-- A segment that is neither a blank nor a comment, with the semicolon after it. -/
theorem Window.content {t : Token} {ts : List Token} (h : src.Window lo hi (t :: ts))
    (htrivia : t.isTrivia = false) :
    ∃ stop next nested semicolon, src.segmentEnd lo hi = pure (stop, nested) ∧
      src.isAt .semicolon stop hi = pure semicolon ∧
      (if semicolon then stop + 1 else stop) = next ∧
      src.segment lo stop next nested semicolon =
        pure (BodyItem.ofSegment (Segment.front t ts).1) ∧
      src.Window next hi (Segment.front t ts).2 := by
  obtain ⟨stop, hstop, hinner, hrest⟩ := h.exists_segmentEnd
  have hnil : (splitSegment 0 0 (t :: ts)).1 = [] → t.kind ≠ .ident := by
    intro hempty hident
    exact splitSegment_ne_nil 0 0 ts (by simp [hident]) hempty
  rw [hstop, Segment.front_of_startsContent ts htrivia]
  generalize splitSegment 0 0 (t :: ts) = parts at hinner hrest hnil ⊢
  obtain ⟨inner, rest⟩ := parts
  -- Without a semicolon the segment ends where its tokens do.
  have hopen := hinner.segment none (by simpa using hinner) h.head hnil
  cases rest with
  | nil => exact ⟨stop, stop, _, false, rfl, hrest.isAt _, rfl, hopen, hrest⟩
  | cons last rest =>
      by_cases hlast : last.kind = .semicolon
      · have hclosed := hinner.segment (some last) (hinner.join hrest.first) h.head hnil
        refine ⟨stop, stop + 1, _, true, rfl, ?_, rfl, ?_, ?_⟩
        · simp [hrest.isAt, hlast]
        · simpa [hlast] using hclosed
        · simpa [hlast] using hrest.tail
      · refine ⟨stop, stop, _, false, rfl, ?_, rfl, ?_, ?_⟩
        · rw [hrest.isAt, List.head?_cons, Option.any_some, beq_eq_false_iff_ne.mpr hlast]
        · simpa [hlast] using hopen
        · simpa [hlast] using hrest

theorem reads_body : src.Reads (fun _ => src.bodyPass) Body.read where
  nil := by simp [Body.read, segments]
  cons := by
    intro again lo hi t ts h _
    have hread : Body.read (t :: ts) =
        BodyItem.ofSegment (Segment.front t ts).1 :: Body.read (Segment.front t ts).2 := by
      rw [Body.read, segments]
      rfl
    suffices hpass : ∃ next, src.bodyPass hi lo =
        pure (BodyItem.ofSegment (Segment.front t ts).1, next) ∧
          src.Window next hi (Segment.front t ts).2 by
      obtain ⟨next, hpass, hnext⟩ := hpass
      exact ⟨_, next, _, hpass, hnext, Nat.le_of_lt_succ (Segment.length_front t ts), hread⟩
    rw [bodyPass, h.head, pure_bind]
    split
    · rename_i hkind
      rw [Segment.front, hkind]
      exact ⟨_, rfl, h.tail⟩
    · rename_i hkind
      rw [Segment.front, hkind]
      exact ⟨_, rfl, h.tail⟩
    · rename_i hspace hcomment
      have htrivia : t.isTrivia = false := by
        simp only [Token.isTrivia, Bool.or_eq_false_iff, beq_eq_false_iff_ne]
        exact ⟨hspace, hcomment⟩
      obtain ⟨stop, next, nested, semicolon, hstop, hsemicolon, hnext, hitem, hrest⟩ :=
        h.content htrivia
      rw [hstop, pure_bind]
      dsimp only
      rw [hsemicolon, pure_bind, hnext, hitem]
      exact ⟨next, rfl, hrest⟩

theorem Window.body {run : List Token} (h : src.Window lo hi run) :
    src.body lo hi = pure (Body.read run) :=
  reads_body.loop_eq h

/-! ### Selectors -/

theorem Window.exists_matcherStart {equals : Nat} {before : List Token}
    (h : src.Window lo equals before) :
    ∃ start, src.matcherStart lo equals = pure start ∧
      src.Window lo start (splitMatcherMark before).1 ∧
      src.Window start equals (splitMatcherMark before).2 := by
  rcases List.eq_nil_or_concat before with rfl | ⟨name, mark, rfl⟩
  · refine ⟨equals, ?_, h, h.atEnd⟩
    rw [matcherStart, h.eq_of_nil, if_neg (Nat.lt_irrefl equals)]
  · rw [List.concat_eq_append] at h ⊢
    obtain ⟨hname, hmark⟩ := h.cut rfl
    have hsize : lo + name.length + 1 = equals := hmark.size
    rw [matcherStart, if_pos (by omega), ← hsize, countDown, pure_bind, hmark.head, pure_bind,
      splitMatcherMark, List.getLast?_concat, List.dropLast_concat]
    dsimp only
    split
    · exact ⟨_, rfl, hname, hmark.first⟩
    · exact ⟨_, rfl, hname.join hmark.first, hmark.first.atEnd⟩

theorem Window.attributeIn {run : List Token} (h : src.Window lo hi run) :
    src.attributeIn lo hi = pure (Attribute.read run) := by
  obtain ⟨pos, hpos, hbefore, hafter⟩ := h.exists_skip (!·.isDelim '=')
  rw [Source.attributeIn, hpos, pure_bind, Attribute.read]
  cases hdrop : run.dropWhile (!·.isDelim '=') with
  | nil =>
      rw [hdrop] at hafter
      rw [hafter.eq_of_nil, if_neg (Nat.lt_irrefl hi), h.text]
      rfl
  | cons equals after =>
      rw [hdrop] at hafter
      obtain ⟨start, hstart, hname, hmark⟩ := hbefore.exists_matcherStart
      obtain ⟨valueStart, hvalueStart, hblanks, hrest⟩ := hafter.tail.exists_skip (·.isTrivia)
      obtain ⟨hvalue, hflags⟩ := hrest.cut_one
      rw [if_pos hafter.lt, hstart, pure_bind, hvalueStart, pure_bind]
      dsimp only
      rw [hname.text, (hmark.join (hafter.first.join hblanks)).text, hvalue.text, hflags.text]
      rfl

theorem Window.exists_pseudoName {pos : Nat} {colons rest : List Token}
    (hcolons : src.Window lo pos colons) (hrest : src.Window pos hi rest) :
    ∃ next, src.pseudoName hi lo pos = pure ((pseudoPart colons rest).1, next) ∧
      src.Window next hi (pseudoPart colons rest).2 := by
  cases rest with
  | nil =>
      rw [pseudoName, if_neg (by rw [hrest.eq_of_nil]; exact Nat.lt_irrefl hi), hcolons.text]
      exact ⟨pos, rfl, hrest⟩
  | cons t after =>
      rw [pseudoName, if_pos hrest.lt, hrest.head, pure_bind]
      by_cases hident : t.kind = .ident
      · simp only [pseudoPart, hident]
        rw [(hcolons.join hrest.first).text]
        exact ⟨_, rfl, hrest.tail⟩
      by_cases hfunction : t.kind = .function
      · obtain ⟨close, hclose, hargs, htail⟩ :=
          hrest.exists_parenEnd (by simp [Bracket.opens, hfunction])
        obtain ⟨hlast, hnext⟩ := htail.cut_one
        simp only [pseudoPart, hfunction]
        rw [hclose, pure_bind, (hcolons.join (hrest.first.join (hargs.join hlast))).text]
        exact ⟨_, rfl, hnext⟩
      · have hpart : pseudoPart colons (t :: after) = (.other (textOf colons), t :: after) := by
          unfold pseudoPart
          split <;> simp_all
        rw [hpart, hcolons.text]
        refine ⟨pos, ?_, hrest⟩
        split <;> simp_all

theorem Window.exists_pseudo {t : Token} {ts : List Token} (h : src.Window lo hi (t :: ts))
    (hkind : t.kind = .colon) :
    ∃ next, src.pseudo hi lo = pure ((selectorPart t ts).1, next) ∧
      src.Window next hi (selectorPart t ts).2 := by
  rw [pseudo, h.tail.isAt, pure_bind]
  simp only [selectorPart, hkind]
  cases ts with
  | nil => exact h.first.exists_pseudoName h.tail
  | cons second after =>
      by_cases hsecond : (second.kind == .colon) = true
      · simp only [List.head?_cons, Option.any_some, hsecond, if_true]
        exact (h.first.join h.tail.first).exists_pseudoName h.tail.tail
      · simp only [List.head?_cons, Option.any_some, hsecond, Bool.false_eq_true, if_false]
        exact h.first.exists_pseudoName h.tail

theorem Window.startsClass {t : Token} {ts : List Token} (h : src.Window lo hi (t :: ts)) :
    src.startsClass t (lo + 1) hi = pure (t.isDelim '.' && ts.head?.any (·.kind == .ident)) := by
  rw [Source.startsClass, h.tail.isAt]
  cases t.isDelim '.' <;> rfl

theorem reads_selector : src.Reads (fun _ => src.selectorPass) Selector.read where
  nil := by rw [Selector.read]
  cons := by
    intro again lo hi t ts h _
    have hread : Selector.read (t :: ts) =
        (selectorPart t ts).1 :: Selector.read (selectorPart t ts).2 := by
      rw [Selector.read]
    suffices hpass : ∃ next, src.selectorPass hi lo = pure ((selectorPart t ts).1, next) ∧
        src.Window next hi (selectorPart t ts).2 by
      obtain ⟨next, hpass, hnext⟩ := hpass
      exact ⟨_, next, _, hpass, hnext, selectorPart_length t ts, hread⟩
    -- A part that is made of the first token alone.
    have hone : ∀ part, selectorPart t ts = (part, ts) → ∃ next,
        (pure (part, lo + 1) : Read (SelectorPart × Nat)) = pure ((selectorPart t ts).1, next) ∧
          src.Window next hi (selectorPart t ts).2 := by
      intro part hpart
      rw [hpart]
      exact ⟨lo + 1, rfl, h.tail⟩
    rw [selectorPass, h.head, pure_bind]
    split
    · exact hone _ (by simp [selectorPart, *])
    · exact hone _ (by simp [selectorPart, *])
    · exact hone _ (by simp [selectorPart, *])
    · rename_i hkind
      rw [dropByte_text h.spelled (Or.inl hkind), pure_bind]
      exact hone _ (by simp [selectorPart, hkind])
    · exact hone _ (by simp [selectorPart, *])
    · exact h.exists_pseudo ‹_›
    · rename_i hkind
      obtain ⟨close, hclose, hinner, hafter⟩ := h.tail.exists_skip (·.kind != .closeBracket)
      simp only [selectorPart, hkind, attributePart]
      rw [hclose, pure_bind]
      cases hdrop : ts.dropWhile (·.kind != .closeBracket) with
      | nil =>
          rw [hdrop] at hafter
          rw [if_pos hafter.eq_of_nil, h.text]
          exact ⟨hi, rfl, h.atEnd⟩
      | cons last after =>
          rw [hdrop] at hafter
          rw [if_neg (Nat.ne_of_lt hafter.lt), hinner.attributeIn]
          exact ⟨_, rfl, hafter.tail⟩
    · rename_i hkind
      rw [h.startsClass, pure_bind]
      cases ts with
      | nil =>
          rw [List.head?_nil, Option.any_none, Bool.and_false, if_neg Bool.false_ne_true]
          exact hone _ (by simp [selectorPart, hkind])
      | cons name after =>
          rw [List.head?_cons, Option.any_some]
          by_cases hdot : (t.isDelim '.' && name.kind == .ident) = true
          · simp only [selectorPart, hkind, hdot, if_true]
            rw [h.tail.head]
            exact ⟨_, rfl, h.tail.tail⟩
          · rw [if_neg hdot]
            refine hone _ ?_
            simp only [selectorPart, hkind, hdot, Bool.false_eq_true, if_false]
            split <;> rfl
    · refine hone _ ?_
      unfold selectorPart
      split <;> simp_all

theorem Window.selector {run : List Token} (h : src.Window lo hi run) :
    src.selector lo hi = pure (Selector.read run) :=
  reads_selector.loop_eq h

/-! ### Stylesheets -/

def readItems (run : List Token) : List Item := Item.ofOutlines (outline run)

section Entry

variable {t : Token} {ts : List Token}

/-- A pass gives an entry as it was cut off, if no block in it is entered. -/
theorem Window.passed {next : Nat} {rest : List Token} (h : src.Window next hi rest)
    (entry : Outline) (hfront : Outline.front t ts = (entry, rest))
    (hentry : ∀ keyword params opening block closing,
      entry ≠ .verbatim keyword params opening block closing) :
    src.Passed hi readItems t ts (pure (Item.ofOutline entry, next)) := by
  refine ⟨_, next, rest, rfl, h, Nat.le_of_lt_succ (Outline.length_rest_of_front hfront), ?_⟩
  rw [readItems, outline_of_front hfront hentry]
  rfl

section Rule

variable (h : src.Window lo hi (t :: ts))
  (hfront : Outline.front t ts = Outline.styleRule (t :: ts))

include hfront

theorem passed_ruleBlock {selector after : List Token} {opening : Token} {mid : Nat}
    (hsplit : splitPrelude 0 (t :: ts) = (selector, opening :: after))
    (hopening : opening.kind = .openBrace) (hselector : src.Window lo mid selector)
    (hrest : src.Window mid hi (opening :: after)) :
    src.Passed hi readItems t ts (src.ruleBlock hi lo mid) := by
  rw [ruleBlock]
  rcases hrest.closing?_cases .brace (by simp [Bracket.opens, hopening]) with
    ⟨hblock, hfind⟩ | ⟨body, closing, rest, stop, hblock, hfind, hbody, htail⟩
  · have hwhole := hselector.join hrest
    rw [hfind, pure_bind]
    dsimp only
    rw [hwhole.raw]
    refine hwhole.atEnd.passed (.raw .unclosedBlock (selector ++ opening :: after)) ?_ (by simp)
    simp only [hfront, Outline.styleRule, hsplit, hopening, hblock]
  · have hwhole := hselector.join (hrest.first.join (hbody.join htail.first))
    rw [hfind, pure_bind]
    dsimp only
    rw [hwhole.span, pure_bind, hselector.selector, pure_bind, hbody.body, pure_bind,
      hwhole.slice_span (by simp), pure_bind]
    refine htail.tail.passed (.rule selector opening body closing) ?_ (by simp)
    simp only [hfront, Outline.styleRule, hsplit, hopening, hblock]

include h

theorem passed_rule : src.Passed hi readItems t ts (src.rule hi lo) := by
  rw [rule]
  rcases h.preludeEnd_cases with
    ⟨hsplit, hfind⟩ | ⟨selector, stop, after, mid, hsplit, hfind, hselector, hrest⟩
  · rw [hfind, pure_bind]
    dsimp only
    rw [h.raw]
    refine h.atEnd.passed (.raw .unterminated (t :: ts)) ?_ (by simp)
    simp only [hfront, Outline.styleRule, hsplit]
  · rw [hfind, pure_bind]
    dsimp only
    split
    · rename_i hkind
      exact passed_ruleBlock hfront hsplit (Option.some.inj hkind) hselector hrest
    · rename_i hkind
      rw [(hselector.join hrest.first).raw]
      refine hrest.tail.passed (.raw .missingBlock (selector ++ [stop])) ?_ (by simp)
      simp only [hfront, Outline.styleRule, hsplit, Option.some.inj hkind]
    · rename_i hopening hsemicolon
      rw [hselector.raw]
      refine hrest.passed (.raw .unterminated selector) ?_ (by simp)
      simp only [hfront, Outline.styleRule, hsplit]
      split <;> simp_all

end Rule

section AtRule

variable {again : Nat → Nat → Read (List Item)} (h : src.Window lo hi (t :: ts))
  (hfront : Outline.front t ts = Outline.atRule t ts)
  (hagain : src.ReadsWithin lo hi readItems again)

include h hfront hagain

theorem passed_atBlock {params after : List Token} {opening : Token} {mid : Nat}
    (hsplit : splitPrelude 0 ts = (params, opening :: after))
    (hopening : opening.kind = .openBrace) (hparams : src.Window (lo + 1) mid params)
    (hrest : src.Window mid hi (opening :: after)) :
    src.Passed hi readItems t ts (src.atBlock again hi lo mid (atName t) (textOf params)) := by
  rw [atBlock]
  rcases hrest.closing?_cases .brace (by simp [Bracket.opens, hopening]) with
    ⟨hblock, hfind⟩ | ⟨block, closing, rest, stop, hblock, hfind, hinner, htail⟩
  · have hwhole := h.first.join (hparams.join hrest)
    rw [hfind, pure_bind]
    dsimp only
    rw [hwhole.raw]
    refine h.atEnd.passed (.raw .unclosedAtRule (t :: (params ++ opening :: after))) ?_ (by simp)
    simp only [hfront, Outline.atRule, hsplit, hopening, hblock]
  · have hwhole := h.first.join (hparams.join (hrest.first.join (hinner.join htail.first)))
    have hspan : spanOf ([t] ++ (params ++ ([opening] ++ (block ++ [closing])))) =
        t.span.join closing.span := spanOf_atBlock t opening closing params block
    have hentry : Outline.front t ts = (.verbatim t params opening block closing, rest) := by
      simp only [hfront, Outline.atRule, hsplit, hopening, hblock]
    have hlength := Nat.le_of_lt_succ (Outline.length_rest_of_front hentry)
    rw [hfind, pure_bind]
    dsimp only
    rw [hwhole.span, pure_bind, hspan]
    by_cases hgrouping : isGrouping t = true
    · have hitems := hagain (by have := hparams.bounds; omega) (Nat.le_of_lt htail.lt) hinner
      have hname : groupingNames.contains (AtHead.baseName (atName t)) = true := hgrouping
      rw [if_pos hname, hitems]
      refine ⟨_, _, rest, rfl, htail.tail, hlength, ?_⟩
      rw [readItems, outline_of_front_verbatim hentry, if_pos hgrouping]
      rfl
    · have hname : ¬ groupingNames.contains (AtHead.baseName (atName t)) = true := hgrouping
      rw [if_neg hname, hinner.text]
      refine ⟨_, _, rest, rfl, htail.tail, hlength, ?_⟩
      rw [readItems, outline_of_front_verbatim hentry, if_neg hgrouping]
      rfl

theorem passed_atRule (hkind : t.kind = .atKeyword) :
    src.Passed hi readItems t ts (src.atRule again hi lo) := by
  rw [atRule, h.head, pure_bind, dropByte_text h.spelled (Or.inr hkind), pure_bind]
  rcases h.tail.preludeEnd_cases with
    ⟨hsplit, hfind⟩ | ⟨params, stop, after, mid, hsplit, hfind, hparams, hrest⟩
  · have hspan : src.span lo hi = pure (spanOf (t :: (ts ++ []))) := by
      rw [List.append_nil, h.span]
    rw [hfind, pure_bind]
    dsimp only
    rw [h.tail.text, pure_bind, hspan]
    refine h.atEnd.passed (.statement t ts none) ?_ (by simp)
    simp only [hfront, Outline.atRule, hsplit]
  · rw [hfind, pure_bind]
    dsimp only
    rw [hparams.text, pure_bind]
    split
    · rename_i hsemicolon
      rw [(h.first.join (hparams.join hrest.first)).span]
      refine hrest.tail.passed (.statement t params (some stop)) ?_ (by simp)
      simp only [hfront, Outline.atRule, hsplit, Option.some.inj hsemicolon]
    · contradiction
    · rename_i hopening
      exact passed_atBlock h hfront hagain hsplit (Option.some.inj hopening) hparams hrest
    · rename_i kind hsemicolon hopening hstop
      rw [(h.first.join hparams).raw]
      refine hrest.passed (.raw .cutOff (t :: params)) ?_ (by simp)
      simp only [hfront, Outline.atRule, hsplit]
      split <;> simp_all

end AtRule

end Entry

theorem reads_items : src.Reads src.itemPass readItems where
  nil := by
    rw [readItems, outline]
    rfl
  cons := by
    intro again lo hi t ts h hagain
    rw [itemPass, h.head, pure_bind]
    split
    · exact h.tail.passed (.whitespace t) (by simp [Outline.front, *]) (by simp)
    · exact h.tail.passed (.comment t) (by simp [Outline.front, *]) (by simp)
    · rw [h.first.raw]
      exact h.tail.passed (.raw .strayBrace [t]) (by simp [Outline.front, *]) (by simp)
    · rename_i hkind
      exact passed_atRule h (by rw [Outline.front, hkind]) hagain hkind
    · rename_i hspace hcomment hbrace hat
      refine passed_rule h ?_
      unfold Outline.front
      split <;> simp_all

end Source

/-- Reading any text by index ends without a fault. Each loop starts on a range of the tokens, each
of its passes moves on within that range, and it is started over on smaller ranges only. No index is
out of range, no counter goes below zero, and every slice lies between character boundaries. What is
read is the stylesheet that the text spells. -/
theorem parse_never_faults (css : Text) : parse css = .ok (Stylesheet.parse css) :=
  Source.reads_items.loop_eq (Source.window_tokenize css)

end StyleFlip.Checked
