import StyleFlip.Proofs.CommandEffects
import StyleFlip.Proofs.MirroredSelector
import StyleFlip.Proofs.SourceAdvice

/-!
# Lines of warnings

A run prints each diagnostic and a line feed. A diagnostic quotes the selector of its rule, and one
about a position quotes the value too. Both are quoted as they are written, so either may have line
feeds of its own. What is printed has one line for each diagnostic exactly when none of these quotes
has a line feed (`report_lines_iff`). A flip respells the quotes, but it leaves the line feeds where
they are, so the quotes can be looked up in the source.
-/

namespace StyleFlip

/-! ### Lines -/

namespace Text

/-- The lines of a text. A line feed ends a line, and the last line may do without. -/
def lines : Text → List Text
  | [] => []
  | c :: rest =>
    if c = '\n' then [] :: lines rest
    else
      match lines rest with
      | [] => [[c]]
      | line :: more => (c :: line) :: more

theorem lines_append {line : Text} (h : '\n' ∉ line) (rest : Text) :
    lines (line ++ '\n' :: rest) = line :: lines rest := by
  induction line with
  | nil => simp [lines]
  | cons c line ih =>
      rw [List.mem_cons, not_or] at h
      rw [List.cons_append, lines, if_neg (Ne.symm h.1), ih h.2]

theorem length_lines_append (a rest : Text) :
    (lines (a ++ '\n' :: rest)).length = a.count '\n' + 1 + (lines rest).length := by
  induction a with
  | nil => simp [lines, Nat.add_comm]
  | cons c a ih =>
      rw [List.cons_append, lines]
      by_cases hc : c = '\n'
      · rw [if_pos hc, List.length_cons, ih, hc, List.count_cons_self]
        omega
      · have hlength : ∀ ls : List Text, 0 < ls.length →
            (match ls with
              | [] => [[c]]
              | line :: more => (c :: line) :: more).length = ls.length := by
          intro ls hls
          cases ls with
          | nil => contradiction
          | cons line more => rfl
        rw [if_neg hc, hlength _ (by omega), ih, List.count_cons_of_ne hc]

end Text

/-- One line for each diagnostic, and every line starts as a warning does. -/
structure PrintsLines (printed : Text) (diagnostics : List Diagnostic) : Prop where
  count : (Text.lines printed).length = diagnostics.length
  warns : ∀ line ∈ Text.lines printed, "Warning: ".toList <+: line

theorem Diagnostic.starts_display (d : Diagnostic) : "Warning: ".toList <+: d.display := by
  unfold display
  simp only [List.append_assoc]
  exact List.prefix_append _ _

theorem lines_flatMap_display {ds : List Diagnostic} (h : ∀ d ∈ ds, '\n' ∉ d.display) :
    Text.lines (ds.flatMap (·.display ++ ['\n'])) = ds.map (·.display) := by
  induction ds with
  | nil => rfl
  | cons d ds ih =>
      rw [List.forall_mem_cons] at h
      rw [List.flatMap_cons, List.append_assoc, List.singleton_append, Text.lines_append h.1,
        ih h.2, List.map_cons]

theorem length_le_lines (ds : List Diagnostic) :
    ds.length ≤ (Text.lines (ds.flatMap (·.display ++ ['\n']))).length := by
  induction ds with
  | nil => exact Nat.zero_le _
  | cons d ds ih =>
      rw [List.flatMap_cons, List.append_assoc, List.singleton_append, Text.length_lines_append,
        List.length_cons]
      omega

theorem newline_not_mem_of_length {ds : List Diagnostic}
    (h : (Text.lines (ds.flatMap (·.display ++ ['\n']))).length = ds.length) :
    ∀ d ∈ ds, '\n' ∉ d.display := by
  induction ds with
  | nil => simp
  | cons d ds ih =>
      have hrest := length_le_lines ds
      rw [List.flatMap_cons, List.append_assoc, List.singleton_append, Text.length_lines_append,
        List.length_cons] at h
      rw [List.forall_mem_cons]
      exact ⟨List.count_eq_zero.mp (by omega), ih (by omega)⟩

/-- Diagnostics are printed line by line as long as none of them has a line feed in it. -/
theorem printsLines_iff (ds : List Diagnostic) :
    PrintsLines (ds.flatMap (·.display ++ ['\n'])) ds ↔ ∀ d ∈ ds, '\n' ∉ d.display := by
  constructor
  · intro h
    exact newline_not_mem_of_length h.count
  · intro h
    have hlines := lines_flatMap_display h
    refine ⟨by rw [hlines, List.length_map], fun line hline => ?_⟩
    rw [hlines] at hline
    obtain ⟨d, -, rfl⟩ := List.mem_map.mp hline
    exact d.starts_display

/-! ### Respelled texts keep their line feeds -/

namespace Text

theorem not_isBlank_of_isRunChar {c : Char} (h : isRunChar c = true) : isBlank c = false := by
  rcases isRunChar_cases h with halpha | rfl
  · exact not_isBlank_of_isAlphanum (by simp [Char.isAlphanum, halpha])
  · rfl

theorem trimEnd_append_eq (a b : Text) :
    trimEnd (a ++ b) = if (trimEnd b).isEmpty then trimEnd a else a ++ trimEnd b := by
  rw [trimEnd, trimEnd, trimEnd, List.reverse_append, List.dropWhile_append, List.isEmpty_reverse]
  split
  · rfl
  · rw [List.reverse_append, List.reverse_reverse]

theorem trimEnd_of_isRun {w : Text} (h : IsRun w) : trimEnd w = w := by
  have hend : endsBlank w = false := by
    obtain ⟨c, d, more, hcons, -, -⟩ := h.exists_cons
    have hne : w ≠ [] := by simp [hcons]
    rw [endsBlank, List.getLast?_eq_some_getLast hne]
    exact not_isBlank_of_isRunChar (h.2 _ (List.getLast_mem hne))
  simpa using trimEnd_append (b := []) hend (by simp)

end Text

namespace Respelled

open Text

variable {x y : Text}

theorem trimStart (h : Respelled x y) : Respelled (trimStart x) (trimStart y) := by
  induction h with
  | nil => exact .nil
  | keep c h ih =>
      by_cases hc : isBlank c = true
      · simpa [Text.trimStart, hc] using ih
      · simpa [Text.trimStart, hc] using h.keep c
  | run hw hw' h _ =>
      have hstart : ∀ {w : Text}, IsRun w → ∀ z, Text.trimStart (w ++ z) = w ++ z := by
        intro w hw z
        obtain ⟨c, d, more, rfl, hc, -⟩ := hw.exists_cons
        simp [Text.trimStart, not_isBlank_of_isRunChar hc]
      rw [hstart hw, hstart hw']
      exact .run hw hw' h

theorem isEmpty_eq (h : Respelled x y) : x.isEmpty = y.isEmpty := by
  cases x with
  | nil => rw [h.eq_nil]
  | cons c x =>
      cases y with
      | nil => exact absurd h.symm.eq_nil (by simp)
      | cons d y => rfl

theorem trimEnd_append {w w' : Text} (hw : Respelled w w')
    (htrim : Respelled (trimEnd w) (trimEnd w')) (hrest : Respelled (trimEnd x) (trimEnd y)) :
    Respelled (trimEnd (w ++ x)) (trimEnd (w' ++ y)) := by
  rw [trimEnd_append_eq, trimEnd_append_eq, hrest.isEmpty_eq]
  split
  · exact htrim
  · exact hw.append hrest

theorem trimEnd (h : Respelled x y) : Respelled (trimEnd x) (trimEnd y) := by
  induction h with
  | nil => exact .nil
  | keep c _ ih => exact trimEnd_append (.refl [c]) (.refl _) ih
  | run hw hw' _ ih =>
      have hrun : Respelled _ _ := .run hw hw' .nil
      simp only [List.append_nil] at hrun
      refine trimEnd_append hrun ?_ ih
      rw [trimEnd_of_isRun hw, trimEnd_of_isRun hw']
      exact hrun

theorem trim (h : Respelled x y) : Respelled (trim x) (trim y) := h.trimStart.trimEnd

/-- A character that is in no run is in both texts or in none. -/
theorem mem_iff {c : Char} (hc : isRunChar c = false) (h : Respelled x y) : c ∈ x ↔ c ∈ y := by
  induction h with
  | nil => exact Iff.rfl
  | keep d _ ih => rw [List.mem_cons, List.mem_cons, ih]
  | run hw hw' _ ih =>
      have hnot : ∀ {w : Text}, IsRun w → c ∉ w := by
        intro w hw hmem
        exact absurd (hw.2 c hmem) (by simp [hc])
      rw [List.mem_append, List.mem_append, ih]
      simp [hnot hw, hnot hw']

end Respelled

/-! ### Quotes -/

theorem SelectorPart.respelled_flip (options : FlipOptions) (part : SelectorPart) :
    Respelled part.render (part.flip options).render := by
  cases part with
  | pseudo text =>
      rw [flip_pseudo, flipPseudo]
      split
      · have hname := Pairs.respelled_flip Pairs.isSound_sidePseudos (splitPseudo text).2
        have hsplit : Respelled ((splitPseudo text).1 ++ (splitPseudo text).2) _ :=
          (Respelled.refl _).append hname
        rw [append_splitPseudo] at hsplit
        exact hsplit
      · exact .refl text
  | className name =>
      rw [flip_className]
      exact (respelled_flipName options name).keep '.'
  | idName name =>
      rw [flip_idName]
      exact (respelled_flipName options name).keep '#'
  | attr a =>
      rw [flip_attr]
      have hvalue := respelled_flipName options a.value
      exact ((((Respelled.refl _).append hvalue).append (.refl _)).append (.refl _)).keep '['
  | _ =>
      rw [flip_of_isFixed rfl]
      exact .refl _

theorem Selector.respelled_flip (options : FlipOptions) (selector : Selector) :
    Respelled (Selector.render selector)
      (Selector.render (Selector.flip options selector).value) := by
  rw [Selector.value_flip]
  induction selector with
  | nil => exact .nil
  | cons part rest ih => exact (part.respelled_flip options).append ih

theorem Rule.respelled_title (options : FlipOptions) (r : Rule) :
    Respelled r.title (r.flip options).title :=
  (Selector.respelled_flip options r.selector).trim

theorem Component.respelled_mapLeavesAll {enter : Text → Bool} {f : LeafKind → Text → Text}
    (hf : ∀ kind text, Respelled text (f kind text)) (components : List Component) :
    Respelled (renderAll components) (renderAll (mapLeavesAll enter f components)) := by
  induction components using listInduction with
  | nil => exact .nil
  | leaf kind text rest ih => exact (hf kind text).append ih
  | function name args closed rest ihargs ihrest =>
      have hargs : Respelled (renderAll args)
          (renderAll (if enter name then mapLeavesAll enter f args else args)) := by
        split
        · exact ihargs
        · exact .refl _
      refine Respelled.append ?_ ihrest
      exact (Respelled.refl name).append ((hargs.append (.refl _)).keep '(')

namespace Declaration

variable {d : Declaration}

theorem IsAmbiguous.exists_name (h : d.IsAmbiguous) :
    ∃ name ∈ positionProperties, Text.sameIgnoringCase d.property name = true := by
  rcases h.property with hname | hname
  · exact ⟨_, by simp [positionProperties], hname⟩
  · exact ⟨_, by simp [positionProperties], hname⟩

theorem IsAmbiguous.newline_not_mem_property (h : d.IsAmbiguous) :
    '\n' ∉ d.flipSides.value.property := by
  have hposition : isPosition d.flipSides.value.property = true := by
    rw [value_flipSides, isPosition_flip]
    exact (Bool.and_eq_true_iff.mp (isAmbiguous_iff.mp h)).1
  obtain ⟨name, hmem, hsame⟩ := List.any_eq_true.mp hposition
  have hnames : ∀ name ∈ positionProperties, '\n' ∉ Text.lower name := by decide +kernel
  intro hnewline
  have hlower : '\n' ∈ Text.lower d.flipSides.value.property :=
    List.mem_map.mpr ⟨'\n', hnewline, by decide⟩
  rw [beq_iff_eq.mp hsame] at hlower
  exact hnames name hmem hlower

theorem IsAmbiguous.respelled_valueText (h : d.IsAmbiguous) :
    Respelled d.valueText d.flipSides.value.valueText := by
  obtain ⟨name, hmem, hsame⟩ := h.exists_name
  refine Respelled.trim ?_
  rw [value_flipSides, moveSlots_advised (List.mem_append_left _ hmem) hsame]
  dsimp only
  split
  · exact Component.respelled_mapLeavesAll Value.respelled_keyword d.value
  · exact .refl _

end Declaration

/-- What a diagnostic quotes of its rule, as it is written in the source. -/
def Finding.quotes (r : Rule) (f : Finding) : List Text :=
  match f.topic with
  | .inlineFloat => [r.title]
  | .ambiguousPosition => [r.title, f.declaration.valueText]

theorem Text.newline_not_mem_ofNat (n : Nat) : '\n' ∉ Text.ofNat n := by
  intro h
  exact absurd (Nat.isDigit_of_mem_toDigits (by decide) (by decide) h) (by decide)

theorem Span.newline_not_mem_display (s : Span) : '\n' ∉ s.display := by
  unfold display
  split
  · decide
  · simp [Text.newline_not_mem_ofNat]

theorem Diagnostic.newline_mem_display_iff (d : Diagnostic) :
    '\n' ∈ d.display ↔ '\n' ∈ d.concern.message ∨ '\n' ∈ d.selector := by
  unfold display
  cases d.location with
  | none => simp
  | some span => simp [span.newline_not_mem_display]

theorem Concern.newline_mem_message_iff (property value : Text) :
    '\n' ∈ (Concern.ambiguousPosition property value).message ↔
      '\n' ∈ property ∨ '\n' ∈ value := by
  have hmessage : (Concern.ambiguousPosition property value).message =
      "Numeric horizontal offset in '".toList ++ property ++ ": ".toList ++ value ++
        "' was not mirrored".toList := rfl
  rw [hmessage]
  simp

theorem Concern.newline_not_mem_inlineFloat : '\n' ∉ Concern.inlineFloat.message := by
  have hmessage : Concern.inlineFloat.message =
      "Inline element with float, the mirrored layout may differ".toList := rfl
  rw [hmessage]
  simp

theorem Rule.isAmbiguous_of_mem_findings {r : Rule} {d : Declaration}
    (h : ⟨.ambiguousPosition, d⟩ ∈ r.findings) : d.IsAmbiguous := by
  rw [findings, List.mem_append] at h
  rcases h with hposition | hfloat
  · obtain ⟨d', hd', heq⟩ := List.mem_map.mp hposition
    obtain ⟨-, rfl⟩ := Finding.mk.inj heq
    simpa using (List.mem_filter.mp hd').2
  · split at hfloat
    · obtain ⟨d', -, heq⟩ := List.mem_map.mp hfloat
      simp at heq
    · contradiction

/-- A diagnostic has a line feed in it when one of its quotes has one in the source. -/
theorem Rule.newline_mem_diagnostic_iff (options : FlipOptions) {r : Rule} {f : Finding}
    (hf : f ∈ r.findings) :
    '\n' ∈ (f.diagnostic (r.flip options).title).display ↔ ∃ quote ∈ f.quotes r, '\n' ∈ quote := by
  have htitle := (r.respelled_title options).mem_iff (c := '\n') rfl
  obtain ⟨topic, d⟩ := f
  rw [Diagnostic.newline_mem_display_iff]
  cases topic with
  | inlineFloat =>
      simp [Finding.diagnostic, Diagnostic.about, Finding.concern, Finding.quotes,
        Concern.newline_not_mem_inlineFloat, htitle]
  | ambiguousPosition =>
      have hambiguous := isAmbiguous_of_mem_findings hf
      have hvalue := hambiguous.respelled_valueText.mem_iff (c := '\n') rfl
      have hproperty := hambiguous.newline_not_mem_property
      simp [Finding.diagnostic, Diagnostic.about, Finding.concern, Finding.quotes,
        Concern.newline_mem_message_iff, hproperty, htitle, hvalue, or_comm]

theorem Stylesheet.advice_eq_flatMap_findings {options : FlipOptions}
    (h : options.warnings = true) (sheet : Stylesheet) :
    advice options sheet = sheet.exposed.flatMap fun r =>
      r.findings.map (Finding.diagnostic (r.flip options).title) := by
  rw [advice, if_pos h, Item.gatherAll_of_gather (Item.gather_eq_flatMap_exposed _ sheet)]
  congr 1
  funext r
  exact r.advice_eq_map options

theorem Stylesheet.newline_not_mem_advice_iff {options : FlipOptions}
    (h : options.warnings = true) (sheet : Stylesheet) :
    (∀ d ∈ advice options sheet, '\n' ∉ d.display) ↔
      ∀ r ∈ sheet.exposed, ∀ f ∈ r.findings, ∀ quote ∈ f.quotes r, '\n' ∉ quote := by
  rw [advice_eq_flatMap_findings h]
  simp only [List.mem_flatMap, List.mem_map]
  constructor
  · intro hall r hr f hf quote hquote hnewline
    exact hall _ ⟨r, hr, f, hf, rfl⟩
      ((r.newline_mem_diagnostic_iff options hf).mpr ⟨quote, hquote, hnewline⟩)
  · rintro hall d ⟨r, hr, f, hf, rfl⟩ hnewline
    obtain ⟨quote, hquote, hmem⟩ := (r.newline_mem_diagnostic_iff options hf).mp hnewline
    exact hall r hr f hf quote hquote hmem

/-- With warnings on, a run prints one line for each diagnostic, all of them warnings, if and only
if nothing that the diagnostics quote of the source has a line feed in it. -/
theorem report_lines_iff (css : Text) (request : Request)
    (hwarnings : request.config.flip.warnings = true) :
    (∀ arguments files location, Accepts arguments files request →
      request.Ready files css location →
        (run arguments files).1.stdout = request.report (transform css request.config)) ∧
      (PrintsLines (request.report (transform css request.config))
          (transform css request.config).diagnostics ↔
        request.config.cleanOnly = true ∨
          ∀ r ∈ (prepare css request.config).exposed, ∀ f ∈ r.findings,
            ∀ quote ∈ f.quotes r, '\n' ∉ quote) := by
  constructor
  · intro arguments files location haccepts hready
    rw [run_of_ready haccepts hready]
    rfl
  · rw [Request.report, if_pos hwarnings, printsLines_iff, transform]
    cases hclean : request.config.cleanOnly with
    | true => simp
    | false => simpa using Stylesheet.newline_not_mem_advice_iff hwarnings _

theorem report_lines_of_inline_floats :
    let request : Request :=
      ⟨{ flip := { warnings := true } }, "in.css".toList, "out.css".toList⟩
    let flipped := transform
      ".a\x7bfloat:left;display:inline\x7d\n.b\x7bbackground-position:0\x7d".toList request.config
    PrintsLines (request.report flipped) flipped.diagnostics :=
  (report_lines_iff _ _ rfl).2.mpr (.inr (by decide +kernel))

/-- A selector over two lines takes its diagnostic over two lines. -/
theorem selector_breaks_line :
    let css := ".a,\n.b\x7bfloat:left;display:inline\x7d".toList
    let files := Files.place ⟨[]⟩ "in.css".toList (.file (.text css))
    (Text.lines (run ["-w".toList, "in.css".toList, "out.css".toList] files).1.stdout).length = 2 ∧
      (transform css { flip := { warnings := true } }).diagnostics.length = 1 := by
  decide +kernel

end StyleFlip
