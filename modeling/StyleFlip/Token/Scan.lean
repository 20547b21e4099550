import StyleFlip.Text.Basic

/-!
# Scanners

Scanners are functions that cut a text into the part they take and the rest. Every scanner here is
lossless, which means that the two parts make up the text.
-/

namespace StyleFlip

/-- A scanner returns what it takes from the front of a text and what it leaves. -/
abbrev Scan := Text → Text × Text

namespace Scan

/-- Nothing is lost between the two parts. -/
def Lossless (s : Scan) : Prop := ∀ text, (s text).1 ++ (s text).2 = text

def one : Scan
  | [] => ([], [])
  | c :: rest => ([c], rest)

def many (p : Char → Bool) : Scan := fun text => (text.takeWhile p, text.dropWhile p)

def andThen (s t : Scan) : Scan := fun text =>
  match s text with
  | (taken, rest) => Prod.map (taken ++ ·) id (t rest)

def when (test : Text → Bool) (s : Scan) : Scan := fun text =>
  if test text then s text else ([], text)

/-- What a scanner does with a character that no backslash stands before. -/
inductive Verdict
  | take
  | last
  | stop

/-- Scans unit by unit, a unit being a character or a backslash with the character after it. Units
of the second form are always taken; `verdict` decides on the others. -/
def units (verdict : Char → Verdict) : Scan
  | [] => ([], [])
  | '\\' :: c :: rest => Prod.map ('\\' :: c :: ·) id (units verdict rest)
  | c :: rest =>
    match verdict c with
    | .take => Prod.map (c :: ·) id (units verdict rest)
    | .last => ([c], rest)
    | .stop => ([], c :: rest)

/-- Through the next occurrence of `*/`, or to the end. -/
def throughCommentEnd : Scan
  | [] => ([], [])
  | '*' :: '/' :: rest => (['*', '/'], rest)
  | c :: rest => Prod.map (c :: ·) id (throughCommentEnd rest)

theorem andThen_apply (s t : Scan) (text : Text) :
    s.andThen t text = ((s text).1 ++ (t (s text).2).1, (t (s text).2).2) := rfl

theorem one_lossless : Lossless one := by
  intro text
  cases text <;> rfl

theorem many_lossless (p : Char → Bool) : Lossless (many p) := by
  intro text
  simp [many]

theorem andThen_lossless {s t : Scan} (hs : Lossless s) (ht : Lossless t) :
    Lossless (s.andThen t) := by
  intro text
  simp only [andThen_apply, List.append_assoc, ht (s text).2, hs text]

theorem when_lossless {test : Text → Bool} {s : Scan} (hs : Lossless s) :
    Lossless (s.when test) := by
  intro text
  unfold when
  split
  · exact hs text
  · rfl

theorem units_lossless (verdict : Char → Verdict) : Lossless (units verdict) := by
  intro text
  fun_induction units verdict text <;> simp_all

theorem throughCommentEnd_lossless : Lossless throughCommentEnd := by
  intro text
  fun_induction throughCommentEnd text <;> simp_all

theorem units_ne_nil {verdict : Char → Verdict} {c : Char} (rest : Text) (h : verdict c ≠ .stop) :
    (units verdict (c :: rest)).1 ≠ [] := by
  unfold units
  split
  · contradiction
  · simp
  · rename_i heq
    obtain ⟨rfl, rfl⟩ := List.cons.inj heq
    split <;> simp_all

theorem andThen_ne_nil_left {s t : Scan} {text : Text} (h : (s text).1 ≠ []) :
    (s.andThen t text).1 ≠ [] := by
  simp [andThen_apply, h]

theorem andThen_ne_nil_right {s t : Scan} {text : Text} (hs : (s text).2 = text)
    (h : (t text).1 ≠ []) : (s.andThen t text).1 ≠ [] := by
  simp [andThen_apply, hs, h]

end Scan

end StyleFlip
