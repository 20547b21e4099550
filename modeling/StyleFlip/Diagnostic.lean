import StyleFlip.Span

/-!
# Diagnostics

Advice about rules whose flipped form may not look the way it was meant to. It never stops anything.
-/

namespace StyleFlip

inductive Concern
  /-- An inline element that also floats. -/
  | inlineFloat
  /-- A horizontal offset given as a length, which was kept. -/
  | ambiguousPosition (property value : Text)
deriving DecidableEq, Repr

def Concern.message : Concern → Text
  | .inlineFloat => "Inline element with float, the mirrored layout may differ".toList
  | .ambiguousPosition property value =>
    "Numeric horizontal offset in '".toList ++ property ++ ": ".toList ++ value ++
      "' was not mirrored".toList

structure Diagnostic where
  concern : Concern
  /-- The selector of the rule, trimmed. -/
  selector : Text
  location : Option Span
deriving DecidableEq, Repr

namespace Diagnostic

/-- A diagnostic about a declaration; an unknown span gives no location. -/
def about (concern : Concern) (selector : Text) (span : Span) : Diagnostic :=
  ⟨concern, selector, if span.isUnknown then none else some span⟩

def display (d : Diagnostic) : Text :=
  "Warning: ".toList ++ d.concern.message ++ " in '".toList ++ d.selector ++ ['\''] ++
    match d.location with
    | some span => " (".toList ++ span.display ++ [')']
    | none => []

end Diagnostic

end StyleFlip
