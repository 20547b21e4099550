import StyleFlip.Body.Basic
import StyleFlip.Diagnostic
import StyleFlip.Flip.Edit
import StyleFlip.Flip.Options
import StyleFlip.Flip.Shorthand
import StyleFlip.Flip.Value

/-!
# Flipping declarations
-/

namespace StyleFlip.Declaration

def flipProperty (d : Declaration) : Declaration :=
  { d with property := sideProperties.flip d.property }

def flipsProperty (d : Declaration) : Bool := sideProperties.covers d.property

/-- Flips the value of a shorthand. Here and below, `property` is the name from before the flip. -/
def flipShorthand (property : Text) (d : Declaration) : Declaration :=
  match Shorthand.ofProperty? property with
  | some shorthand => { d with value := shorthand.flip d.value }
  | none => d

def flipsShorthand (property : Text) (d : Declaration) : Bool :=
  match Shorthand.ofProperty? property with
  | some shorthand => shorthand.moves d.value
  | none => false

def flipKeywords (property : Text) (d : Declaration) : Declaration :=
  if hasSideKeywords property then { d with value := Value.flipKeywords d.value } else d

def flipsKeywords (property : Text) (d : Declaration) : Bool :=
  hasSideKeywords property && Value.saysSide d.value

def flipUrls (d : Declaration) : Declaration := { d with value := Value.flipUrls d.value }

def flipsUrls (d : Declaration) : Bool := Value.hasSideUrl d.value

/-- Everything but the urls. -/
def flipSides (d : Declaration) : Edit Declaration :=
  (((Edit.start d).step flipsProperty flipProperty).step (flipsShorthand d.property)
    (flipShorthand d.property)).step (flipsKeywords d.property) (flipKeywords d.property)

def flip (options : FlipOptions) (d : Declaration) : Edit Declaration :=
  d.flipSides.stepIf options.flipUrls flipsUrls flipUrls

/-- The horizontal slot of one layer of a position: the first of two, unless that is a vertical
keyword. -/
def horizontalSlot? : List Component → Option Component
  | [only] => some only
  | [first, second] =>
    if first.isWord "top".toList || first.isWord "bottom".toList then some second else some first
  | _ => none

def isOffset : Component → Bool
  | .leaf .number _ => true
  | .function name _ _ => Text.sameIgnoringCase name "calc".toList
  | _ => false

/-- Whether some layer of a position has a length as its horizontal slot. -/
def hasHorizontalOffset (value : Value) : Bool :=
  (Value.groupsAt ',' (Value.slots value)).any fun layer => (horizontalSlot? layer).any isOffset

def advice (selector : Text) (d : Declaration) : List Diagnostic :=
  let flipped := d.flipSides.value
  if isPosition d.property && hasHorizontalOffset flipped.value then
    [.about (.ambiguousPosition flipped.property flipped.valueText) selector flipped.span]
  else []

end StyleFlip.Declaration
