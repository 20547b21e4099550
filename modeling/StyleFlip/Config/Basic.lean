import StyleFlip.Direction
import StyleFlip.Flip.Options

/-!
# Configuration of a transform
-/

namespace StyleFlip

/-- Cleaning happens when a direction is given, and flipping unless only cleaning is asked for. -/
structure Config where
  direction : Option Direction := none
  cleanOnly : Bool := false
  flip : FlipOptions := {}
deriving DecidableEq, Repr

end StyleFlip
