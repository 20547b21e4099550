/-!
# Options of a flip
-/

namespace StyleFlip

structure FlipOptions where
  /-- Give advice. -/
  warnings : Bool := false
  /-- Exchange the pseudo-elements before and after an element. -/
  swapPseudo : Bool := false
  /-- Flip the words in urls. -/
  flipUrls : Bool := true
  /-- Flip the words in selectors. -/
  flipSelectors : Bool := true
deriving DecidableEq, Repr

end StyleFlip
