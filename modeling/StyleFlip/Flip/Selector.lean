import StyleFlip.Flip.Value
import StyleFlip.Selector.Basic

/-!
# Flipping selectors
-/

namespace StyleFlip

def splitPseudo (text : Text) : Text × Text :=
  match Text.breakLast ':' text with
  | (colons, colon :: name) => (colons ++ [colon], name)
  | (name, []) => ([], name)

namespace SelectorPart

def swapPseudo : SelectorPart → SelectorPart
  | .pseudo text =>
    match splitPseudo text with
    | (colons, name) => .pseudo (colons ++ sidePseudos.flip name)
  | part => part

def isSidePseudo : SelectorPart → Bool
  | .pseudo text => sidePseudos.covers (splitPseudo text).2
  | _ => false

/-- Flips the words of classes, ids and attribute values. -/
def flipWords : SelectorPart → SelectorPart
  | .className name => .className (StyleFlip.flipWords name)
  | .idName name => .idName (StyleFlip.flipWords name)
  | .attr a => .attr { a with value := StyleFlip.flipWords a.value }
  | part => part

/-- Whether flipping the words changes a part. -/
def saysSide : SelectorPart → Bool
  | .className name => (flipWords? name).isSome
  | .idName name => (flipWords? name).isSome
  | .attr a => (flipWords? a.value).isSome
  | _ => false

end SelectorPart

namespace Selector

def swapPseudos (selector : Selector) : Selector := selector.map SelectorPart.swapPseudo

def hasSidePseudo (selector : Selector) : Bool := selector.any SelectorPart.isSidePseudo

def flipWords (selector : Selector) : Selector := selector.map SelectorPart.flipWords

def saysSide (selector : Selector) : Bool := selector.any SelectorPart.saysSide

end Selector

end StyleFlip
