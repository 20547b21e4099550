import StyleFlip.Text.Words

/-!
# What has a counterpart on the other side

The tables of paired names, and the properties whose values speak about sides. Look-up ignores case.
-/

namespace StyleFlip

/-- Names that stand for each other, both ways. -/
abbrev Pairs := List (Text × Text)

namespace Pairs

def ofStrings (pairs : List (String × String)) : Pairs :=
  pairs.map fun pair => (pair.1.toList, pair.2.toList)

def counterpart? (pairs : Pairs) (name : Text) : Option Text :=
  pairs.findSome? fun pair =>
    if Text.sameIgnoringCase name pair.1 then some pair.2
    else if Text.sameIgnoringCase name pair.2 then some pair.1
    else none

def covers (pairs : Pairs) (name : Text) : Bool := (pairs.counterpart? name).isSome

/-- The counterpart of a name in the letter case of the name; other names stay. -/
def flip (pairs : Pairs) (name : Text) : Text :=
  match pairs.counterpart? name with
  | some other => Text.inCaseOf name other
  | none => name

end Pairs

def sideProperties : Pairs := .ofStrings
  [("left", "right"),
    ("margin-left", "margin-right"),
    ("padding-left", "padding-right"),
    ("border-left", "border-right"),
    ("border-left-width", "border-right-width"),
    ("border-left-style", "border-right-style"),
    ("border-left-color", "border-right-color"),
    ("border-top-left-radius", "border-top-right-radius"),
    ("border-bottom-left-radius", "border-bottom-right-radius"),
    ("-webkit-border-top-left-radius", "-webkit-border-top-right-radius"),
    ("-webkit-border-bottom-left-radius", "-webkit-border-bottom-right-radius"),
    ("-moz-border-radius-topleft", "-moz-border-radius-topright"),
    ("-moz-border-radius-bottomleft", "-moz-border-radius-bottomright")]

def sideKeywords : Pairs := .ofStrings
  [("left", "right"),
    ("e-resize", "w-resize"),
    ("ne-resize", "nw-resize"),
    ("se-resize", "sw-resize")]

def sidePseudos : Pairs := .ofStrings [("before", "after")]

def sideWords : Pairs := .ofStrings [("left", "right")]

/-- Properties whose values may hold one of `sideKeywords`. -/
def keywordProperties : List Text :=
  ["float", "clear", "text-align", "text-align-last", "cursor", "background",
    "background-position", "background-position-x", "object-position", "transform-origin",
    "perspective-origin", "mask-position"].map String.toList

/-- Properties whose horizontal component may be a length, which has no counterpart. -/
def positionProperties : List Text :=
  ["background-position", "background-position-x"].map String.toList

inductive Shorthand
  /-- Top, right, bottom, left. -/
  | box
  /-- Top left, top right, bottom right, bottom left; a slash divides horizontal and vertical
  radii. -/
  | corners
deriving DecidableEq, Repr

def shorthands : List (Text × Shorthand) :=
  [("margin", .box), ("padding", .box), ("border-width", .box), ("border-style", .box),
    ("border-color", .box), ("inset", .box), ("border-radius", .corners),
    ("-webkit-border-radius", .corners),
    ("-moz-border-radius", .corners)].map fun entry => (String.toList entry.1, entry.2)

def listed (names : List Text) (name : Text) : Bool := names.any (Text.sameIgnoringCase name)

def hasSideKeywords (property : Text) : Bool := listed keywordProperties property

def isPosition (property : Text) : Bool := listed positionProperties property

def Shorthand.ofProperty? (property : Text) : Option Shorthand :=
  (shorthands.find? fun entry => Text.sameIgnoringCase property entry.1).map (·.2)

end StyleFlip
