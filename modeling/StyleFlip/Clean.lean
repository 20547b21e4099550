import StyleFlip.Marking

/-!
# Cleaning a stylesheet for a direction

Cleaning applies the direction markers at every level and puts a rule that declares the direction in
front, after the statements that have to come first.
-/

namespace StyleFlip

/-- Applies the direction markers in the body of a rule. A body that lost something is printed from
its parts. -/
def Rule.clean (d : Direction) (r : Rule) : Rule :=
  let stripped := stripMarked BodyItem.role d r.body
  { r with body := stripped.value, source := if stripped.changed then none else r.source }

namespace Item

mutual

def clean (d : Direction) : Item → Item
  | .rule r => .rule (r.clean d)
  | .group head items => .group head (stripMarked role d (cleanEach d items)).value
  | item => item

def cleanEach (d : Direction) : List Item → List Item
  | [] => []
  | item :: rest => clean d item :: cleanEach d rest

end

def cleanAll (d : Direction) (items : List Item) : List Item :=
  (stripMarked role d (cleanEach d items)).value

def isTrivia : Item → Bool
  | .comment _ => true
  | .whitespace _ => true
  | _ => false

/-- The statements that have to come before all rules. -/
def leadingNames : List Text := ["charset", "import", "namespace", "layer"].map String.toList

def isLeading : Item → Bool
  | .statement head _ => leadingNames.contains head.base
  | _ => false

/-- Splits after the last leading statement at the front of a list, where only blanks and comments
may stand between such statements. -/
def splitLeading : List Item → List Item × List Item
  | [] => ([], [])
  | item :: rest =>
    if item.isLeading then Prod.map (item :: ·) id (splitLeading rest)
    else if item.isTrivia then
      match splitLeading rest with
      | ([], _) => ([], item :: rest)
      | (leading, after) => (item :: leading, after)
    else ([], item :: rest)

end Item

namespace Stylesheet

def addPreface (d : Direction) (sheet : Stylesheet) : Stylesheet :=
  match Item.splitLeading sheet with
  | (leading, after) => leading ++ .rule (.preface d) :: after

def clean (d : Direction) (sheet : Stylesheet) : Stylesheet := addPreface d (Item.cleanAll d sheet)

end Stylesheet

end StyleFlip
