import StyleFlip.Flip.Rule

/-!
# Flipping stylesheets

Flipping goes into grouping at-rules and leaves alone what `@noflip` guards.
-/

namespace StyleFlip

namespace Item

variable {β : Type}

mutual

def flip (options : FlipOptions) : Item → Item
  | .rule r => .rule (r.flip options)
  | .group head items => .group head (flipAll options false items)
  | item => item

/-- Flips the items of a list that are not guarded; `guarded` is about the first of them. -/
def flipAll (options : FlipOptions) (guarded : Bool) : List Item → List Item
  | [] => []
  | item :: rest =>
    (if guarded then item else flip options item) ::
      flipAll options (item.role.guardNext guarded) rest

end

mutual

/-- Gathers what `f` says about the rules that a flip comes by, in document order. The first
argument of `f` tells whether the rule is guarded; a guarded at-rule is not entered. -/
def gather (f : Bool → Rule → List β) (guarded : Bool) : Item → List β
  | .rule r => f guarded r
  | .group _ items => if guarded then [] else gatherAll f false items
  | _ => []

def gatherAll (f : Bool → Rule → List β) (guarded : Bool) : List Item → List β
  | [] => []
  | item :: rest =>
    gather f guarded item ++ gatherAll f (item.role.guardNext guarded) rest

end

end Item

namespace Stylesheet

def flip (options : FlipOptions) (sheet : Stylesheet) : Stylesheet :=
  Item.flipAll options false sheet

def advice (options : FlipOptions) (sheet : Stylesheet) : List Diagnostic :=
  if options.warnings then
    Item.gatherAll (fun guarded r => if guarded then [] else r.advice options) false sheet
  else []

end Stylesheet

end StyleFlip
