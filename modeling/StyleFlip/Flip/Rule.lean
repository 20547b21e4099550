import StyleFlip.Flip.Declaration
import StyleFlip.Flip.Selector
import StyleFlip.Marking

/-!
# Flipping rules

A rule that nothing changed keeps its source text; one that some step changed loses it.
-/

namespace StyleFlip

def Selector.flip (options : FlipOptions) (selector : Selector) : Edit Selector :=
  ((Edit.start selector).stepIf options.swapPseudo Selector.hasSidePseudo
    Selector.swapPseudos).stepIf options.flipSelectors Selector.saysSide Selector.flipWords

def BodyItem.flip (options : FlipOptions) (guarded : Bool) : BodyItem → Edit BodyItem
  | .declaration d =>
    if guarded then .start (.declaration d)
    else ⟨.declaration (d.flip options).value, (d.flip options).changed⟩
  | item => .start item

namespace Body

def flip (options : FlipOptions) (body : Body) : Edit Body :=
  .all ((withGuards BodyItem.role false body).map fun (item, guarded) => item.flip options guarded)

def unguarded (body : Body) : List Declaration :=
  (withGuards BodyItem.role false body).filterMap fun (item, guarded) =>
    if guarded then none else item.declaration?

end Body

namespace Rule

def isChangedBy (options : FlipOptions) (r : Rule) : Bool :=
  (r.selector.flip options).changed || (r.body.flip options).changed

def flip (options : FlipOptions) (r : Rule) : Rule where
  selector := (r.selector.flip options).value
  body := (r.body.flip options).value
  span := r.span
  source := if r.isChangedBy options then none else r.source

def title (r : Rule) : Text := Text.trim (Selector.render r.selector)

def sideFloat? (r : Rule) : Option Declaration :=
  r.declarations.find? fun d => d.hasProperty "float".toList &&
    (Value.hasWord "left".toList d.value || Value.hasWord "right".toList d.value)

def isInline (r : Rule) : Bool :=
  r.declarations.any fun d =>
    d.hasProperty "display".toList && Value.hasWord "inline".toList d.value

/-- Advice about a rule, read off its flipped form. -/
def advice (options : FlipOptions) (r : Rule) : List Diagnostic :=
  let flipped := r.flip options
  r.body.unguarded.flatMap (·.advice flipped.title) ++
    match flipped.sideFloat? with
    | some d => if flipped.isInline then [.about .inlineFloat flipped.title d.span] else []
    | none => []

end Rule

end StyleFlip
