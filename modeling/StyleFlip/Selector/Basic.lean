import StyleFlip.Text.Basic

/-!
# Selectors

A selector is a list of parts, each keeping its source text.
-/

namespace StyleFlip

/-- An attribute `[name matcher value flags]`; blanks and comments belong to the part before which
or after which they stand. -/
structure Attribute where
  name : Text
  matcher : Text
  value : Text
  flags : Text
deriving DecidableEq, Repr

inductive SelectorPart
  | whitespace (text : Text)
  | comment (text : Text)
  /-- An element name. -/
  | element (name : Text)
  /-- A class, without its dot. -/
  | className (name : Text)
  /-- An id, without its hash sign. -/
  | idName (name : Text)
  | attr (a : Attribute)
  /-- A pseudo-class or pseudo-element, with its colons. -/
  | pseudo (text : Text)
  /-- A functional pseudo-class, kept whole. -/
  | pseudoFunction (text : Text)
  | combinator (text : Text)
  | comma
  | other (text : Text)
deriving DecidableEq, Repr

abbrev Selector := List SelectorPart

def Attribute.render (a : Attribute) : Text :=
  '[' :: (a.name ++ a.matcher ++ a.value ++ a.flags ++ [']'])

def SelectorPart.render : SelectorPart → Text
  | .whitespace text => text
  | .comment text => text
  | .element name => name
  | .className name => '.' :: name
  | .idName name => '#' :: name
  | .attr a => a.render
  | .pseudo text => text
  | .pseudoFunction text => text
  | .combinator text => text
  | .comma => [',']
  | .other text => text

def Selector.render (selector : Selector) : Text := selector.flatMap SelectorPart.render

@[simp]
theorem Selector.render_cons (part : SelectorPart) (rest : Selector) :
    Selector.render (part :: rest) = part.render ++ Selector.render rest := rfl

end StyleFlip
