import StyleFlip.Body.Basic
import StyleFlip.Selector.Basic

/-!
# Stylesheets

A stylesheet is a tree of items. Every item keeps the text it was read from, so that a tree which
nothing has changed prints back to its source. A rule carries its source text as a whole until it is
touched; from then on it is printed from its parts.
-/

namespace StyleFlip

structure Rule where
  selector : Selector
  body : Body
  span : Span
  /-- The source text, as long as the rule is as it was read. -/
  source : Option Text
deriving DecidableEq, Repr

namespace Rule

/-- The rule `body{direction:d;}`, which stands in no source text. -/
def preface (d : Direction) : Rule where
  selector := [.element "body".toList]
  body := [.declaration (.simple "direction".toList d.name)]
  span := .unknown
  source := none

def touch (r : Rule) : Rule := { r with source := none }

def isTouched (r : Rule) : Bool := r.source.isNone

def declarations (r : Rule) : List Declaration := r.body.declarations

/-- The text of a rule put together from its parts. -/
def partsText (r : Rule) : Text :=
  Selector.render r.selector ++ '{' :: (Body.render r.body ++ ['}'])

def render (r : Rule) : Text := r.source.getD r.partsText

@[simp]
theorem render_touch (r : Rule) : r.touch.render = r.partsText := rfl

end Rule

/-- What stands before the block or the end of an at-rule. -/
structure AtHead where
  /-- The name without the at sign. -/
  name : Text
  /-- From the end of the name to the block or the semicolon. -/
  params : Text
  /-- The span of the whole at-rule. -/
  span : Span
deriving DecidableEq, Repr

namespace AtHead

/-- The name in lower case, without a vendor part such as `-webkit-`. -/
def baseName (name : Text) : Text :=
  match Text.lower name with
  | '-' :: rest =>
    match rest.dropWhile (· != '-') with
    | '-' :: base => base
    | _ => '-' :: rest
  | plain => plain

def base (head : AtHead) : Text := baseName head.name

def render (head : AtHead) : Text := '@' :: (head.name ++ head.params)

end AtHead

/-- An item of a stylesheet. An at-rule is a `statement` when it has no block, a `group` when its
block holds items, and `verbatim` when its block is kept as text. -/
inductive Item
  | rule (rule : Rule)
  | statement (head : AtHead) (semicolon : Bool)
  | verbatim (head : AtHead) (block : Text)
  | group (head : AtHead) (items : List Item)
  | comment (comment : Comment)
  | whitespace (text : Text)
  | raw (raw : Raw)
deriving Repr

abbrev Stylesheet := List Item

namespace Item

mutual

def render : Item → Text
  | .rule r => r.render
  | .statement head semicolon => head.render ++ if semicolon then [';'] else []
  | .verbatim head block => head.render ++ '{' :: (block ++ ['}'])
  | .group head items => head.render ++ '{' :: (renderAll items ++ ['}'])
  | .comment c => c.text
  | .whitespace text => text
  | .raw r => r.text

def renderAll : List Item → Text
  | [] => []
  | item :: rest => render item ++ renderAll rest

end

mutual

def mapRules (f : Rule → Rule) : Item → Item
  | .rule r => .rule (f r)
  | .group head items => .group head (mapRulesAll f items)
  | item => item

def mapRulesAll (f : Rule → Rule) : List Item → List Item
  | [] => []
  | item :: rest => mapRules f item :: mapRulesAll f rest

end

mutual

def rules : Item → List Rule
  | .rule r => [r]
  | .group _ items => rulesAll items
  | _ => []

def rulesAll : List Item → List Rule
  | [] => []
  | item :: rest => rules item ++ rulesAll rest

end

end Item

namespace Stylesheet

def render (sheet : Stylesheet) : Text := Item.renderAll sheet

def touchAll (sheet : Stylesheet) : Stylesheet := Item.mapRulesAll Rule.touch sheet

def rules (sheet : Stylesheet) : List Rule := Item.rulesAll sheet

end Stylesheet

end StyleFlip
