import StyleFlip.Direction
import StyleFlip.Span
import StyleFlip.Value.Basic

/-!
# Rule bodies

A body is a list of declarations with the blanks, comments and unreadable text between them.
Comments may carry a marker that speaks about the item after them.
-/

namespace StyleFlip

inductive Marker
  | noFlip
  | only (direction : Direction)
deriving DecidableEq, Repr

structure Comment where
  /-- The whole comment, delimiters included. -/
  text : Text
  span : Span
deriving DecidableEq, Repr

/-- The text between the delimiters of a comment that has both. -/
def Comment.inner? (c : Comment) : Option Text :=
  match c.text with
  | '/' :: '*' :: rest =>
    match rest.reverse with
    | '/' :: '*' :: inner => some inner.reverse
    | _ => none
  | _ => none

def Marker.ofName? (name : Text) : Option Marker :=
  if name = "@noflip".toList then some .noFlip
  else if name = "@ltr-only".toList then some (.only .ltr)
  else if name = "@rtl-only".toList then some (.only .rtl)
  else none

/-- A comment is a marker when it holds a marker's name and nothing else, up to case, the blanks
around it and one exclamation mark before it. -/
def Comment.marker (c : Comment) : Option Marker :=
  match c.inner? with
  | none => none
  | some inner =>
    let body :=
      match Text.trim inner with
      | '!' :: rest => Text.trimStart rest
      | body => body
    Marker.ofName? (Text.lower body)

/-- Text that has no structure and is printed as it stands. -/
structure Raw where
  text : Text
  span : Span
deriving DecidableEq, Repr

structure Declaration where
  property : Text
  /-- From the end of the property to the start of the value. -/
  colon : Text
  value : Value
  semicolon : Bool
  /-- Without the semicolon. -/
  span : Span
deriving DecidableEq, Repr

namespace Declaration

/-- A declaration that stands in no source text. -/
def simple (property value : Text) : Declaration :=
  ⟨property, [':'], [.leaf .ident value], true, .unknown⟩

def valueText (d : Declaration) : Text := Text.trim (Value.render d.value)

/-- The source text of a declaration, without its semicolon. -/
def core (d : Declaration) : Text := d.property ++ d.colon ++ Value.render d.value

def render (d : Declaration) : Text := d.core ++ if d.semicolon then [';'] else []

def hasProperty (name : Text) (d : Declaration) : Bool := Text.sameIgnoringCase d.property name

end Declaration

inductive BodyItem
  | declaration (declaration : Declaration)
  | comment (comment : Comment)
  | whitespace (text : Text)
  | raw (raw : Raw)
deriving DecidableEq, Repr

abbrev Body := List BodyItem

def BodyItem.render : BodyItem → Text
  | .declaration d => d.render
  | .comment c => c.text
  | .whitespace text => text
  | .raw r => r.text

def Body.render (body : Body) : Text := body.flatMap BodyItem.render

def BodyItem.declaration? : BodyItem → Option Declaration
  | .declaration d => some d
  | _ => none

def Body.declarations (body : Body) : List Declaration := body.filterMap BodyItem.declaration?

end StyleFlip
