import StyleFlip.Json.Basic

/-!
# Writing JSON

A value as a text without blanks. The members of an object are written in the order of their names,
and of members with the same name only the last is written.
-/

namespace StyleFlip.Json

/-- A character inside a string. Only quotes, backslashes and controls are escaped. -/
def writtenChar (c : Char) : Text :=
  match c with
  | '"' => ['\\', '"']
  | '\\' => ['\\', '\\']
  | '\x08' => ['\\', 'b']
  | '\x0c' => ['\\', 'f']
  | '\n' => ['\\', 'n']
  | '\r' => ['\\', 'r']
  | '\t' => ['\\', 't']
  | c =>
    if c.toNat < 0x20 then
      ['\\', 'u', '0', '0', Nat.digitChar (c.toNat / 16), Nat.digitChar (c.toNat % 16)]
    else [c]

def writtenString (text : Text) : Text := '"' :: (text.flatMap writtenChar ++ ['"'])

def writtenMember (member : Text × Text) : Text := writtenString member.1 ++ ':' :: member.2

mutual

def render : Json → Text
  | .null => "null".toList
  | .bool b => boolText b
  | .number n => n.text
  | .string text => writtenString text
  | .array elements => '[' :: (List.intercalate [','] (renderElements elements) ++ [']'])
  | .object members =>
    let members := (inNameOrder (renderMembers members)).map writtenMember
    '{' :: (List.intercalate [','] members ++ ['}'])

def renderElements : List Json → List Text
  | [] => []
  | json :: rest => json.render :: renderElements rest

def renderMembers : List (Text × Json) → List (Text × Text)
  | [] => []
  | (name, json) :: rest => (name, json.render) :: renderMembers rest

end

end StyleFlip.Json
