import StyleFlip.Token.Split
import StyleFlip.Value.Basic

/-!
# Reading values

Functions and parentheses become nested components; everything else is a leaf. Square brackets and
separators are plain delimiters.
-/

namespace StyleFlip

def Kind.leaf : Kind → LeafKind
  | .whitespace => .whitespace
  | .comment => .comment
  | .ident => .ident
  | .number => .number
  | .hash => .hash
  | .string => .string
  | .url => .url
  | _ => .delim

def Value.read (tokens : List Token) : Value :=
  match tokens with
  | [] => []
  | t :: rest =>
    if Bracket.paren.opens t.kind then
      let split := splitClosing .paren 0 rest
      .function t.text.dropLast (Value.read split.1) (!split.2.isEmpty) :: Value.read split.2.tail
    else .leaf t.kind.leaf t.text :: Value.read rest
termination_by tokens.length
decreasing_by
  all_goals
    have hlength := length_splitClosing .paren 0 rest
    simp only [List.length_cons, List.length_tail]
    omega

end StyleFlip
