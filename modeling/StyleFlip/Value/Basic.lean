import StyleFlip.Text.Basic

/-!
# Declaration values

A value is a list of components. A component keeps the exact source text it was read from, so a
value prints back to its source.
-/

namespace StyleFlip

inductive LeafKind
  | whitespace
  | comment
  | ident
  | number
  | hash
  | string
  | url
  | delim
deriving DecidableEq, Repr

/-- A piece of a value. A function with an empty name is a parenthesized group; one that is not
`closed` ran to the end of the value without its parenthesis. -/
inductive Component
  | leaf (kind : LeafKind) (text : Text)
  | function (name : Text) (args : List Component) (closed : Bool)
deriving Repr

abbrev Value := List Component

namespace Component

mutual

def decEq : (a b : Component) → Decidable (a = b)
  | .leaf k t, .leaf k' t' => decidable_of_iff (k = k' ∧ t = t') (by simp)
  | .function n args c, .function n' args' c' =>
    have := decEqList args args'
    decidable_of_iff (n = n' ∧ args = args' ∧ c = c') (by simp)
  | .leaf _ _, .function _ _ _ => isFalse (by simp)
  | .function _ _ _, .leaf _ _ => isFalse (by simp)

def decEqList : (as bs : List Component) → Decidable (as = bs)
  | [], [] => isTrue rfl
  | a :: as, b :: bs =>
    have := decEq a b
    have := decEqList as bs
    decidable_of_iff (a = b ∧ as = bs) (by simp)
  | [], _ :: _ => isFalse (by simp)
  | _ :: _, [] => isFalse (by simp)

end

instance : DecidableEq Component := decEq

mutual

def render : Component → Text
  | .leaf _ text => text
  | .function name args closed =>
    name ++ '(' :: (renderAll args ++ if closed then [')'] else [])

def renderAll : List Component → Text
  | [] => []
  | c :: rest => render c ++ renderAll rest

end

def isTrivia : Component → Bool
  | .leaf .whitespace _ => true
  | .leaf .comment _ => true
  | _ => false

def isDelim (c : Char) : Component → Bool
  | .leaf .delim text => text == [c]
  | _ => false

def isWord (word : Text) : Component → Bool
  | .leaf .ident text => Text.sameIgnoringCase text word
  | _ => false

end Component

def Value.render (value : Value) : Text := Component.renderAll value

/-- Whether a word stands in a value as a component of its own, in any case. -/
def Value.hasWord (word : Text) (value : Value) : Bool := value.any (Component.isWord word)

end StyleFlip
