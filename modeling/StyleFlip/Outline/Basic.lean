import StyleFlip.Token.Basic

/-!
# Outlines

The outline of a stylesheet groups its tokens into rules, at-rules and what lies between them. It
still holds every token, so `Outline.tokensAll` gives the token list back.
-/

namespace StyleFlip

inductive Cause
  /-- A `}` that closes nothing. -/
  | strayBrace
  /-- A selector that ends in a semicolon. -/
  | missingBlock
  /-- A selector with nothing after it. -/
  | unterminated
  /-- A rule whose block is never closed. -/
  | unclosedBlock
  /-- An at-rule whose block is never closed. -/
  | unclosedAtRule
  /-- An at-rule that meets a `}` before its block. -/
  | cutOff
  /-- A part of a rule body that is no declaration. -/
  | notADeclaration
deriving DecidableEq, Repr

inductive Outline
  | whitespace (token : Token)
  | comment (token : Token)
  | raw (cause : Cause) (tokens : List Token)
  | rule (selector : List Token) (opening : Token) (body : List Token) (closing : Token)
  | statement (keyword : Token) (params : List Token) (semicolon : Option Token)
  | verbatim (keyword : Token) (params : List Token) (opening : Token) (block : List Token)
      (closing : Token)
  | group (keyword : Token) (params : List Token) (opening : Token) (items : List Outline)
      (closing : Token)
deriving Repr

namespace Outline

mutual

/-- The tokens an entry was made from. -/
def tokens : Outline → List Token
  | .whitespace t => [t]
  | .comment t => [t]
  | .raw _ ts => ts
  | .rule selector opening body closing => selector ++ opening :: (body ++ [closing])
  | .statement keyword params semicolon => keyword :: (params ++ semicolon.toList)
  | .verbatim keyword params opening block closing =>
    keyword :: (params ++ opening :: (block ++ [closing]))
  | .group keyword params opening items closing =>
    keyword :: (params ++ opening :: (tokensAll items ++ [closing]))

def tokensAll : List Outline → List Token
  | [] => []
  | entry :: rest => tokens entry ++ tokensAll rest

end

end Outline

end StyleFlip
