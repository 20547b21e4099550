import StyleFlip.Body.Reader
import StyleFlip.Outline.Reader
import StyleFlip.Selector.Reader
import StyleFlip.Sheet.Basic
import StyleFlip.Token.Lexer

/-!
# Reading stylesheets

Every text is a stylesheet: what has no structure becomes raw text.
-/

namespace StyleFlip

def AtHead.read (keyword : Token) (params : List Token) (span : Span) : AtHead :=
  ⟨atName keyword, textOf params, span⟩

def Rule.read (selector : List Token) (opening : Token) (body : List Token) (closing : Token) :
    Rule :=
  let tokens := selector ++ opening :: (body ++ [closing])
  { selector := Selector.read selector
    body := Body.read body
    span := spanOf tokens
    source := some (textOf tokens) }

namespace Item

mutual

def ofOutline : Outline → Item
  | .whitespace t => .whitespace t.text
  | .comment t => .comment ⟨t.text, t.span⟩
  | .raw _ tokens => .raw ⟨textOf tokens, spanOf tokens⟩
  | .rule selector opening body closing => .rule (Rule.read selector opening body closing)
  | .statement keyword params semicolon =>
    .statement (AtHead.read keyword params (spanOf (keyword :: (params ++ semicolon.toList))))
      semicolon.isSome
  | .verbatim keyword params _ block closing =>
    .verbatim (AtHead.read keyword params (keyword.span.join closing.span)) (textOf block)
  | .group keyword params _ items closing =>
    .group (AtHead.read keyword params (keyword.span.join closing.span)) (ofOutlines items)

def ofOutlines : List Outline → List Item
  | [] => []
  | entry :: rest => ofOutline entry :: ofOutlines rest

end

end Item

def Stylesheet.parse (css : Text) : Stylesheet := Item.ofOutlines (outline (tokenize css))

end StyleFlip
