import StyleFlip.Text.Printable

/-!
# Quoted texts

A text between quotation marks, with escapes for what would not show.
-/

namespace StyleFlip.Text

def quotedChar (c : Char) : Text :=
  match c with
  | '\x00' => ['\\', '0']
  | '\t' => ['\\', 't']
  | '\n' => ['\\', 'n']
  | '\r' => ['\\', 'r']
  | '"' => ['\\', '"']
  | '\\' => ['\\', '\\']
  | c =>
    if isPrintable c then [c]
    else "\\u\x7b".toList ++ Nat.toDigits 16 c.toNat ++ ['\x7d']

def quoted (text : Text) : Text := '"' :: (text.flatMap quotedChar ++ ['"'])

end StyleFlip.Text
