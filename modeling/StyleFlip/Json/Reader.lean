import StyleFlip.Json.Basic

/-!
# Reading JSON

Strict JSON: no comments, no trailing commas, no leading zeros, no raw control characters, no lone
surrogates, at most 127 levels of nesting, and no number beyond the range of doubles. Of several
faults the first one in the text is reported.
-/

namespace StyleFlip.Json

/-- A reader takes a value off the front of a text and returns the text after it. -/
abbrev Reader (α : Type) := Text → Except Fault (α × Text)

namespace Reader

/-- The levels that may still be opened at the top, plus one. -/
def maxDepth : Nat := 128

def isSpace (c : Char) : Bool := c == ' ' || c == '\t' || c == '\n' || c == '\r'

def skipSpace (text : Text) : Text := text.dropWhile isSpace

/-- The rest of a literal whose first letter is known. -/
def literal : Text → Reader Unit
  | [], text => .ok ((), text)
  | _ :: _, [] => .error .endOfInput
  | c :: more, d :: text => if c = d then literal more text else .error .malformed

/-! ## Numbers -/

def digitValue (c : Char) : Nat := c.toNat - '0'.toNat

/-- Takes digits into a significand as long as it stays below `2 ^ 64`, and returns how many were
taken and how many were not. -/
def absorb (significand : Nat) : List Char → Nat × Nat × Nat
  | [] => (significand, 0, 0)
  | d :: rest =>
    let next := significand * 10 + digitValue d
    if 2 ^ 64 ≤ next then (significand, 0, rest.length + 1)
    else
      match absorb next rest with
      | (result, taken, left) => (result, taken + 1, left)

/-- The number `significand * 10 ^ exponent`, rounded once for the significand and once for each
step of scaling; `none` beyond the range of doubles. -/
def scale? (significand : Nat) (exponent : Int) : Option Float :=
  let x := significand.toUInt64.toFloat
  if significand = 0 then some 0
  else if 308 < exponent then none
  else if 0 ≤ exponent then
    let y := x * Float.ofScientific 1 false exponent.toNat
    if y.isInf then none else some y
  else if -308 ≤ exponent then some (x / Float.ofScientific 1 false (-exponent).toNat)
  else if -616 ≤ exponent then
    some (x / 1e308 / Float.ofScientific 1 false (-exponent - 308).toNat)
  else some 0

def floatOf (positive : Bool) (significand : Nat) (exponent : Int) : Except Fault Number :=
  match scale? significand exponent with
  | some x => .ok (.float (if positive then x else -x))
  | none => .error .malformed

/-- Whether an exponent is positive, and the text after its sign. -/
def exponentSign : Text → Bool × Text
  | '+' :: rest => (true, rest)
  | '-' :: rest => (false, rest)
  | text => (true, text)

/-- Reads what follows the `e` of a number. -/
def exponentPart (positive : Bool) (significand : Nat) (exponent : Int) : Reader Number :=
  fun text =>
    let (upward, text) := exponentSign text
    let digits := text.takeWhile Char.isDigit
    let rest := text.dropWhile Char.isDigit
    if digits.isEmpty then .error (if rest.isEmpty then .endOfInput else .malformed)
    else
      let power : Int := digits.foldl (fun n d => n * 10 + digitValue d) 0
      (floatOf positive significand (if upward then exponent + power else exponent - power)).map
        (·, rest)

def fractionPart (positive : Bool) (significand : Nat) (exponent : Int) : Reader Number :=
  fun text =>
    let digits := text.takeWhile Char.isDigit
    let rest := text.dropWhile Char.isDigit
    if digits.isEmpty then .error (if rest.isEmpty then .endOfInput else .malformed)
    else
      let (significand, taken, _) := absorb significand digits
      match rest with
      | 'e' :: after => exponentPart positive significand (exponent - taken) after
      | 'E' :: after => exponentPart positive significand (exponent - taken) after
      | _ => (floatOf positive significand (exponent - taken)).map (·, rest)

/-- The number without fraction and exponent. Zero with a sign, and what 64 bits do not hold, are
doubles. -/
def integerOf (positive : Bool) (significand : Nat) (left : Nat) : Except Fault Number :=
  if 0 < left then floatOf positive significand left
  else if positive then .ok (.natural significand)
  else if significand = 0 ∨ Nat.pow 2 63 < significand then floatOf false significand 0
  else .ok (.negative significand)

def unsignedNumber (positive : Bool) : Reader Number := fun text =>
  let digits := text.takeWhile Char.isDigit
  let rest := text.dropWhile Char.isDigit
  match digits with
  | [] => .error (if rest.isEmpty then .endOfInput else .malformed)
  | '0' :: _ :: _ => .error .malformed
  | _ =>
    let (significand, _, left) := absorb 0 digits
    match rest with
    | '.' :: after => fractionPart positive significand left after
    | 'e' :: after => exponentPart positive significand left after
    | 'E' :: after => exponentPart positive significand left after
    | _ => (integerOf positive significand left).map (·, rest)

/-! ## Strings -/

def hexValue? (c : Char) : Option Nat :=
  if c.isDigit then some (c.toNat - '0'.toNat)
  else if 'a' ≤ c ∧ c ≤ 'f' then some (c.toNat - 'a'.toNat + 10)
  else if 'A' ≤ c ∧ c ≤ 'F' then some (c.toNat - 'A'.toNat + 10)
  else none

def hexEscape : Reader Nat
  | a :: b :: c :: d :: rest =>
    match hexValue? a, hexValue? b, hexValue? c, hexValue? d with
    | some a, some b, some c, some d => .ok (((a * 16 + b) * 16 + c) * 16 + d, rest)
    | _, _, _, _ => .error .malformed
  | text => .error (if 4 ≤ Text.byteSize text then .malformed else .endOfInput)

/-- The character of a `\u` escape. A character outside the basic plane is two escapes, a leading
and a trailing surrogate. -/
def unicodeEscape : Reader Char := fun text => do
  let (lead, rest) ← hexEscape text
  if 0xDC00 ≤ lead ∧ lead ≤ 0xDFFF then .error .malformed
  else if 0xD800 ≤ lead ∧ lead ≤ 0xDBFF then
    match rest with
    | [] => .error .endOfInput
    | ['\\'] => .error .endOfInput
    | '\\' :: 'u' :: more =>
      let (trail, rest) ← hexEscape more
      if 0xDC00 ≤ trail ∧ trail ≤ 0xDFFF then
        .ok (Char.ofNat ((lead - 0xD800) * 0x400 + (trail - 0xDC00) + 0x10000), rest)
      else .error .malformed
    | _ => .error .malformed
  else .ok (Char.ofNat lead, rest)

/-- The character of an escape, after its backslash. -/
def escape : Reader Char
  | [] => .error .endOfInput
  | '"' :: rest => .ok ('"', rest)
  | '\\' :: rest => .ok ('\\', rest)
  | '/' :: rest => .ok ('/', rest)
  | 'b' :: rest => .ok ('\x08', rest)
  | 'f' :: rest => .ok ('\x0c', rest)
  | 'n' :: rest => .ok ('\n', rest)
  | 'r' :: rest => .ok ('\r', rest)
  | 't' :: rest => .ok ('\t', rest)
  | 'u' :: rest => unicodeEscape rest
  | _ => .error .malformed

/-! ## Lists -/

inductive Next
  | close (rest : Text)
  | entry (text : Text)

/-- Reads the entries of a list up to its end: `next` looks for the next one, where its argument
tells the first, and `entry` reads it and adds it to what has been read. A text has no more entries
than `fuel`. -/
def entriesWithin {σ : Type} (next : Bool → Text → Except Fault Next) (entry : σ → Reader σ) :
    Nat → Bool → σ → Reader σ
  | 0, _, _, _ => .error .endOfInput
  | fuel + 1, first, read, text => do
    match ← next first text with
    | .close rest => .ok (read, rest)
    | .entry text =>
      let (read, rest) ← entry read text
      entriesWithin next entry fuel false read rest

def entries {σ : Type} (next : Bool → Text → Except Fault Next) (entry : σ → Reader σ)
    (first : Bool) (read : σ) : Reader σ := fun text =>
  entriesWithin next entry (text.length + 1) first read text

def push {α : Type} (reader : Reader α) (read : List α) : Reader (List α) := fun text =>
  (reader text).map fun r => (r.1 :: read, r.2)

def listOf {α : Type} (next : Bool → Text → Except Fault Next) (reader : Reader α) :
    Reader (List α) := fun text =>
  (entries next (push reader) true [] text).map fun r => (r.1.reverse, r.2)

def nextChar (_first : Bool) (text : Text) : Except Fault Next :=
  match text with
  | [] => .error .endOfInput
  | '"' :: rest => .ok (.close rest)
  | text => .ok (.entry text)

def character : Reader Char
  | [] => .error .endOfInput
  | '\\' :: rest => escape rest
  | c :: rest => if c.toNat < 0x20 then .error .malformed else .ok (c, rest)

/-- A string after its opening quote. -/
def string : Reader Text := listOf nextChar character

/-! ## Values -/

def nextElement (first : Bool) (text : Text) : Except Fault Next :=
  match skipSpace text with
  | [] => .error .endOfInput
  | ']' :: rest => .ok (.close rest)
  | c :: rest =>
    if first then .ok (.entry (c :: rest))
    else if c = ',' then
      match skipSpace rest with
      | ']' :: _ => .error .malformed
      | [] => .error .endOfInput
      | after => .ok (.entry after)
    else .error .malformed

/-- Looks for the next key of an object, and stops after its opening quote. -/
def nextMember (first : Bool) (text : Text) : Except Fault Next :=
  match skipSpace text with
  | [] => .error .endOfInput
  | '}' :: rest => .ok (.close rest)
  | c :: rest =>
    if first then if c = '"' then .ok (.entry rest) else .error .malformed
    else if c = ',' then
      match skipSpace rest with
      | '"' :: after => .ok (.entry after)
      | [] => .error .endOfInput
      | _ => .error .malformed
    else .error .malformed

def colon : Reader Unit := fun text =>
  match skipSpace text with
  | ':' :: rest => .ok ((), rest)
  | [] => .error .endOfInput
  | _ => .error .malformed

/-- A member of an object, after the opening quote of its key. -/
def member (value : Reader Json) : Reader (Text × Json) := fun text => do
  let (key, rest) ← string text
  let ((), rest) ← colon rest
  (value rest).map fun r => ((key, r.1), r.2)

/-- Reads a value that may open fewer than `depth` levels. -/
def value : Nat → Reader Json
  | 0 => fun _ => .error .malformed
  | depth + 1 => fun text =>
    match skipSpace text with
    | [] => .error .endOfInput
    | 'n' :: rest => (literal "ull".toList rest).map fun r => (.null, r.2)
    | 't' :: rest => (literal "rue".toList rest).map fun r => (.bool true, r.2)
    | 'f' :: rest => (literal "alse".toList rest).map fun r => (.bool false, r.2)
    | '-' :: rest => (unsignedNumber false rest).map fun r => (.number r.1, r.2)
    | '"' :: rest => (string rest).map fun r => (.string r.1, r.2)
    | '[' :: rest =>
      if depth = 0 then .error .malformed
      else (listOf nextElement (value depth) rest).map fun r => (.array r.1, r.2)
    | '{' :: rest =>
      if depth = 0 then .error .malformed
      else (listOf nextMember (member (value depth)) rest).map fun r => (.object r.1, r.2)
    | c :: rest =>
      if c.isDigit then (unsignedNumber true (c :: rest)).map fun r => (.number r.1, r.2)
      else .error .malformed

/-- Says what stands at the front of a text in place of something else. A container is told by its
opening bracket alone. -/
def wrongTypeAt (expected : Text) (text : Text) : Fault :=
  match skipSpace text with
  | '[' :: _ => .shape (.wrongType (describe (.array [])) expected)
  | '{' :: _ => .shape (.wrongType (describe (.object [])) expected)
  | _ =>
    match value maxDepth text with
    | .ok (json, _) => .shape (.wrongType json.describe expected)
    | .error fault => fault

end Reader

def parse (text : Text) : Except Fault Json := do
  let (json, rest) ← Reader.value Reader.maxDepth text
  if (Reader.skipSpace rest).isEmpty then .ok json else .error .malformed

end StyleFlip.Json
