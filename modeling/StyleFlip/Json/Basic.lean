import StyleFlip.Decimal.Shortest
import StyleFlip.Text.Quoted

/-!
# JSON values

Values of the data format, and the faults that reading them can find.
-/

namespace StyleFlip

namespace Json

/-- Numbers are integers where 64 bits hold them, and doubles otherwise. -/
inductive Number
  | natural (n : Nat)
  /-- The negative of a positive number. -/
  | negative (n : Nat)
  | float (x : Float)

end Json

inductive Json
  | null
  | bool (b : Bool)
  | number (n : Json.Number)
  | string (text : Text)
  | array (elements : List Json)
  | object (members : List (Text × Json))

namespace Json

inductive ShapeError
  | wrongType (found expected : Text)
  | wrongLength (found : Nat) (expected : Text)
  | unknownVariant (name : Text)
  | duplicateField (name : Text)
deriving DecidableEq, Repr

/-- Names between grave accents, which mark what was found in the text. -/
def quoteName (name : Text) : Text := '\x60' :: (name ++ ['\x60'])

def ShapeError.message : ShapeError → Text
  | .wrongType found expected =>
    "invalid type: ".toList ++ found ++ ", expected ".toList ++ expected
  | .wrongLength found expected =>
    "invalid length ".toList ++ Text.ofNat found ++ ", expected ".toList ++ expected
  | .unknownVariant name =>
    "unknown variant ".toList ++ quoteName name ++ ", expected ".toList ++
      quoteName "ltr".toList ++ " or ".toList ++ quoteName "rtl".toList
  | .duplicateField name => "duplicate field ".toList ++ quoteName name

inductive Fault
  /-- The text stops before the value is complete. -/
  | endOfInput
  /-- The text is not JSON. -/
  | malformed
  | shape (error : ShapeError)
deriving DecidableEq, Repr

/-- A decimal in plain notation where its magnitude is moderate, and with a signed exponent
otherwise. A point is always shown in plain notation. -/
def scientificText (s : Decimal.Scientific) : Text :=
  let digits := Text.ofNat s.digits
  let size : Int := digits.length + s.exponent
  if 0 ≤ s.exponent ∧ size ≤ 16 then
    digits ++ List.replicate s.exponent.toNat '0' ++ ['.', '0']
  else if 0 < size ∧ size ≤ 16 then
    digits.take size.toNat ++ '.' :: digits.drop size.toNat
  else if -5 < size ∧ size ≤ 0 then
    '0' :: '.' :: (List.replicate (-size).toNat '0' ++ digits)
  else
    let exponent := size - 1
    digits.take 1 ++ (if digits.length = 1 then [] else '.' :: digits.drop 1) ++
      'e' :: (if exponent < 0 then '-' else '+') :: Text.ofNat exponent.natAbs

def floatText (x : Float) : Text :=
  let bits := x.toBits.toNat
  let sign := if Nat.pow 2 63 ≤ bits then ['-'] else []
  match (Decimal.Binary.ofBits bits).shortest? with
  | some s => sign ++ scientificText s
  | none => sign ++ "0.0".toList

def Number.text : Number → Text
  | .natural n => Text.ofNat n
  | .negative n => '-' :: Text.ofNat n
  | .float x => floatText x

def boolText (b : Bool) : Text := if b then "true".toList else "false".toList

def describe : Json → Text
  | .null => "null".toList
  | .bool b => "boolean ".toList ++ quoteName (boolText b)
  | .number (.float x) => "floating point ".toList ++ quoteName (floatText x)
  | .number n => "integer ".toList ++ quoteName n.text
  | .string text => "string ".toList ++ Text.quoted text
  | .array _ => "sequence".toList
  | .object _ => "map".toList

def lastOfEach {α : Type} : List (Text × α) → List (Text × α)
  | [] => []
  | (name, x) :: rest =>
    if rest.any (·.1 == name) then lastOfEach rest else (name, x) :: lastOfEach rest

/-- Members in the order of their names, each name once. -/
def inNameOrder {α : Type} (members : List (Text × α)) : List (Text × α) :=
  (lastOfEach members).mergeSort fun a b => !b.1.lex a.1 fun x y => x.toNat < y.toNat

end Json

end StyleFlip
