/-!
# Shortest decimals

The decimal with the fewest digits that reads back as a given double: of the decimals nearer to it
than to any other double, the one with the greatest power of ten as its unit, and of those the
nearest. All arithmetic is exact.
-/

namespace StyleFlip.Decimal

/-- The number `digits * 10 ^ exponent`. -/
structure Scientific where
  digits : Nat
  exponent : Int
deriving DecidableEq, Repr

/-- The number `mantissa * 2 ^ exponent`. The gap to the next smaller double is half the usual one
where the exponent changes, at a power of two. -/
structure Binary where
  mantissa : Nat
  exponent : Int
  narrowBelow : Bool
deriving DecidableEq, Repr

/-- The magnitude of the finite double with these bits. -/
def Binary.ofBits (bits : Nat) : Binary :=
  let exponent : Nat := bits / Nat.pow 2 52 % Nat.pow 2 11
  let fraction := bits % Nat.pow 2 52
  if exponent = 0 then ⟨fraction, -1074, false⟩
  else ⟨Nat.pow 2 52 + fraction, (exponent : Int) - 1075, fraction = 0 && 1 < exponent⟩

namespace Binary

/-- The number `n * 10 ^ k`, in a unit that depends on the power of ten and on the double. -/
def ofTens (b : Binary) (k : Int) (n : Nat) : Nat :=
  n * Nat.pow 10 k.toNat * Nat.pow 2 (2 - b.exponent).toNat

/-- The number `n / 4` of the unit in the last place of the double, in the unit of `ofTens`. -/
def ofQuarters (b : Binary) (k : Int) (n : Nat) : Nat :=
  n * Nat.pow 2 (b.exponent - 2).toNat * Nat.pow 10 (-k).toNat

/-- Whether `n * 10 ^ k` reads back as the double: it lies within half a gap of it, where the middle
itself goes to the double whose mantissa is even. -/
def readsBack (b : Binary) (k : Int) (n : Nat) : Bool :=
  let low := b.ofQuarters k (4 * b.mantissa - if b.narrowBelow then 1 else 2)
  let high := b.ofQuarters k (4 * b.mantissa + 2)
  let value := b.ofTens k n
  if b.mantissa % 2 = 0 then low ≤ value && value ≤ high else low < value && value < high

/-- The multiple of `10 ^ k` that reads back as the double and is nearest to it, if there is one. Of
two equally near ones the even one is taken. -/
def nearest? (b : Binary) (k : Int) : Option Nat :=
  let value := b.ofQuarters k (4 * b.mantissa)
  let below := value / b.ofTens k 1
  let above := below + 1
  let toBelow := value - b.ofTens k below
  let toAbove := b.ofTens k above - value
  let belowFirst := toBelow < toAbove || (toBelow = toAbove && below % 2 = 0)
  (if belowFirst then [below, above] else [above, below]).find? (b.readsBack k)

/-- The shortest decimal of a double that is not zero; the powers of ten go down from one beyond the
range of doubles. -/
def shortest? (b : Binary) : Option Scientific :=
  if b.mantissa = 0 then none
  else (List.range 660).findSome? fun (step : Nat) =>
    let k := (310 : Int) - step
    (b.nearest? k).map (⟨·, k⟩)

end Binary

end StyleFlip.Decimal
