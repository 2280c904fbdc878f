/-!
# Binary fractions

A finite double is a whole number times a power of two. Whatever is exact about doubles is computed
here on that form, with whole numbers only: comparison with an integer, the nearest integer, and
the double nearest to a quotient.
-/

namespace PictureEvolution

/-- Quotient of naturals rounded to the nearest, a half to the even neighbour. -/
def roundDiv (num den : Nat) : Nat :=
  let q := num / den
  let r := num % den
  if 2 * r < den then q else if den < 2 * r then q + 1 else q + q % 2

/-- `mantissa * 2 ^ exponent`, with a sign that zero has too. -/
structure Binary where
  negative : Bool
  mantissa : Nat
  exponent : Int
deriving DecidableEq, Repr

namespace Binary

/-- `2 ^ 52`, the leading bit of a mantissa that has all its places. -/
def leadingBit : Nat := 0x10000000000000

/-- `2 ^ 63`, the sign among the bits of a double. -/
def signBit : Nat := 0x8000000000000000

/-- The exponent field of the numbers that are not finite. -/
def topField : Nat := 2047

/-- The parts of a finite double; not-a-number and the infinities have none. -/
def ofFloat? (x : Float) : Option Binary :=
  let bits : Nat := x.toBits.toNat
  let negative := decide (signBit ≤ bits)
  let field : Nat := bits % signBit / leadingBit
  let fraction : Nat := bits % leadingBit
  if field = topField then none
  else if field = 0 then some ⟨negative, fraction, -1074⟩
  else some ⟨negative, leadingBit + fraction, (field : Int) - 1075⟩

/-- The magnitude is the quotient of two naturals; this is the first. -/
def num (b : Binary) : Nat := b.mantissa * Nat.pow 2 b.exponent.toNat

/-- The magnitude is the quotient of two naturals; this is the second, a power of two. -/
def den (b : Binary) : Nat := Nat.pow 2 (-b.exponent).toNat

/-- An integer with the sign of the number. -/
def signed (b : Binary) (n : Nat) : Int := if b.negative then -n else n

def compareInt (b : Binary) (n : Int) : Ordering := compare (b.signed b.num) (n * b.den)

/-- The nearest integer, a half to the even neighbour. -/
def round (b : Binary) : Int := b.signed (roundDiv b.num b.den)

/-- The integer that is left when the fraction is dropped. -/
def truncate (b : Binary) : Int := b.signed (b.num / b.den)

/-- The double of these parts, for a mantissa of at most `2 ^ 53` that reaches `2 ^ 52` unless the
exponent is the least one; none when it is too large. -/
def toFloat? (b : Binary) : Option Float :=
  let bits := (b.exponent + 1074).toNat * leadingBit + b.mantissa
  if bits < topField * leadingBit then
    some (Float.ofBits (bits + (if b.negative then signBit else 0)).toUInt64)
  else
    none

/-- The parts of the double nearest to the quotient of two positive numbers, ties to even. -/
def nearest (negative : Bool) (num den : Nat) : Binary :=
  let guess : Int := (Nat.log2 num : Int) - Nat.log2 den - 52
  let scaled (e : Int) : Nat × Nat := (num * Nat.pow 2 (-e).toNat, den * Nat.pow 2 e.toNat)
  let e := if (scaled guess).1 < leadingBit * (scaled guess).2 then guess - 1 else guess
  let e := max e (-1074)
  ⟨negative, roundDiv (scaled e).1 (scaled e).2, e⟩

/-- The double nearest to the quotient of an integer by a positive number; none when it is too
large for a double. -/
def quotient? (num : Int) (den : Nat) : Option Float :=
  if num = 0 then some 0.0 else (nearest (decide (num < 0)) num.natAbs den).toFloat?

/-- The double nearest to an integer. -/
def ofInt? (n : Int) : Option Float := quotient? n 1

end Binary

end PictureEvolution
