import PictureEvolution.Number.Decimal

/-!
# Shortest decimals

The shortest text of a double has the fewest digits that read back as the same double, and of those
the nearest to it. A double stands for the interval of reals that round to it, so the search looks
for the coarsest decimal grid with a point in that interval.
-/

namespace PictureEvolution

/-- `digits * 10 ^ exponent` -/
structure Decimal where
  digits : Nat
  exponent : Int
deriving DecidableEq, Repr

namespace Decimal

/-- `a * 10 ^ i` against `n * 2 ^ j` -/
def compareBinary (a : Nat) (i : Int) (n : Nat) (j : Int) : Ordering :=
  compare (a * Nat.pow 10 i.toNat * Nat.pow 2 (-j).toNat)
    (n * Nat.pow 2 j.toNat * Nat.pow 10 (-i).toNat)

/-- Whether a decimal lies among the reals that round to a positive binary fraction. The interval
reaches halfway to both neighbours, and the lower one of a power of two is twice as near. -/
def ReadsBack (b : Binary) (d : Decimal) : Prop :=
  let powerOfTwo := b.mantissa = Binary.leadingBit ∧ b.exponent ≠ -1074
  let low := if powerOfTwo then 4 * b.mantissa - 1 else 4 * b.mantissa - 2
  let high := 4 * b.mantissa + 2
  let atLow := compareBinary d.digits d.exponent low (b.exponent - 2)
  let atHigh := compareBinary d.digits d.exponent high (b.exponent - 2)
  let closed := b.mantissa % 2 = 0
  (atLow = .gt ∨ closed ∧ atLow = .eq) ∧ (atHigh = .lt ∨ closed ∧ atHigh = .eq)

instance (b : Binary) (d : Decimal) : Decidable (ReadsBack b d) := by
  unfold ReadsBack; infer_instance

/-- The number of digits before the point of a positive binary fraction; at most 0 below one. -/
def scale (b : Binary) : Int :=
  let estimate : Int := ((Nat.log2 b.mantissa : Int) + b.exponent) * 30103 / 100000
  let small (k : Int) : Bool := compareBinary 1 k b.mantissa b.exponent != .gt
  let k := if small estimate then estimate + 1 else estimate
  if small k then k + 1 else k

/-- The nearest point of a decimal grid that reads back; of two equally near ones the even. -/
def onGrid? (b : Binary) (exponent : Int) : Option Decimal :=
  let num := b.num * Nat.pow 10 (-exponent).toNat
  let den := b.den * Nat.pow 10 exponent.toNat
  let near := roundDiv num den
  let below : Decimal := ⟨num / den, exponent⟩
  let above : Decimal := ⟨num / den + 1, exponent⟩
  if ReadsBack b ⟨near, exponent⟩ then some ⟨near, exponent⟩
  else if ReadsBack b below then some below
  else if ReadsBack b above then some above
  else none

/-- The coarsest grid with a point that reads back, among those of `count` digits and more. -/
def search (b : Binary) (k : Int) (count : Nat) : (tries : Nat) → Option Decimal
  | 0 => none
  | tries + 1 =>
    match onGrid? b (k - count) with
    | some d => some d
    | none => search b k (count + 1) tries

/-- The shortest decimal of a positive binary fraction; its exact value if 17 digits do not do. -/
def shortest (b : Binary) : Decimal :=
  (search b (scale b) 1 17).getD
    ⟨b.num * Nat.pow 5 (-b.exponent).toNat, min b.exponent 0⟩

def strip (digits : List Char) : List Char :=
  (digits.reverse.dropWhile (· == '0')).reverse

/-- Positional notation from `10 ^ -4` up to below `10 ^ 16`, always with a point; otherwise one
digit before the point and a signed exponent of at least two digits. -/
def layout (d : Decimal) : String :=
  let all := (toString d.digits).toList
  let point := (all.length : Int) + d.exponent
  let ds := strip all
  let text (cs : List Char) : String := String.ofList cs
  if -4 < point ∧ point ≤ 16 then
    let zeros (n : Nat) := List.replicate n '0'
    if point ≤ 0 then
      "0." ++ text (zeros (-point).toNat ++ ds)
    else if (ds.length : Int) ≤ point then
      text (ds ++ zeros (point.toNat - ds.length)) ++ ".0"
    else
      text (ds.take point.toNat) ++ "." ++ text (ds.drop point.toNat)
  else
    let lead := text (ds.take 1)
    let rest := ds.drop 1
    let power := point - 1
    lead ++ (if rest.isEmpty then "" else "." ++ text rest) ++ "e" ++
      (if power < 0 then "-" else "+") ++ padLeft 2 '0' (toString power.natAbs)

def ofFloat (x : Float) : String :=
  match Binary.ofFloat? x with
  | none => unusual x
  | some b =>
    (if b.negative then "-" else "") ++ (if b.mantissa = 0 then "0.0" else layout (shortest b))

end Decimal

end PictureEvolution
