import PictureEvolution.Number.Binary

/-!
# Decimal places

A double written with a set number of decimal places is its exact value rounded once, a half to the
even neighbour. The sign is that of the double, so a negative number that rounds to zero keeps it.
-/

namespace PictureEvolution.Decimal

/-- The texts of the numbers that have no digits. -/
def unusual (x : Float) : String :=
  if x.isNaN then "nan" else if x < 0 then "-inf" else "inf"

def padLeft (width : Nat) (c : Char) (s : String) : String :=
  String.ofList (List.replicate (width - s.length) c) ++ s

/-- Fixed notation with a positive number of places. -/
def fixed (places : Nat) (x : Float) : String :=
  match Binary.ofFloat? x with
  | none => unusual x
  | some b =>
    let unit := Nat.pow 10 places
    let r := roundDiv (b.num * unit) b.den
    let sign := if b.negative then "-" else ""
    sign ++ toString (r / unit) ++ "." ++
      padLeft places '0' (toString (r % unit))

end PictureEvolution.Decimal
