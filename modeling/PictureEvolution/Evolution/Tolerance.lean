import PictureEvolution.Score

/-!
# Tolerance

On each case, lexicase selection keeps the candidates whose error is at most the least error plus a
tolerance. The tolerance is a given number, or the standard deviation of the candidates' errors.
Numbers are summed in blocks, so that the rounding errors of doubles stay small. How errors are read
as numbers is a parameter: scores are read as doubles.
-/

namespace PictureEvolution.Tolerance

/-- What a deviation takes beside sums, differences, products and quotients. -/
class Arithmetic (α : Type) where
  ofNat : Nat → α
  sqrt : α → α

instance : Arithmetic Float where
  ofNat := Float.ofNat
  sqrt := Float.sqrt

open Arithmetic

section Deviation

variable {α : Type} [Add α] [Sub α] [Mul α] [Div α] [Arithmetic α]

def sumPlain (xs : Array α) (first count : Nat) : α :=
  Nat.fold count (fun i _ sum => sum + xs.getD (first + i) (ofNat 0)) (ofNat 0)

/-- The sum of at least eight numbers: eight sums side by side, then what is left over. -/
def sumEight (xs : Array α) (first count : Nat) : α :=
  let rounds := count / 8
  let lane (j : Nat) : α :=
    Nat.fold (rounds - 1) (fun i _ sum => sum + xs.getD (first + 8 * (i + 1) + j) (ofNat 0))
      (xs.getD (first + j) (ofNat 0))
  let joined := ((lane 0 + lane 1) + (lane 2 + lane 3)) + ((lane 4 + lane 5) + (lane 6 + lane 7))
  Nat.fold (count - 8 * rounds) (fun i _ sum => sum + xs.getD (first + 8 * rounds + i) (ofNat 0))
    joined

/-- The sum of `count` numbers from a place on; long rows are halved at a multiple of eight. -/
def sumBlocks (xs : Array α) (first count : Nat) : α :=
  if count < 8 then sumPlain xs first count
  else if count ≤ 128 then sumEight xs first count
  else
    let half := count / 2 - count / 2 % 8
    sumBlocks xs first half + sumBlocks xs (first + half) (count - half)
termination_by count
decreasing_by all_goals omega

def mean (xs : Array α) : α := sumBlocks xs 0 xs.size / ofNat xs.size

/-- The standard deviation of a whole population; of no doubles it is not a number. -/
def deviation (xs : Array α) : α :=
  let center := mean xs
  sqrt (mean (xs.map fun x => (x - center) * (x - center)))

end Deviation

/-- How errors are read as numbers, which of some is the least, and when one is at most a number. -/
structure Reading (κ α : Type) where
  number : κ → Except ScoreFault α
  least : κ → List κ → κ
  atMost : κ → α → Bool

namespace Reading

variable {κ α : Type} [Add α] [Sub α] [Mul α] [Div α] [Arithmetic α]

/-- The tolerance for some errors: the given one, or their standard deviation. -/
def value (r : Reading κ α) (given : Option κ) (errors : List κ) : Except ScoreFault α :=
  match given with
  | some epsilon => r.number epsilon
  | none => do return deviation (← errors.mapM r.number).toArray

/-- Which errors survive among those of the candidates: at most the least one plus the tolerance. -/
def survives (r : Reading κ α) (given : Option κ) (errors : List κ) :
    Except ScoreFault (κ → Bool) :=
  match errors with
  | [] => .ok fun _ => false
  | first :: rest => do
    let tolerance ← r.value given errors
    let least ← r.number (r.least first rest)
    return fun error => r.atMost error (least + tolerance)

/-- Scores are read as the nearest doubles and compared with them exactly. -/
def ofScores : Reading Score Float where
  number := Score.toFloat
  least := Score.least
  atMost error threshold := error.le (.real threshold)

end Reading

/-- The tolerance for some scores, as a double. -/
def value (given : Option Score) (errors : List Score) : Except ScoreFault Float :=
  Reading.ofScores.value given errors

/-- Which scores survive among some. -/
def survives (given : Option Score) (errors : List Score) : Except ScoreFault (Score → Bool) :=
  Reading.ofScores.survives given errors

end PictureEvolution.Tolerance
