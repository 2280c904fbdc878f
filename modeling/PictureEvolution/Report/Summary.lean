import PictureEvolution.Evolution.Select
import PictureEvolution.Number.Decimal

/-!
# Summaries

A generation is summed up by its best individual and the mean of the totals, and written as one
line.
-/

namespace PictureEvolution

structure Summary where
  generation : Int
  best : Float
  mean : Float
  size : Nat
  program : String
  errors : List Score

namespace Summary

def ofPopulation (population : List Individual) (generation : Int) : Except Fault Summary := do
  let best ← Population.best population
  let mean ← Population.meanTotal population
  let total ← best.total.toFloat.mapError .score
  return {
    generation
    best := total
    mean
    size := best.program.size
    program := best.program.text
    errors := best.errors }

/-- The number of a generation in at least three places, the sign among them. -/
def generationText (n : Int) : String :=
  if n < 0 then "-" ++ Decimal.padLeft 2 '0' (toString n.natAbs)
  else Decimal.padLeft 3 '0' (toString n)

/-- The line of a generation; totals have six decimal places. -/
def line (s : Summary) : String :=
  "GEN " ++ generationText s.generation ++ " best=" ++ Decimal.fixed 6 s.best ++
    " mean=" ++ Decimal.fixed 6 s.mean ++ " size=" ++ toString s.size ++ " program=" ++ s.program

end Summary

end PictureEvolution
