import PictureEvolution.Program.Text
import PictureEvolution.Score

/-!
# Individuals

An individual is a program with its errors, one for each case, and their total. It counts as
evaluated when it has errors.
-/

namespace PictureEvolution

structure Individual where
  program : Program
  errors : List Score
  total : Score
deriving DecidableEq

namespace Individual

/-- The individual of a program that was not evaluated yet. -/
def ofProgram (p : Program) : Individual := ⟨p, [], .int 0⟩

instance : Inhabited Individual := ⟨ofProgram []⟩

def isEvaluated (i : Individual) : Bool := !i.errors.isEmpty

def withErrors (i : Individual) (errors : List Score) : Except ScoreFault Individual := do
  return ⟨i.program, errors, ← Score.sum errors⟩

end Individual

end PictureEvolution
