import PictureEvolution.Evolution.Individual
import PictureEvolution.Fitness.Sections
import PictureEvolution.Machine.Run
import PictureEvolution.Workspace

/-!
# Scoring

An individual is scored by the image that its program leaves on top of the image stack: case by
case, the error is the distance of the image's value from the target's. A case that the image does
not have, and every case when there is no image, costs a fixed penalty. The target's values are
computed once and kept. How a determinant is found is left open.
-/

namespace PictureEvolution

/-- The error of a case without a value. -/
def missingPenalty : Score := .int 10000000000

namespace Score

/-- The size of the difference of two scores; integers subtract exactly. -/
def distance : Score → Score → Except ScoreFault Score
  | int m, int n => .ok (.int (m - n).natAbs)
  | a, b => do return .real ((← a.toFloat) - (← b.toFloat)).abs

/-- The distances of produced values from the target's, with a penalty for each missing one. -/
def distances : (target produced : List Score) → Except ScoreFault (List Score)
  | [], _ => .ok []
  | _ :: rest, [] => .ok (missingPenalty :: rest.map fun _ => missingPenalty)
  | t :: rest, p :: produced => do
    let first ← distance t p
    return first :: (← distances rest produced)

end Score

structure Scorer (γ : Type) where
  instructions : InstructionSet γ
  /-- into how many sections each side of an image is divided -/
  grid : Int
  limit : Limit
  /-- the determinant of a square matrix, row by row -/
  determinant : List (List Float) → Float
  grid_pos : 1 ≤ grid

namespace Scorer

variable {γ : Type}

/-- A scorer, unless the grid has no sections. -/
def make (instructions : InstructionSet γ) (grid : Int) (limit : Limit)
    (determinant : List (List Float) → Float) : Except Fault (Scorer γ) :=
  if h : 1 ≤ grid then .ok ⟨instructions, grid, limit, determinant, h⟩ else .error .gridTooSmall

def caseValues (s : Scorer γ) (img : Image) : Except Fault (List Float) :=
  img.caseValues s.determinant s.grid

/-- What a program leaves on top of the image stack, run on a state with inputs; nothing when the
fuel does not suffice. -/
def output (instructions : InstructionSet γ) (limit : Limit) (initial : State)
    (inputs : List Value) (p : Program) : Task γ (Option Value) := fun w =>
  match instructions.run limit p (initial.loadInputs inputs) w with
  | (.ok final, w) => (.ok (final.peek? .image), w)
  | (.error (.fuelExhausted _ _), w) => (.ok none, w)
  | (.error fault, w) => (.error fault, w)

/-- The case values of a target: those that are kept under its key, if they are this target's, or
else computed and kept from now on. -/
def targetValues (s : Scorer γ) (target : Target) : Task TargetCache (List Float) := fun cache =>
  match cache.get? target.key with
  | some (known, values) => if known = target then (.ok values, cache) else compute cache
  | none => compute cache
where
  compute (cache : TargetCache) : Except Fault (List Float) × TargetCache :=
    match s.caseValues target.image with
    | .error fault => (.error fault, cache)
    | .ok values => (.ok values, cache.insert target.key (target, values))

def producedValues (s : Scorer γ) : Option Value → Except Fault (Option (List Score))
  | none => .ok none
  | some (.image img) =>
    match s.caseValues img with
    | .error fault => .error fault
    | .ok values => .ok (some (values.map .real))
  | some v => .error (.notAnImage v)

def errors (expected : List Float) : Option (List Score) → Except ScoreFault (List Score)
  | none => .ok (expected.map fun _ => missingPenalty)
  | some produced => Score.distances (expected.map .real) produced

def evaluate (s : Scorer γ) (initial : State) (inputs : List Value) (target : Target)
    (i : Individual) : Task (Workspace γ) Individual := do
  let expected ← Workspace.onCache (s.targetValues target)
  let result ← Workspace.onSource (output s.instructions s.limit initial inputs i.program)
  match s.producedValues result with
  | .error fault => throw fault
  | .ok produced =>
    let errors ← Task.ofScore (errors expected produced)
    Task.ofScore (i.withErrors errors)

end Scorer

end PictureEvolution
