import PictureEvolution.Machine.State
import PictureEvolution.Random.Source
import PictureEvolution.Score

/-!
# Faults

Everything that can go wrong has a cause. The wording of each cause is `Fault.message`; a few
causes have no wording of their own. A task is a computation that draws from a source and may stop
at a fault. What it has drawn by then stays drawn.
-/

namespace PictureEvolution

inductive ConfigFault where
  | emptyCatalog
  | populationSize
  | maxGenerations
  | maxInitialProgramSize
  | tournamentSize
deriving DecidableEq

def ConfigFault.message : ConfigFault → String
  | emptyCatalog => "catalog must not be empty"
  | populationSize => "population_size must be > 0"
  | maxGenerations => "max_generations must be >= 0"
  | maxInitialProgramSize => "max_initial_program_size must be >= 1"
  | tournamentSize => "tournament_size must be >= 1"

inductive Fault where
  /-- a value that stands for no program element -/
  | notAnElement (v : Value)
  /-- a value on the exec stack that is no program element -/
  | unexpectedExec (v : Value)
  /-- a name that no instruction has, and where in the program it stands, if it was found there -/
  | unknownInstruction (name : String) (path : List Nat)
  /-- the fuel was used up in this state -/
  | fuelExhausted (state : State) (fuel : Int)
  /-- the run without a limit was not followed any further -/
  | horizonReached
  | inputNotReplaceable
  /-- something registered under a name that cannot be applied -/
  | notApplicable (name : String)
  /-- a name that was looked up in an instruction set in vain -/
  | missingName (name : String)
  | undecidedTruth
  /-- an image instruction was given a value of another kind -/
  | notAnImage (v : Value)
  | layoutMismatch
  /-- an image without pixels, or a size below one pixel -/
  | noPixels
  /-- an image whose channels are too few to be weighted -/
  | fewChannels (count : Nat)
  | gridZero
  | gridTooSmall
  | emptyChoice
  | emptyPopulation
  | unevaluated
  /-- an individual has no error on a case -/
  | missingCase
  | initialSize
  | unknownMethod (name : String)
  | unknownOperator (name : String)
  | config (fault : ConfigFault)
  | score (fault : ScoreFault)

namespace Fault

def pathText (path : List Nat) : String := "[" ++ Value.commas (path.map toString) ++ "]"

def message : Fault → Option String
  | notAnElement v => some ("cannot convert " ++ v.kind ++ " to a program element")
  | unexpectedExec v => some ("unexpected exec element: " ++ v.describe)
  | unknownInstruction name path =>
    some ("unknown instruction: " ++ Text.quoted name ++
      (if path.isEmpty then "" else " at position " ++ pathText path))
  | fuelExhausted _ fuel => some ("out of fuel after " ++ toString fuel ++ " steps")
  | horizonReached => some "no end in sight"
  | inputNotReplaceable => some "input stack is append-only; use push()"
  | notApplicable name => some ("instruction " ++ Text.quoted name ++ " is not callable")
  | missingName name => some (Text.quoted name)
  | undecidedTruth => some (
    "The truth value of an array with more than one element is ambiguous. " ++
      "Use a.any() or a.all()")
  | notAnImage v => some ("not an image: " ++ v.describe)
  | layoutMismatch => some "operands could not be broadcast together"
  | noPixels => none
  | fewChannels count => some ("matmul: Input operand 1 has a mismatch in its core dimension 0, " ++
      "with gufunc signature (n?,k),(k,m?)->(n?,m?) (size 3 is different from " ++
      toString count ++ ")")
  | gridZero => some "integer division or modulo by zero"
  | gridTooSmall => some "grid must be >= 1"
  | emptyChoice => none
  | emptyPopulation => some "population is empty"
  | unevaluated => some "lexicase selection needs evaluated individuals"
  | missingCase => some "tuple index out of range"
  | initialSize => some "max_initial_size must be >= 1"
  | unknownMethod name => some ("unknown selection method: " ++ name)
  | unknownOperator name => some ("unknown operator: " ++ name)
  | config fault => some fault.message
  | score fault => some fault.message

end Fault

/-- A computation that draws from a source and may stop at a fault. -/
abbrev Task (ω α : Type) := ExceptT Fault (StateM ω) α

namespace Task

variable {ω σ α : Type}

def ofScore : Except ScoreFault α → Task ω α
  | .ok a => pure a
  | .error fault => throw (.score fault)

def ofOption (fault : Fault) : Option α → Task ω α
  | some a => pure a
  | none => throw fault

def ofDraw (draw : Draw ω α) : Task ω α := ExceptT.lift draw

end Task

end PictureEvolution
