import PictureEvolution.Evolution.Config
import PictureEvolution.Evolution.Vary

/-!
# Evolution

An evolution goes on one generation at a time. A step reports the evaluated population, ends the
evolution with success when an individual has no error and as exhausted at the last generation, and
otherwise replaces the population with evaluated children. When a step fails, what it has written
to the histories and drawn from the source stays; population and generation are replaced only as a
whole.
-/

namespace PictureEvolution

inductive Status where
  | running
  | success
  | exhausted
deriving DecidableEq

def Status.name : Status → String
  | running => "running"
  | success => "success"
  | exhausted => "exhausted"

structure Evolution where
  population : List Individual
  generation : Nat
  status : Status
  bestHistory : List Score
  meanHistory : List Float
  started : Bool

structure Outcome where
  status : Status
  generation : Nat
  best : Individual
  population : List Individual
  bestHistory : List Score
  meanHistory : List Float

/-- What drives an evolution: its settings, the evaluation of an individual, and what is done with
each evaluated population. -/
structure Experiment (ω : Type) where
  config : Config
  evaluate : Individual → Task ω Individual
  report : List Individual → Nat → Task ω Unit

abbrev Progress (ω α : Type) := ExceptT Fault (StateM (Evolution × ω)) α

namespace Progress

variable {ω α : Type}

/-- Perform a task; the evolution stays as it is. -/
def perform (task : Task ω α) : Progress ω α := fun (e, w) =>
  let (a, w) := task w
  (a, (e, w))

def evolution : Progress ω Evolution := do return (← get).1

def change (f : Evolution → Evolution) : Progress ω Unit := modify fun (e, w) => (f e, w)

def ofExcept : Except Fault α → Progress ω α
  | .ok a => pure a
  | .error fault => throw fault

end Progress

/-- A population without one place, as long as somebody is left. -/
def Population.others (population : List Individual) (i : Nat) : List Individual :=
  match population.eraseIdx i with
  | [] => population
  | rest => rest

/-- Two places of a population: the second one among the others, or the only one again. -/
structure Couple (population : List Individual) where
  first : Fin population.length
  second : Fin (Population.others population first).length

namespace Couple

variable {population : List Individual}

def firstParent (c : Couple population) : Individual := population.get c.first

def secondParent (c : Couple population) : Individual :=
  (Population.others population c.first).get c.second

end Couple

namespace Config

variable {ω : Type} [Source ω]

def selectFrom (c : Config) (pool : List Individual) : Task ω (Fin pool.length) :=
  Population.parent pool c.selectionMethod c.tournamentSize c.epsilon

def couple (c : Config) (population : List Individual) : Task ω (Couple population) := do
  let first ← c.selectFrom population
  let second ← c.selectFrom (Population.others population first)
  return ⟨first, second⟩

def child (c : Config) (population : List Individual) : Task ω Individual := do
  let parents ← c.couple population
  let op ← Task.ofDraw Operator.pick
  let p ← op.apply parents.firstParent.program parents.secondParent.program c.catalog
  return .ofProgram p

def childrenOf (c : Config) (population : List Individual) :
    (count : Nat) → Task ω (List Individual)
  | 0 => pure []
  | count + 1 => do
    let first ← c.child population
    let rest ← childrenOf c population count
    return first :: rest

def children (c : Config) (population : List Individual) : Task ω (List Individual) :=
  c.childrenOf population c.populationSize.toNat

end Config

namespace Evolution

def fresh : Evolution where
  population := []
  generation := 0
  status := .running
  bestHistory := []
  meanHistory := []
  started := false

def outcome (e : Evolution) : Except Fault Outcome := do
  return {
    status := e.status
    generation := e.generation
    best := ← Population.best e.population
    population := e.population
    bestHistory := e.bestHistory
    meanHistory := e.meanHistory }

end Evolution

namespace Experiment

variable {ω : Type}

def evaluateAll (x : Experiment ω) : List Individual → Task ω (List Individual)
  | [] => pure []
  | i :: rest => do
    let first ← x.evaluate i
    let rest ← evaluateAll x rest
    return first :: rest

variable [Source ω]

/-- Begin with an evaluated random population at generation 0. -/
def start (x : Experiment ω) : Progress ω Unit := do
  let c := x.config
  let population ← Progress.perform do
    let unevaluated ← c.catalog.population c.maxInitialProgramSize c.populationSize.toNat
    x.evaluateAll unevaluated
  Progress.change fun e => { e with population, generation := 0, started := true }

def note (x : Experiment ω) : Progress ω Unit := do
  let e ← Progress.evolution
  let best ← Progress.ofExcept (Population.best e.population)
  let mean ← Progress.ofExcept (Population.meanTotal e.population)
  Progress.change fun e =>
    { e with
      bestHistory := e.bestHistory ++ [best.total]
      meanHistory := e.meanHistory ++ [mean] }
  Progress.perform (x.report e.population e.generation)

def advance (x : Experiment ω) : Progress ω Unit := do
  let e ← Progress.evolution
  if e.population.any (·.total.isZero) then
    Progress.change fun e => { e with status := .success }
  else if x.config.maxGenerations ≤ e.generation then
    Progress.change fun e => { e with status := .exhausted }
  else
    let population ← Progress.perform do
      let children ← x.config.children e.population
      x.evaluateAll children
    Progress.change fun e => { e with population, generation := e.generation + 1 }

/-- One step of an evolution; one that has ended stays as it is. -/
def step (x : Experiment ω) : Progress ω Status := do
  let e ← Progress.evolution
  if e.status ≠ .running then return e.status
  unless e.started do x.start
  x.note
  x.advance
  return (← Progress.evolution).status

def stepUntilEnd (x : Experiment ω) : (steps : Nat) → Progress ω Unit
  | 0 => pure ()
  | steps + 1 => do
    if (← x.step) = .running then stepUntilEnd x steps

/-- Go on until the evolution has ended. Each step before the last one begins a new generation, so
there are at most as many of them as generations. -/
def run (x : Experiment ω) : Progress ω Outcome := do
  x.stepUntilEnd (x.config.maxGenerations.toNat + 1)
  Progress.ofExcept (← Progress.evolution).outcome

def evolve (x : Experiment ω) : Task ω Outcome :=
  match x.config.validate with
  | .error fault => throw (.config fault)
  | .ok () => fun w =>
    let (result, (_, w)) := x.run (.fresh, w)
    (result, w)

end Experiment

end PictureEvolution
