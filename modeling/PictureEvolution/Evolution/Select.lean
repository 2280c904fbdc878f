import PictureEvolution.Evolution.Individual
import PictureEvolution.Evolution.Tolerance
import PictureEvolution.Machine.Fault

/-!
# Selection

Parents are selected by their place in the population, so that two equal individuals remain two.
A tournament takes the best of some drawn individuals. Lexicase selection goes through the cases in
a drawn order and keeps, on each, the candidates whose error survives among the others; the rule of
survival is a parameter. If nobody is left, anyone of the population is taken.
-/

namespace PictureEvolution

variable {ω : Type} [Source ω]

inductive SelectionMethod where
  | tournament
  | lexicase
  /-- a name that no method has; it is refused when a parent is to be selected -/
  | other (name : String)
deriving DecidableEq

namespace SelectionMethod

def name : SelectionMethod → String
  | tournament => "tournament"
  | lexicase => "lexicase"
  | other name => name

def ofName (name : String) : SelectionMethod :=
  if name = tournament.name then tournament
  else if name = lexicase.name then lexicase
  else other name

end SelectionMethod

/-- A rule of survival: which errors survive among the errors of all candidates on a case. -/
abbrev Survival (κ : Type) := List κ → Except Fault (κ → Bool)

namespace Lexicase

variable {ι κ : Type}

def errorsOn (errors : ι → List κ) (case : Nat) (candidates : List ι) :
    Except Fault (List (ι × κ)) :=
  candidates.mapM fun i =>
    match (errors i)[case]? with
    | some e => .ok (i, e)
    | none => .error .missingCase

/-- The candidates that survive a case. -/
def keep (rule : Survival κ) (errors : ι → List κ) (case : Nat) (candidates : List ι) :
    Except Fault (List ι) := do
  let scored ← errorsOn errors case candidates
  let survives ← rule (scored.map Prod.snd)
  return (scored.filter fun (_, e) => survives e).map Prod.fst

/-- Go through the cases until one candidate or none is left. -/
def winnow (rule : Survival κ) (errors : ι → List κ) :
    (cases : List Nat) → (candidates : List ι) → Except Fault (List ι)
  | [], candidates => .ok candidates
  | case :: cases, candidates =>
    match candidates with
    | [] => .ok []
    | [i] => .ok [i]
    | _ => do winnow rule errors cases (← keep rule errors case candidates)

/-- Winnow all places of a population in a drawn order of the cases, and draw among what is left; if
nothing is, among all. -/
def select (rule : Survival κ) {n : Nat} (pos : 0 < n) (errors : Fin n → List κ) :
    Task ω (Fin n) := do
  let order ← Task.ofDraw (Draw.shuffle (List.range (errors ⟨0, pos⟩).length))
  match winnow rule errors order (List.finRange n) with
  | .error fault => throw fault
  | .ok [] => Task.ofDraw (Draw.below n pos)
  | .ok [i] => pure i
  | .ok (i :: j :: rest) => Task.ofDraw (Draw.choose (i :: j :: rest) (by simp))

end Lexicase

namespace Population

/-- The place of the best of some drawn individuals, the first drawn of equally good ones. -/
def tournament (population : List Individual) (size : Int) : Task ω (Fin population.length) :=
  if pos : 0 < population.length then
    if size < 1 then throw (.config .tournamentSize) else do
      let first ← Task.ofDraw (Draw.below population.length pos)
      let rest ← Task.ofDraw (Draw.many (size.toNat - 1) (Draw.below population.length pos))
      return Score.leastOn (fun i => (population.get i).total) first rest
  else
    throw .emptyPopulation

def lexicase (population : List Individual) (epsilon : Option Score) :
    Task ω (Fin population.length) :=
  if pos : 0 < population.length then
    if population.all (·.isEvaluated) then
      Lexicase.select (fun errors => (Tolerance.survives epsilon errors).mapError .score) pos
        fun i => (population.get i).errors
    else
      throw .unevaluated
  else
    throw .emptyPopulation

def parent (population : List Individual) (method : SelectionMethod) (size : Int)
    (epsilon : Option Score) : Task ω (Fin population.length) :=
  match method with
  | .tournament => tournament population size
  | .lexicase => lexicase population epsilon
  | .other name => throw (.unknownMethod name)

/-- The individual with the least total, the first of several. -/
def best : (population : List Individual) → Except Fault Individual
  | [] => .error .emptyPopulation
  | first :: rest => .ok (Score.leastOn (·.total) first rest)

def meanTotal (population : List Individual) : Except Fault Float :=
  (Score.mean (population.map (·.total))).mapError .score

end Population

end PictureEvolution
