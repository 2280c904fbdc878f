import PictureEvolution.Evolution.Generate

/-!
# Variation

Four operators make a program from one or two parents: taking each element from either parent,
replacing a segment by one of the other parent, inserting elements of the catalog, and deleting
elements. One of the four is drawn with equal chance.
-/

namespace PictureEvolution

inductive Operator where
  | uniformCrossover
  | twoPointCrossover
  | uniformAddition
  | uniformDeletion
deriving DecidableEq

variable {ω : Type} [Source ω]

namespace Program

/-- Keep each element if a draw, made for it by itself, says so. -/
def filterDraw (keep : Draw ω Bool) : Program → Draw ω Program
  | [] => pure []
  | e :: rest => do
    let kept ← keep
    let rest ← filterDraw keep rest
    return if kept then e :: rest else rest

/-- Take each element from either parent with equal chance; of what is left of the longer parent
keep each element with chance one half. -/
def crossUniform : Program → Program → Draw ω Program
  | x :: xs, y :: ys => do
    let side ← Draw.below 2 (by decide)
    let rest ← crossUniform xs ys
    return (if side = 0 then x else y) :: rest
  | xs, [] => filterDraw (Draw.oneIn 2) xs
  | [], ys => filterDraw (Draw.oneIn 2) ys

/-- Two places in a program of a given length, in order: different ones, if it has two. -/
def cutPoints : (length : Nat) → Draw ω (Nat × Nat)
  | 0 => pure (0, 0)
  | 1 => do
    let first ← Draw.below 1 (by decide)
    return (first, first)
  | n + 2 => do
    let first ← Draw.below (n + 2) (by omega)
    let other ← Draw.below (n + 1) (by omega)
    let second := if other.val < first.val then other.val else other.val + 1
    return (min first.val second, max first.val second)

/-- Replace the segment between two places of the second program by one of the first. -/
def crossTwoPoint (a b : Program) : Draw ω Program := do
  let (a₀, a₁) ← cutPoints a.length
  let (b₀, b₁) ← cutPoints b.length
  return b.take b₀ ++ (a.take a₁).drop a₀ ++ b.drop b₁

/-- How seldom an element is inserted or deleted: once in this many times. -/
def editOdds : Nat := 20

def insertion (catalog : Catalog) : Task ω Program := do
  if ← Task.ofDraw (Draw.oneIn editOdds) then
    return [← catalog.element]
  else
    return []

/-- Perhaps insert an element of the catalog after each element, and perhaps one more at the end. -/
def add (catalog : Catalog) : Program → Task ω Program
  | [] => insertion catalog
  | e :: rest => do
    let inserted ← insertion catalog
    let rest ← add catalog rest
    return e :: inserted ++ rest

def delete (p : Program) : Draw ω Program :=
  filterDraw ((fun drop => !drop) <$> Draw.oneIn editOdds) p

end Program

namespace Operator

def all : List Operator := [uniformCrossover, twoPointCrossover, uniformAddition, uniformDeletion]

def name : Operator → String
  | uniformCrossover => "uniform_crossover"
  | twoPointCrossover => "two_point_crossover"
  | uniformAddition => "uniform_addition"
  | uniformDeletion => "uniform_deletion"

def ofName (name : String) : Except Fault Operator :=
  match all.find? (·.name = name) with
  | some op => .ok op
  | none => .error (.unknownOperator name)

/-- One of the four operators with equal chance. -/
def pick : Draw ω Operator := do
  let band ← Draw.band 4
  return match band with
    | 0 => uniformCrossover
    | 1 => twoPointCrossover
    | 2 => uniformAddition
    | _ => uniformDeletion

/-- Make a program from two parents; the last two operators use the first parent only. -/
def apply (op : Operator) (a b : Program) (catalog : Catalog) : Task ω Program :=
  match op with
  | uniformCrossover => .ofDraw (a.crossUniform b)
  | twoPointCrossover => .ofDraw (a.crossTwoPoint b)
  | uniformAddition => a.add catalog
  | uniformDeletion => .ofDraw a.delete

end Operator

end PictureEvolution
