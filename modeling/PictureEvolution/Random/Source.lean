/-!
# Sources of randomness

Every random decision is the answer to a query: a number below a bound, a fraction in steps of
`2 ^ -53`, or a seed of 64 bits. A source answers queries and changes state as it does. The drawing
combinators below are written once for all sources, so a law about every source and every start is
a law about every outcome. A script, which answers from a list, reaches each outcome.
-/

namespace PictureEvolution

universe u v

inductive Query where
  /-- a number below a positive bound -/
  | below (bound : Nat) (pos : 0 < bound)
  /-- a number below `2 ^ 53`, read as a fraction of it -/
  | fraction
  /-- a number of 64 bits -/
  | seed

/-- `2 ^ 53`: fractions are drawn in steps of its inverse. -/
def fractionSize : Nat := 0x20000000000000

/-- `2 ^ 64`, the number of seeds. -/
def seedSize : Nat := 0x10000000000000000

def Query.size : Query → Nat
  | below bound _ => bound
  | fraction => fractionSize
  | seed => seedSize

theorem Query.size_pos : (q : Query) → 0 < q.size
  | below _ pos => pos
  | fraction => by decide
  | seed => by decide

class Source (ω : Type u) where
  answer : (q : Query) → ω → Fin q.size × ω

abbrev Draw (ω : Type u) (α : Type u) := StateM ω α

namespace Draw

variable {ω : Type} [Source ω] {α : Type}

def below (bound : Nat) (pos : 0 < bound) : Draw ω (Fin bound) :=
  Source.answer (.below bound pos)

/-- A number from `low` to `high`, both included. -/
def between (low high : Nat) (le : low ≤ high) : Draw ω { n : Nat // low ≤ n ∧ n ≤ high } := do
  let k ← below (high - low + 1) (Nat.succ_pos _)
  return ⟨low + k, by omega, by omega⟩

def seed : Draw ω (Fin seedSize) := Source.answer .seed

/-- The index of the band, of `bands` equally wide ones, in which a drawn fraction lies. -/
def band (bands : Nat) : Draw ω Nat := do
  let m ← (Source.answer .fraction : Draw ω (Fin fractionSize))
  return bands * m / fractionSize

/-- Whether a drawn fraction is below `1 / odds`. -/
def oneIn (odds : Nat) : Draw ω Bool := do
  let m ← (Source.answer .fraction : Draw ω (Fin fractionSize))
  return decide (odds * m < fractionSize)

def many (count : Nat) (draw : Draw ω α) : Draw ω (List α) :=
  match count with
  | 0 => pure []
  | count + 1 => do
    let a ← draw
    let rest ← many count draw
    return a :: rest

def choose (xs : List α) (ne : xs ≠ []) : Draw ω α := do
  let i ← below xs.length (List.length_pos_iff.mpr ne)
  return xs[i]

/-- An element of a list; from the empty list nothing is drawn. -/
def choose? (xs : List α) : Draw ω (Option α) :=
  if ne : xs ≠ [] then some <$> choose xs ne else pure none

/-- Swap each of the positions `last, …, 1` with a drawn position that is not behind it. -/
def shuffleUpTo {n : Nat} : (last : Nat) → last < n → Vector α n → Draw ω (Vector α n)
  | 0, _, xs => pure xs
  | last + 1, lt, xs => do
    let other ← below (last + 2) (Nat.succ_pos _)
    shuffleUpTo last (by omega) (xs.swap (last + 1) other)

def shuffle (xs : List α) : Draw ω (List α) :=
  if h : xs.length - 1 < xs.length then do
    let ys ← shuffleUpTo (xs.length - 1) h ⟨xs.toArray, by simp⟩
    return ys.toList
  else
    pure xs

end Draw

/-- A source that gives its answers in order, each reduced to the range of its query, and zeros when
they have run out. -/
structure Script where
  answers : List Nat

instance : Source Script where
  answer q script :=
    match script.answers with
    | [] => (⟨0, q.size_pos⟩, script)
    | a :: rest => (⟨a % q.size, Nat.mod_lt _ q.size_pos⟩, ⟨rest⟩)

end PictureEvolution
