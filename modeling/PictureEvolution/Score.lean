import PictureEvolution.Number.Binary

/-!
# Scores

Errors, totals and means are scores: exact integers, or doubles. Comparison is exact across the two
kinds. A sum stays an integer until the first double and is a double from then on, added from left
to right. Division always gives a double, and an integer that no double comes near is refused.
-/

namespace PictureEvolution

inductive Score where
  | int (n : Int)
  | real (x : Float)
deriving DecidableEq

inductive ScoreFault where
  /-- an integer beyond the range of doubles -/
  | integerTooLarge
  /-- a quotient of integers beyond the range of doubles -/
  | quotientTooLarge
deriving DecidableEq

namespace ScoreFault

def message : ScoreFault → String
  | integerTooLarge => "int too large to convert to float"
  | quotientTooLarge => "integer division result too large for a float"

end ScoreFault

namespace Score

instance : Inhabited Score := ⟨.int 0⟩

def toFloat : Score → Except ScoreFault Float
  | int n => match Binary.ofInt? n with
    | some x => .ok x
    | none => .error .integerTooLarge
  | real x => .ok x

/-- How an integer compares with a double, exactly; not-a-number compares with nothing. -/
def compareInt? (n : Int) (x : Float) : Option Ordering :=
  match Binary.ofFloat? x with
  | some b => some (b.compareInt n).swap
  | none => if x.isNaN then none else if x < 0 then some .gt else some .lt

/-- How two scores compare, exactly; not-a-number compares with nothing. -/
def compare? : Score → Score → Option Ordering
  | int m, int n => some (compare m n)
  | int m, real y => compareInt? m y
  | real x, int n => (compareInt? n x).map Ordering.swap
  | real x, real y =>
    if x < y then some .lt else if y < x then some .gt else if x == y then some .eq else none

def lt (a b : Score) : Bool := a.compare? b == some .lt

def le (a b : Score) : Bool := (a.compare? b).any (·.isLE)

/-- Whether a score is zero; negative zero is. -/
def isZero (a : Score) : Bool := a.compare? (.int 0) == some .eq

/-- The first of the least: a later score takes over only when it is less. -/
def leastOn {α : Type} (f : α → Score) : (first : α) → List α → α
  | a, [] => a
  | a, b :: rest => leastOn f (if (f b).lt (f a) then b else a) rest

def least (a : Score) (rest : List Score) : Score := leastOn id a rest

theorem leastOn_mem {α : Type} (f : α → Score) (a : α) (rest : List α) :
    leastOn f a rest ∈ a :: rest := by
  induction rest generalizing a with
  | nil => simp [leastOn]
  | cons b rest ih =>
    rw [leastOn]
    have h := ih (if (f b).lt (f a) then b else a)
    split at h <;> grind

/-- Two integers add exactly; otherwise both are taken as doubles. -/
def add : Score → Score → Except ScoreFault Score
  | int m, int n => .ok (.int (m + n))
  | a, b => do return .real ((← a.toFloat) + (← b.toFloat))

/-- The sum from left to right, beginning with the integer zero. -/
def sum (scores : List Score) : Except ScoreFault Score := scores.foldlM add (.int 0)

/-- The quotient by a count as the nearest double; a double is divided as a double. -/
def divide (a : Score) (count : Nat) : Except ScoreFault Float :=
  match a with
  | int n => match Binary.quotient? n count with
    | some x => .ok x
    | none => .error .quotientTooLarge
  | real x => .ok (x / Float.ofNat count)

def mean (scores : List Score) : Except ScoreFault Float := do
  (← sum scores).divide scores.length

end Score

end PictureEvolution
