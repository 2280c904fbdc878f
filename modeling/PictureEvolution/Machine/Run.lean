import PictureEvolution.Machine.Instruction

/-!
# Running programs

One step executes the top of the exec stack: a literal goes to the stack of its kind, a block is
spliced in, and a name is resolved and its action applied. A run validates the program, puts it in
front of what is to be executed, and steps until nothing is left. Its limit is a number of steps,
or none; without one, a run is followed up to a horizon only.
-/

namespace PictureEvolution

inductive Limit where
  /-- at most this many steps; a negative number allows none -/
  | steps (fuel : Int)
  /-- without limit, followed for so many steps -/
  | unlimited (horizon : Nat)

namespace Limit

def bound : Limit → Nat
  | steps fuel => fuel.toNat
  | unlimited horizon => horizon

/-- The fault when the exec stack is not empty by then. -/
def fault : Limit → State → Fault
  | steps fuel, s => .fuelExhausted s fuel
  | unlimited _, _ => .horizonReached

end Limit

namespace Element

mutual

/-- The first name in an element that is not known, and where it stands. `path` leads to the
element. -/
def firstUnknown? (known : String → Bool) (path : List Nat) :
    Element → Option (String × List Nat)
  | literal _ => none
  | instruction name => if known name then none else some (name, path)
  | block elements => firstUnknownFrom? known path 0 elements

/-- The same for the elements of a block, of which the first one stands at `place`. -/
def firstUnknownFrom? (known : String → Bool) (path : List Nat) :
    (place : Nat) → List Element → Option (String × List Nat)
  | _, [] => none
  | place, e :: rest =>
    match firstUnknown? known (path ++ [place]) e with
    | some found => some found
    | none => firstUnknownFrom? known path (place + 1) rest

end

end Element

namespace InstructionSet

variable {ω : Type}

def validate (set : InstructionSet ω) (p : Program) : Except Fault Unit :=
  match Element.firstUnknownFrom? set.contains [] 0 p with
  | none => .ok ()
  | some (name, path) => .error (.unknownInstruction name path)

def step (set : InstructionSet ω) (s : State) : Task ω State :=
  match s.stack .exec with
  | [] => pure s
  | top :: _ =>
    let rest := s.pop .exec
    match top with
    | .element (.literal (.bool b)) => pure (rest.push .bool (.bool b))
    | .element (.literal (.int n)) => pure (rest.push .integer (.int n))
    | .element (.block p) => pure (rest.loadExec p)
    | .element (.instruction name) =>
      match set.resolve name with
      | .ok action => action.apply rest
      | .error fault => throw fault
    | other => throw (.unexpectedExec other)

/-- Step until the exec stack is empty, at most so many times. -/
def drain (set : InstructionSet ω) (fault : State → Fault) : (steps : Nat) → State → Task ω State
  | 0, s => if (s.stack .exec).isEmpty then pure s else throw (fault s)
  | steps + 1, s =>
    if (s.stack .exec).isEmpty then pure s else do
      let s ← set.step s
      drain set fault steps s

def run (set : InstructionSet ω) (limit : Limit) (p : Program) (s : State) : Task ω State :=
  match set.validate p with
  | .error fault => throw fault
  | .ok () => drain set limit.fault limit.bound (s.loadExec p)

end InstructionSet

end PictureEvolution
