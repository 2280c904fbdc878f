import PictureEvolution.Machine.Fault

/-!
# Instructions

An instruction is one of four actions: repeating the next element to be executed, choosing between
the next two by a condition, putting an input back, or applying a function to values from stacks.
A function whose stacks run short does nothing. An instruction set gives actions names.
-/

namespace PictureEvolution

inductive Action (ω : Type) where
  /-- repeat the next element -/
  | dup
  /-- drop one of the next two elements -/
  | branch
  /-- put the input with this key back -/
  | input (key : String)
  /-- apply a function to one value from each of some stacks and push the result -/
  | value (f : List Value → Task ω Value) (args : List StackName) (result : StackName)

/-- Named actions in the order of their first registration. -/
abbrev InstructionSet (ω : Type) := Table String (Action ω)

namespace InstructionSet

variable {ω : Type}

def dupName : String := "exec_dup"

def branchName : String := "exec_if"

def basic : InstructionSet ω where
  entries := [(dupName, .dup), (branchName, .branch)]
  nodup := show [dupName, branchName].Nodup by decide

/-- Give an action a name; an action of that name is replaced. What cannot be applied is refused. -/
def register (set : InstructionSet ω) (name : String) :
    Option (Action ω) → Except Fault (InstructionSet ω)
  | some action => .ok (set.insert name action)
  | none => .error (.notApplicable name)

def resolve (set : InstructionSet ω) (name : String) : Except Fault (Action ω) :=
  match set.get? name with
  | some action => .ok action
  | none => .error (.unknownInstruction name [])

end InstructionSet

namespace State

/-- Repeat the next element, unless it would repeat itself for ever. -/
def dup (s : State) : State :=
  match s.stack .exec with
  | [] => s
  | top :: _ =>
    match top with
    | .element (.instruction name) =>
      if name = InstructionSet.dupName then s else s.push .exec top
    | _ => s.push .exec top

/-- Drop the second of the next two elements if the condition on the stack of truth values holds,
and the first if not. Without a condition or two elements nothing happens. -/
def branch (s : State) : Except Fault State :=
  match s.stack .bool, s.stack .exec with
  | condition :: _, first :: second :: rest =>
    match condition.isTrue? with
    | some true => .ok ((s.pop .bool).assign .exec (first :: rest))
    | some false => .ok ((s.pop .bool).assign .exec (second :: rest))
    | none => .error .undecidedTruth
  | _, _ => .ok s

/-- Put an input back: what stands for a piece of program is to be executed next, anything else goes
to the images. An element counts as a value here. -/
def putBack (s : State) (key : String) : Except Fault State :=
  match s.inputs.get? key with
  | none => .ok s
  | some v =>
    match v with
    | .bool _ | .int _ | .text _ | .list _ =>
      match v.toElement with
      | .ok e => .ok (s.push .exec (.element e))
      | .error offender => .error (.notAnElement offender)
    | _ => .ok (s.push .image v)

/-- Apply a function to one value from each of some stacks and push the result. -/
def invoke {ω : Type} (s : State) (f : List Value → Task ω Value) (args : List StackName)
    (result : StackName) : Task ω State :=
  match s.takeArgs? args with
  | none => pure s
  | some (vs, rest) => do return rest.push result (← f vs)

end State

namespace Action

variable {ω : Type}

def apply : Action ω → State → Task ω State
  | dup, s => pure s.dup
  | branch, s => liftExcept s.branch
  | input key, s => liftExcept (s.putBack key)
  | value f args result, s => s.invoke f args result
where
  liftExcept {α : Type} : Except Fault α → Task ω α
    | .ok a => pure a
    | .error fault => throw fault

def inputs (count : Nat) : List (String × Action ω) :=
  (List.range count).map fun i => (State.inputKey (i + 1), input (State.inputKey (i + 1)))

end Action

end PictureEvolution
