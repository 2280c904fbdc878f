import PictureEvolution.Machine.Value
import PictureEvolution.Table

/-!
# Machine states

A state has named stacks of values, the top first, and inputs under the keys `in1`, `in2` and so
on. The inputs can be used as a stack of their own whose top is the input with the highest number.
Any name is the name of a stack; one that was never written is empty.
-/

namespace PictureEvolution

structure StackName where
  text : String
deriving DecidableEq

namespace StackName

/-- The stack of program elements that are still to be executed. -/
def exec : StackName := ⟨"exec"⟩
def integer : StackName := ⟨"integer"⟩
def bool : StackName := ⟨"bool"⟩
def image : StackName := ⟨"image"⟩
/-- The inputs as a stack. -/
def input : StackName := ⟨"input"⟩

end StackName

/-- Named stacks, and inputs in the order of their numbers. -/
structure State where
  contents : Table StackName (List Value)
  inputs : Table String Value

namespace State

def empty : State where
  contents := ⟨[(.exec, []), (.integer, []), (.bool, []), (.image, [])], by decide⟩
  inputs := ∅

instance : EmptyCollection State := ⟨empty⟩
instance : Inhabited State := ⟨empty⟩

def inputKey (n : Nat) : String := "in" ++ toString n

/-- The values of a stack, the top first; those of the inputs, the top last. -/
def stack (s : State) (name : StackName) : List Value :=
  if name = .input then s.inputs.values else (s.contents.get? name).getD []

/-- Replace the contents of a stack other than the inputs. -/
def assign (s : State) (name : StackName) (values : List Value) : State :=
  { s with contents := s.contents.insert name values }

@[simp] theorem inputs_assign (s : State) (name : StackName) (values : List Value) :
    (s.assign name values).inputs = s.inputs := rfl

theorem stack_assign {name : StackName} (h : name ≠ .input) (s : State) (values : List Value)
    (other : StackName) :
    (s.assign name values).stack other = if other = name then values else s.stack other := by
  by_cases ho : other = .input
  · subst ho
    simp [stack, h.symm]
  · by_cases hn : other = name
    · subst hn
      simp [stack, assign, ho]
    · simp [stack, assign, ho, hn, Table.get?_insert]

/-- Replace the contents of a stack; the inputs cannot be replaced. -/
def withStack? (s : State) (name : StackName) (values : List Value) : Option State :=
  if name = .input then none else some (s.assign name values)

def push (s : State) (name : StackName) (v : Value) : State :=
  if name = .input then
    { s with inputs := s.inputs.insert (inputKey (s.inputs.size + 1)) v }
  else
    s.assign name (v :: s.stack name)

theorem push_eq_assign {name : StackName} (h : name ≠ .input) (s : State) (v : Value) :
    s.push name v = s.assign name (v :: s.stack name) := if_neg h

theorem stack_push {name : StackName} (h : name ≠ .input) (s : State) (v : Value)
    (other : StackName) :
    (s.push name v).stack other = if other = name then v :: s.stack name else s.stack other := by
  rw [push_eq_assign h, stack_assign h]

/-- Drop the top of a stack; an empty stack stays as it is. -/
def pop (s : State) (name : StackName) : State :=
  if name = .input then
    if s.inputs.size = 0 then s else { s with inputs := s.inputs.erase (inputKey s.inputs.size) }
  else
    match s.stack name with
    | [] => s
    | _ :: rest => s.assign name rest

theorem stack_pop {name : StackName} (h : name ≠ .input) (s : State) (other : StackName) :
    (s.pop name).stack other = if other = name then (s.stack name).tail else s.stack other := by
  rw [pop, if_neg h]
  split
  next hs =>
    by_cases ho : other = name
    · subst ho
      simp [hs]
    · simp [ho]
  next v rest hs => simp [stack_assign h, hs]

def peek? (s : State) (name : StackName) : Option Value :=
  if name = .input then s.inputs.values.getLast? else (s.stack name).head?

/-- Take one value from each of the named stacks in turn; none if one of them runs out. -/
def takeArgs? : (names : List StackName) → State → Option (List Value × State)
  | [], s => some ([], s)
  | name :: names, s =>
    match s.peek? name with
    | none => none
    | some v => (takeArgs? names (s.pop name)).map fun (vs, s) => (v :: vs, s)

def pushAll (s : State) (name : StackName) (values : List Value) : State :=
  values.foldl (fun s v => s.push name v) s

/-- Push images, so that the last one is on top. -/
def loadImages (s : State) (images : List Value) : State := s.pushAll .image images

def loadInputs (s : State) (values : List Value) : State := s.pushAll .input values

def loadExec (s : State) (p : Program) : State :=
  s.assign .exec (p.map .element ++ s.stack .exec)

end State

end PictureEvolution
