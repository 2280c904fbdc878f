import PictureEvolution.Proofs.Machine.Inputs

/-!
# Any use of the stacks

The inputs stay in order under every operation on the stacks of a machine and under its steps, in
whatever sequence these come. What stands under the key of some number stays there as long as the
inputs do not become fewer than that, not even in the middle of an operation.
-/

namespace PictureEvolution

inductive Operation (ω : Type) where
  | push (name : StackName) (v : Value)
  | pop (name : StackName)
  | withStack (name : StackName) (values : List Value)
  | takeArgs (names : List StackName)
  | invoke (f : List Value → Task ω Value) (args : List StackName) (result : StackName)
  | loadImages (images : List Value)
  | loadInputs (values : List Value)
  | step (set : InstructionSet ω)

namespace State

variable {ω : Type} {s t : State} {front : List Value} {names : List StackName}

/-- The inputs that are left to a function by its arguments, if something comes of applying it. -/
def leftByArgs (s : State) (f : List Value → Task ω Value) (args : List StackName) (w : ω) : Nat :=
  match s.takeArgs? args with
  | some (vs, rest) => if (f vs w).1.isOk then rest.inputs.size else s.inputs.size
  | none => s.inputs.size

structure Retains (s : State) (front : List Value) : Prop where
  numbered : s.Numbered
  first : front <+: s.inputs.values

namespace Retains

theorem of_inputs_eq (h : s.Retains front) (same : t.inputs = s.inputs) : t.Retains front where
  numbered := h.numbered.of_inputs_eq same
  first := same ▸ h.first

theorem push (h : s.Retains front) (name : StackName) (v : Value) :
    (s.push name v).Retains front := by
  refine ⟨h.numbered.push name v, ?_⟩
  by_cases isInput : name = .input
  · subst isInput
    rw [h.numbered.values_push]
    exact h.first.trans (List.prefix_append _ _)
  · rw [inputs_push s v isInput]
    exact h.first

/-- Of two beginnings of the same inputs the shorter one begins the longer one. -/
theorem of_prefix (h : s.Retains front) (numbered : t.Numbered)
    (shorter : t.inputs.values <+: s.inputs.values) (enough : front.length ≤ t.inputs.size) :
    t.Retains front where
  numbered := numbered
  first := List.prefix_of_prefix_length_le h.first shorter (by rwa [Table.length_values])

theorem pop (h : s.Retains front) {name : StackName}
    (enough : front.length ≤ (s.pop name).inputs.size) : (s.pop name).Retains front := by
  refine h.of_prefix (h.numbered.pop name) ?_ enough
  by_cases isInput : name = .input
  · subst isInput
    rw [h.numbered.values_pop]
    exact List.dropLast_prefix _
  · simp only [inputs_pop s isInput, List.prefix_rfl]

theorem takeArgs? (h : s.Retains front) {vs : List Value}
    (taken : s.takeArgs? names = some (vs, t)) (enough : front.length ≤ t.inputs.size) :
    t.Retains front := by
  obtain ⟨numbered, first⟩ := h.numbered.takeArgs? taken
  exact h.of_prefix numbered (first.map Prod.snd) enough

theorem pushAll (h : s.Retains front) (name : StackName) (values : List Value) :
    (s.pushAll name values).Retains front := by
  induction values generalizing s with
  | nil => exact h
  | cons v rest ih => exact ih (h.push name v)

theorem invoke (h : s.Retains front) {f : List Value → Task ω Value} {args : List StackName}
    {result : StackName} {w w' : ω} (invoked : (s.invoke f args result).Yields w t w')
    (enough : front.length ≤ s.leftByArgs f args w) : t.Retains front := by
  rcases yields_invoke.mp invoked with ⟨-, rfl, -⟩ | ⟨vs, rest, v, taken, called, rfl⟩
  · exact h
  · have succeeds : (f vs w).1.isOk = true := by
      rw [show f vs w = (.ok v, w') from called]
      rfl
    rw [leftByArgs, taken] at enough
    simp only [succeeds, if_true] at enough
    exact (h.takeArgs? taken enough).push result v

end Retains

end State

namespace Operation

variable {ω : Type} {front : List Value} {st : State × ω}

/-- What comes of a task on a state; when it fails, the state is as it was. -/
def settle (s : State) : Except Fault State × ω → State × ω
  | (.ok t, w) => (t, w)
  | (.error _, w) => (s, w)

/-- The state and the source after an operation. One that is refused or that fails leaves the state
as it was. -/
def perform : Operation ω → State × ω → State × ω
  | push name v, (s, w) => (s.push name v, w)
  | pop name, (s, w) => (s.pop name, w)
  | withStack name values, (s, w) => ((s.withStack? name values).getD s, w)
  | takeArgs names, (s, w) => (((s.takeArgs? names).map Prod.snd).getD s, w)
  | invoke f args result, (s, w) => settle s (s.invoke f args result w)
  | loadImages images, (s, w) => (s.loadImages images, w)
  | loadInputs values, (s, w) => (s.loadInputs values, w)
  | step set, (s, w) => settle s (set.step s w)

/-- The fewest inputs that there are at any time during an operation. Only popping makes them
fewer, and a function pops its arguments before it pushes its result. -/
def fewest : Operation ω → State × ω → Nat
  | pop name, (s, _) => (s.pop name).inputs.size
  | takeArgs names, (s, _) => ((s.takeArgs? names).map Prod.snd |>.getD s).inputs.size
  | invoke f args _, (s, w) => s.leftByArgs f args w
  | step set, (s, w) =>
    match s.stack .exec with
    | .element (.instruction name) :: _ =>
      match set.get? name with
      | some (.value f args _) => (s.pop .exec).leftByArgs f args w
      | _ => s.inputs.size
    | _ => s.inputs.size
  | _, (s, _) => s.inputs.size

def performAll : List (Operation ω) → State × ω → State × ω
  | [], st => st
  | op :: ops, st => performAll ops (op.perform st)

def fewestAll : List (Operation ω) → State × ω → Nat
  | [], (s, _) => s.inputs.size
  | op :: ops, st => min (op.fewest st) (fewestAll ops (op.perform st))

theorem settle_of_yields {t : Task ω State} {s s' : State} {w w' : ω} (h : t.Yields w s' w') :
    settle s (t w) = (s', w') := by
  rw [show t w = (.ok s', w') from h, settle]

theorem settle_of_fails {t : Task ω State} {s : State} {w w' : ω} {fault : Fault}
    (h : t.Fails w fault w') : settle s (t w) = (s, w') := by
  rw [show t w = (.error fault, w') from h, settle]

/-- A step retains the first inputs unless it applies a function that takes some of them. -/
theorem retains_step {set : InstructionSet ω} {s t : State} {w w' : ω} (h : s.Retains front)
    (stepped : (set.step s).Yields w t w') (enough : front.length ≤ (step set).fewest (s, w)) :
    t.Retains front := by
  cases hs : s.stack .exec with
  | nil =>
    rw [InstructionSet.step, hs, Task.yields_pure] at stepped
    exact stepped.1 ▸ h
  | cons top rest =>
    have popped : (s.pop .exec).Retains front :=
      h.of_inputs_eq (State.inputs_pop s (by decide))
    obtain ⟨value, -, -, rfl⟩ | ⟨p, -, -, rfl⟩ | ⟨name, action, rfl, found, applied⟩ :=
      InstructionSet.step_cases hs stepped
    · exact popped.push _ _
    · exact popped.of_inputs_eq (State.inputs_loadExec _ p)
    · cases action with
      | dup =>
        rw [(Action.yields_dup.mp applied).1]
        exact popped.of_inputs_eq (State.inputs_dup _)
      | branch =>
        exact popped.of_inputs_eq (State.branch_inputs (Action.yields_branch.mp applied).1)
      | input key =>
        exact popped.of_inputs_eq (State.putBack_inputs (Action.yields_input.mp applied).1)
      | value f args result =>
        simp only [fewest, hs, found] at enough
        exact popped.invoke applied enough

theorem retains_perform (op : Operation ω) (h : st.1.Retains front)
    (enough : front.length ≤ op.fewest st) : (op.perform st).1.Retains front := by
  obtain ⟨s, w⟩ := st
  cases op with
  | push name v => exact h.push name v
  | pop name => exact h.pop enough
  | withStack name values =>
    by_cases isInput : name = .input
    · rw [perform, State.withStack?, if_pos isInput]
      exact h
    · rw [perform, State.withStack?, if_neg isInput]
      exact h.of_inputs_eq (State.inputs_assign s name values)
  | takeArgs names =>
    cases taken : s.takeArgs? names with
    | none =>
      rw [perform, taken]
      exact h
    | some found =>
      obtain ⟨vs, t⟩ := found
      rw [fewest, taken] at enough
      rw [perform, taken]
      exact h.takeArgs? taken enough
  | invoke f args result =>
    rw [perform]
    rcases (s.invoke f args result).yields_or_fails w with ⟨t, w', yields⟩ | ⟨fault, w', fails⟩
    · rw [settle_of_yields yields]
      exact h.invoke yields enough
    · rw [settle_of_fails fails]
      exact h
  | loadImages images => exact h.pushAll .image images
  | loadInputs values => exact h.pushAll .input values
  | step set =>
    rw [perform]
    rcases (set.step s).yields_or_fails w with ⟨t, w', yields⟩ | ⟨fault, w', fails⟩
    · rw [settle_of_yields yields]
      exact retains_step h yields enough
    · rw [settle_of_fails fails]
      exact h

theorem retains_performAll (ops : List (Operation ω)) (h : st.1.Retains front)
    (enough : front.length ≤ fewestAll ops st) : (performAll ops st).1.Retains front := by
  induction ops generalizing st with
  | nil => exact h
  | cons op ops ih =>
    rw [fewestAll, Nat.le_min] at enough
    exact ih (retains_perform op h enough.1) enough.2

theorem numbered_performAll (ops : List (Operation ω)) (h : st.1.Numbered) :
    (performAll ops st).1.Numbered :=
  (retains_performAll ops ⟨h, List.nil_prefix⟩ (Nat.zero_le _)).numbered

/-- The value of some number stays as long as there are so many inputs. -/
theorem get?_performAll {k : Nat} {v : Value} (later : List (Operation ω)) (h : st.1.Numbered)
    (present : st.1.inputs.get? (State.inputKey k) = some v) (enough : k ≤ fewestAll later st) :
    (performAll later st).1.inputs.get? (State.inputKey k) = some v := by
  cases k with
  | zero =>
    rw [h.get?_inputKey_zero] at present
    cases present
  | succ i =>
    rw [h.get?_inputKey] at present
    have within : i < st.1.inputs.values.length := (List.getElem?_eq_some_iff.mp present).1
    have length : (st.1.inputs.values.take (i + 1)).length = i + 1 := List.length_take_of_le within
    have retained : (performAll later st).1.Retains (st.1.inputs.values.take (i + 1)) :=
      retains_performAll later ⟨h, List.take_prefix _ _⟩ (by rwa [length])
    rw [retained.numbered.get?_inputKey]
    obtain ⟨behind, values⟩ := retained.first
    rw [← values, List.getElem?_append_left (by rw [length]; exact Nat.lt_succ_self i),
      List.getElem?_take_of_lt (Nat.lt_succ_self i), present]

/-- Whatever was done with the stacks since they were empty, the keys of the inputs are those of the
first numbers in order. So the key that is to be popped is there, the top of the inputs is the one
with the highest number, popping takes back what was pushed, and what stands under the key of some
number stays there until the inputs become fewer. -/
theorem inputs_in_order (ops : List (Operation ω)) (w : ω) :
    let s := (performAll ops (∅, w)).1
    s.inputs.keys = (List.range s.inputs.size).map (fun i => State.inputKey (i + 1)) ∧
      (0 < s.inputs.size → s.inputs.contains (State.inputKey s.inputs.size) = true) ∧
      s.peek? .input = s.inputs.get? (State.inputKey s.inputs.size) ∧
      (∀ v, (s.push .input v).pop .input = s ∧
        (s.push .input v).inputs.get? (State.inputKey (s.inputs.size + 1)) = some v) ∧
      ∀ (later : List (Operation ω)) (w' : ω) (k : Nat) (v : Value),
        s.inputs.get? (State.inputKey k) = some v → k ≤ fewestAll later (s, w') →
        (performAll later (s, w')).1.inputs.get? (State.inputKey k) = some v := by
  intro s
  have numbered : s.Numbered := numbered_performAll ops State.numbered_empty
  refine ⟨numbered, numbered.contains_last, numbered.peek?_input, fun v => ⟨?_, ?_⟩, ?_⟩
  · exact numbered.pop_push v
  · rw [(numbered.push .input v).get?_inputKey, numbered.values_push, List.getElem?_append_right,
      Table.length_values, Nat.sub_self]
    · rfl
    · exact Nat.le_of_eq (Table.length_values _)
  · intro later w' k v present enough
    exact get?_performAll later numbered present enough

/-- Two inputs are loaded and the second one is replaced. -/
def replacing : List (Operation Script) :=
  [.loadInputs [.int 1, .int 2], .takeArgs [.input, .bool], .takeArgs [.input],
    .push .input (.int 3)]

/-- A third input is pushed, replaced by the value of a function, and popped. -/
def passing : List (Operation Script) :=
  [.push .input (.int 4), .invoke (fun _ => pure (.int 5)) [.input] .input, .withStack .input [],
    .pop .input]

theorem replacing_in_order :
    let st := performAll replacing (∅, ⟨[]⟩)
    st.1.inputs.keys = [State.inputKey 1, State.inputKey 2] ∧
      (performAll passing st).1.inputs.get? (State.inputKey 2) = some (.int 3) := by
  intro st
  have size : st.1.inputs.size = 2 := by decide +kernel
  have present : st.1.inputs.get? (State.inputKey 2) = some (.int 3) := rfl
  have enough : 2 ≤ fewestAll passing st := by decide +kernel
  obtain ⟨keys, -, -, -, stays⟩ := inputs_in_order replacing ⟨[]⟩
  refine ⟨?_, stays passing st.2 2 (.int 3) present enough⟩
  rw [show st.1.inputs.keys = _ from keys, size]
  rfl

end Operation

end PictureEvolution
