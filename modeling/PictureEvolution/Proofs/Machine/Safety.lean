import PictureEvolution.Proofs.Machine.Limits

/-!
# Validated programs do not go wrong

Validation looks up the names of a program once, before it runs. Each step looks up the name that is
on top by then, and that may come from the program, from what was waiting behind it, or from an
input. When all these are elements whose names have actions they stay so: splicing, repeating and
dropping make no new names, and functions return elsewhere.
-/

namespace PictureEvolution

/-- The faults on what cannot be executed: a name without an action, and a value that is no
element. -/
def Fault.isUnexecutable : Fault → Bool
  | unknownInstruction _ _ | unexpectedExec _ => true
  | _ => false

namespace InstructionSet

variable {ω : Type} {set : InstructionSet ω} {s t : State} {w w' v : ω} {n : Nat} {fault : Fault}

def Knows (set : InstructionSet ω) (e : Element) : Prop :=
  ∀ name ∈ e.names, set.contains name = true

theorem validate_eq_ok_iff_knows {p : Program} :
    set.validate p = .ok () ↔ ∀ e ∈ p, set.Knows e := by
  rw [validate_eq_ok_iff]
  constructor
  · intro known e he name hn
    exact known name (Element.mem_namesAll.mpr ⟨e, he, hn⟩)
  · intro known name hn
    obtain ⟨e, he, hn⟩ := Element.mem_namesAll.mp hn
    exact known e he name hn

theorem knows_block {p : Program} : set.Knows (.block p) ↔ ∀ e ∈ p, set.Knows e := by
  rw [← validate_eq_ok_iff_knows, validate_eq_ok_iff, Knows, Element.names]

theorem Knows.get? {name : String} (h : set.Knows (.instruction name)) :
    ∃ action, set.get? name = some action :=
  Option.isSome_iff_exists.mp (h name List.mem_cons_self)

/-- What is to be executed are elements with known names, and so is what the inputs that are
executed when they are put back stand for. -/
structure Covers (set : InstructionSet ω) (s : State) : Prop where
  exec : ∀ v ∈ s.stack .exec, ∃ e, v = .element e ∧ set.Knows e
  inputs : ∀ key v, s.inputs.get? key = some v → v.isExecuted = true →
    ∃ e, v.toElement = .ok e ∧ set.Knows e

def ReturnsElsewhere (set : InstructionSet ω) : Prop :=
  ∀ name f args result, set.get? name = some (.value f args result) →
    result ≠ .exec ∧ result ≠ .input

namespace Covers

/-- A state stays covered when it loses elements or inputs. -/
theorem mono (h : set.Covers s) (exec : ∀ v ∈ t.stack .exec, v ∈ s.stack .exec)
    (inputs : ∀ key v, t.inputs.get? key = some v → s.inputs.get? key = some v) :
    set.Covers t where
  exec v hv := h.exec v (exec v hv)
  inputs key v hv := h.inputs key v (inputs key v hv)

theorem push {e : Element} (h : set.Covers s) (known : set.Knows e) :
    set.Covers (s.push .exec (.element e)) where
  exec v hv := by
    rcases State.mem_stack_push (by decide) hv with rfl | hv
    · exact ⟨e, rfl, known⟩
    · exact h.exec v hv
  inputs := by
    rw [State.inputs_push s _ (by decide)]
    exact h.inputs

theorem loadExec {p : Program} (h : set.Covers s) (known : ∀ e ∈ p, set.Knows e) :
    set.Covers (s.loadExec p) where
  exec v hv := by
    rw [State.stack_loadExec, List.mem_append] at hv
    rcases hv with hv | hv
    · obtain ⟨e, he, rfl⟩ := List.mem_map.mp hv
      exact ⟨e, rfl, known e he⟩
    · exact h.exec v hv
  inputs := h.inputs

theorem pop (h : set.Covers s) : set.Covers (s.pop .exec) :=
  h.mono (fun _ hv => (State.stack_pop_suffix s (by decide)).subset hv)
    fun _ _ => State.get?_inputs_pop

theorem putBack {key : String} (h : set.Covers s) (done : s.putBack key = .ok t) :
    set.Covers t := by
  obtain rfl | ⟨v, e, present, executed, converted, rfl⟩ | ⟨v, -, -, rfl⟩ :=
    State.putBack_cases done
  · exact h
  · obtain ⟨same, again, known⟩ := h.inputs key v present executed
    rw [converted] at again
    cases again
    exact h.push known
  · refine h.mono (fun u hu => ?_) fun other u hu => ?_
    · rwa [State.stack_push_of_ne s v (by decide) (by decide)] at hu
    · rwa [State.inputs_push s v (by decide)] at hu

/-- Whatever action is applied, no other elements come to be executed than were there or stand in
the inputs. -/
theorem apply {name : String} {action : Action ω} (h : set.Covers s)
    (elsewhere : set.ReturnsElsewhere) (found : set.get? name = some action)
    (applied : (action.apply s).Yields w t w') : set.Covers t := by
  cases action with
  | dup =>
    obtain ⟨rfl, -⟩ := Action.yields_dup.mp applied
    refine h.mono (fun _ => State.mem_dup) fun key v hv => ?_
    rwa [State.inputs_dup] at hv
  | branch =>
    have chosen := (Action.yields_branch.mp applied).1
    refine h.mono (fun _ hv => (State.branch_sublist chosen).subset hv) fun key v hv => ?_
    rwa [State.branch_inputs chosen] at hv
  | input key => exact h.putBack (Action.yields_input.mp applied).1
  | value f args result =>
    obtain ⟨notExec, notInput⟩ := elsewhere name f args result found
    exact h.mono (fun _ hv => (State.invoke_suffix applied notExec.symm (by decide)).subset hv)
      fun _ _ => State.invoke_get?_inputs applied notInput

theorem step (h : set.Covers s) (elsewhere : set.ReturnsElsewhere) (pending : s.stack .exec ≠ [])
    (one : (set.step s).Yields w t w') : set.Covers t := by
  obtain ⟨top, rest, hs⟩ := List.exists_cons_of_ne_nil pending
  obtain ⟨value, rfl, -, rfl⟩ | ⟨p, rfl, -, rfl⟩ | ⟨name, action, rfl, found, applied⟩ :=
    step_cases hs one
  · have notExec : StackName.exec ≠ value.stack := value.ne_stack (by decide) (by decide)
    have notInput : StackName.input ≠ value.stack := value.ne_stack (by decide) (by decide)
    refine h.pop.mono (fun u hu => ?_) fun key u hu => ?_
    · rwa [State.stack_push_of_ne _ _ notExec (by decide)] at hu
    · rwa [State.inputs_push _ _ notInput.symm] at hu
  · obtain ⟨e, same, known⟩ := h.exec (.element (.block p)) (hs ▸ List.mem_cons_self)
    cases same
    exact h.pop.loadExec (knows_block.mp known)
  · exact h.pop.apply elsewhere found applied

end Covers

theorem Steps.covers (steps : set.Steps n s w t v) (h : set.Covers s)
    (elsewhere : set.ReturnsElsewhere) : set.Covers t := by
  induction steps with
  | refl => exact h
  | cons pending one _ ih => exact ih (h.step elsewhere pending one)

/-- No function returns to what is to be executed or to the inputs, and none fails as the machine
does on what it cannot execute. -/
structure Orderly (set : InstructionSet ω) : Prop where
  results : set.ReturnsElsewhere
  faults : ∀ name f args result, set.get? name = some (.value f args result) →
    ∀ vs w fault v, (f vs).Fails w fault v → fault.isUnexecutable = false

/-- On a covered state a step finds an element, and an action for its name. -/
theorem Covers.isUnexecutable_eq_false (h : set.Covers s) (orderly : set.Orderly)
    (failed : (set.step s).Fails w fault v) : fault.isUnexecutable = false := by
  obtain ⟨top, rest, hs, other, -⟩ | ⟨name, rest, hs, ⟨unknown, -⟩ | ⟨action, found, failed⟩⟩ :=
    step_fails_cases failed
  · obtain ⟨e, rfl, -⟩ := h.exec top (hs ▸ List.mem_cons_self)
    exact absurd rfl (other e)
  · obtain ⟨e, same, known⟩ := h.exec _ (hs ▸ List.mem_cons_self)
    cases same
    obtain ⟨action, found⟩ := known.get?
    rw [unknown] at found
    cases found
  · obtain rfl | ⟨offender, rfl⟩ | ⟨f, args, result, vs, rfl, called⟩ := Action.fails_cases failed
    · rfl
    · rfl
    · exact orderly.faults name f args result found vs w fault v called

/-- A validated program on a covered state, whatever is drawn: at every state that its run reaches
there are only elements with known names to execute, and neither a step nor the run as a whole,
under any limit, fails on what cannot be executed. -/
theorem executable_of_valid (set : InstructionSet ω) (orderly : set.Orderly) (p : Program)
    (valid : set.validate p = .ok ()) (s : State) (covered : set.Covers s) (w : ω) :
    (∀ n t v, set.Steps n (s.loadExec p) w t v →
      (∀ u ∈ t.stack .exec, ∃ e, u = .element e ∧ set.Knows e) ∧
        ∀ fault x, (set.step t).Fails v fault x → fault.isUnexecutable = false) ∧
    ∀ limit fault x, (set.run limit p s).Fails w fault x → fault.isUnexecutable = false := by
  have start := covered.loadExec (validate_eq_ok_iff_knows.mp valid)
  have reached {n : Nat} {t : State} {v : ω} (steps : set.Steps n (s.loadExec p) w t v) :
      set.Covers t := steps.covers start orderly.results
  refine ⟨fun n t v steps => ⟨(reached steps).exec, fun fault x failed => ?_⟩, ?_⟩
  · exact (reached steps).isUnexecutable_eq_false orderly failed
  · intro limit fault x failed
    rw [run_of_valid valid] at failed
    obtain ⟨t, -, rfl⟩ | ⟨k, -, t, y, before, last⟩ := drain_fails_iff.mp failed
    · cases limit <;> rfl
    · exact (reached before.1).isUnexecutable_eq_false orderly last

end InstructionSet

/-- The basic instructions, one input, and a function that takes away an element that was to be
executed and an input. -/
def discarding : InstructionSet Script :=
  (InstructionSet.basic.insert (State.inputKey 1) (.input (State.inputKey 1))).insert "discard"
    (.value (fun vs => pure (.int vs.length)) [.exec, .input] .integer)

def discardingProgram : Program :=
  [.instruction (State.inputKey 1), .literal (.bool false), .instruction InstructionSet.branchName,
   .block [.instruction "discard"], .block [.instruction InstructionSet.dupName]]

def waitingState : State :=
  ((∅ : State).loadInputs [.list [.text "discard", .list [.text "exec_dup", .int 3]]]).loadExec
    [.instruction "discard", .block [.instruction (State.inputKey 1)]]

theorem orderly_discarding : discarding.Orderly := by
  have only {name : String} {f args result}
      (found : discarding.get? name = some (.value f args result)) :
      f = (fun vs => pure (.int vs.length)) ∧ result = .integer := by
    rw [discarding, Table.get?_insert, Table.get?_insert] at found
    split at found
    · cases found
      exact ⟨rfl, rfl⟩
    · split at found
      · cases found
      · rcases InstructionSet.get?_basic_cases found with ⟨-, other⟩ | ⟨-, other⟩ <;> cases other
  constructor
  · intro name f args result found
    obtain ⟨-, rfl⟩ := only found
    decide
  · intro name f args result found vs w fault v failed
    obtain ⟨rfl, -⟩ := only found
    exact absurd failed Task.not_fails_pure

theorem covers_waitingState : discarding.Covers waitingState where
  exec v hv := by
    change v ∈ [Value.element (.instruction "discard"),
      .element (.block [.instruction (State.inputKey 1)])] at hv
    simp only [List.mem_cons, List.not_mem_nil, or_false] at hv
    rcases hv with rfl | rfl
    · exact ⟨_, rfl, by unfold InstructionSet.Knows; decide⟩
    · exact ⟨_, rfl, by unfold InstructionSet.Knows; decide⟩
  inputs key v present _ := by
    change Table.find key [(State.inputKey 1, Value.list _)] = some v at present
    rw [Table.find] at present
    split at present
    · cases present
      exact ⟨_, rfl, by unfold InstructionSet.Knows; decide⟩
    · cases present

theorem discarding_executable :
    discarding.Orderly ∧ discarding.validate discardingProgram = .ok () ∧
      discarding.Covers waitingState ∧ ∀ limit fault x,
        (discarding.run limit discardingProgram waitingState).Fails (⟨[]⟩ : Script) fault x →
          fault.isUnexecutable = false := by
  have valid : discarding.validate discardingProgram = .ok () := by
    rw [InstructionSet.validate_eq_ok_iff]
    decide
  have executable := InstructionSet.executable_of_valid discarding orderly_discarding
    discardingProgram valid waitingState covers_waitingState ⟨[]⟩
  exact ⟨orderly_discarding, valid, covers_waitingState, executable.2⟩

end PictureEvolution
