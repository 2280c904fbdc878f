import PictureEvolution.Proofs.Machine.Limits

/-!
# Inputs that stand for pieces of program

Putting an input back is one step. When the input is a truth value, a number, a text or a list, the
step leaves the piece of program for which the input stands in the place of the instruction, and the
run goes on as if the piece had been there from the start. Values that stand for no program become
images, and so do elements, although they stand for themselves.
-/

namespace PictureEvolution

namespace Value

variable {offender : Value}

mutual

/-- The value that keeps another from standing for a program is no list. -/
theorem isExecuted_of_toElement_error :
    (v : Value) → v.toElement = .error offender → offender.isExecuted = false
  | bool _, h | int _, h | text _, h | element _, h => by cases h
  | real _, h | nothing, h | mapping, h | image _, h => by cases h; rfl
  | list values, h => by
    rw [toElement] at h
    cases found : toElements values with
    | error inner =>
      rw [found] at h
      cases h
      exact isExecuted_of_toElements_error values found
    | ok es =>
      rw [found] at h
      cases h

theorem isExecuted_of_toElements_error :
    (values : List Value) → toElements values = .error offender → offender.isExecuted = false
  | [], h => by cases h
  | v :: rest, h => by
    rw [toElements] at h
    cases first : v.toElement with
    | error inner =>
      rw [first] at h
      cases h
      exact isExecuted_of_toElement_error v first
    | ok e =>
      rw [first] at h
      cases others : toElements rest with
      | error inner =>
        rw [others] at h
        cases h
        exact isExecuted_of_toElements_error rest others
      | ok es =>
        rw [others] at h
        cases h

end

/-- Not executed are the values that stand for no program, and elements. -/
theorem not_isExecuted_iff {v : Value} :
    v.isExecuted = false ↔ v.toElement = .error v ∨ ∃ e, v = .element e := by
  constructor
  · intro h
    cases v with
    | bool _ | int _ | text _ | list _ => cases h
    | real _ | nothing | mapping | image _ => exact .inl rfl
    | element e => exact .inr ⟨e, rfl⟩
  · rintro (offends | ⟨e, rfl⟩)
    · exact isExecuted_of_toElement_error v offends
    · rfl

end Value

namespace InstructionSet

variable {ω : Type} {set : InstructionSet ω} {s t : State} {w : ω} {n : Nat}
  {outcome : Except Fault State × ω} {name key : String} {v : Value} {rest : List Value}

/-- A run through a step that draws nothing is the run from the next state, and that step. -/
theorem ends_succ_iff (pending : s.stack .exec ≠ []) (one : ∀ w, (set.step s).Yields w t w) :
    set.Ends s w (n + 1) outcome ↔ set.Ends t w n outcome := by
  constructor
  · intro h
    cases h with
    | halted steps empty =>
      cases steps with
      | cons _ first others =>
        obtain ⟨rfl, rfl⟩ := first.unique (one w)
        exact .halted others empty
    | failed steps pending' last =>
      cases steps with
      | refl => exact absurd last (one w).not_fails
      | cons _ first others =>
        obtain ⟨rfl, rfl⟩ := first.unique (one w)
        exact .failed others pending' last
  · exact .cons pending (one w)

/-- The instruction on top of `s` stands for the element: `t` is `s` with the element in its place,
and what is left of the run is the run of `t`. -/
structure StandsFor (set : InstructionSet ω) (name : String) (e : Element) (s t : State)
    (rest : List Value) : Prop where
  exec : t.stack .exec = .element e :: rest
  others : ∀ other, other ≠ .exec → t.stack other = s.stack other
  inputs : t.inputs = s.inputs
  step : ∀ w, (set.step s).Yields w t w
  ends : ∀ w n outcome, set.Ends s w (n + 1) outcome ↔ set.Ends t w n outcome
  drain : ∀ fault n, set.drain fault (n + 1) s = set.drain fault n t
  /-- The program with the element in the place of its first name leads to the same. -/
  program : ∀ (s₀ : State) (p : Program), s = s₀.loadExec (.instruction name :: p) →
    t = s₀.loadExec (e :: p)
  run : ∀ (s₀ : State) (p : Program) w (fuel : Nat), s = s₀.loadExec (.instruction name :: p) →
    set.validate (.instruction name :: p) = .ok () → set.validate (e :: p) = .ok () →
      SameButFuel (set.run (.steps (fuel + 1 : Nat)) (.instruction name :: p) s₀ w)
        (set.run (.steps fuel) (e :: p) s₀ w)

/-- A step that only puts the element in the place of the name makes the name stand for it. -/
theorem StandsFor.of_step {e : Element} (top : s.stack .exec = .element (.instruction name) :: rest)
    (one : ∀ w, (set.step s).Yields w (s.assign .exec (.element e :: rest)) w) :
    set.StandsFor name e s (s.assign .exec (.element e :: rest)) rest := by
  have pending : s.stack .exec ≠ [] := by simp [top]
  have drain (fault : State → Fault) (n : Nat) :
      set.drain fault (n + 1) s = set.drain fault n (s.assign .exec (.element e :: rest)) := by
    funext w
    rw [drain_of_pending pending, Task.bind_of_yields (one w)]
  have program (s₀ : State) (p : Program) (same : s = s₀.loadExec (.instruction name :: p)) :
      s.assign .exec (.element e :: rest) = s₀.loadExec (e :: p) := by
    have behind : rest = p.map .element ++ s₀.stack .exec := by
      rw [same, State.stack_loadExec] at top
      exact (List.cons.inj top).2.symm
    rw [same, behind, State.loadExec, State.assign_assign]
    rfl
  refine ⟨?_, ?_, State.inputs_assign _ _ _, one, fun w n outcome => ends_succ_iff pending one,
    drain, program, ?_⟩
  · rw [State.stack_assign (by decide), if_pos rfl]
  · intro other ne
    rw [State.stack_assign (by decide), if_neg ne]
  · intro s₀ p w fuel same valid valid'
    rw [run_of_valid valid, run_of_valid valid', ← same, ← program s₀ p same]
    show SameButFuel (set.drain _ (fuel + 1) s w) (set.drain _ fuel _ w)
    rw [drain]
    exact sameButFuel_drain set _ _ fuel _ w

theorem step_putBack (found : set.get? name = some (.input key))
    (top : s.stack .exec = .element (.instruction name) :: rest) :
    set.step s = Action.apply.liftExcept ((s.pop .exec).putBack key) := by
  rw [step_instruction top, found]
  rfl

/-- The name of an input that is a truth value, a number, a text or a list stands for the element
that the input stands for, and a list that stands for none is a fault. What is neither a literal nor
a program goes to the images. So does an element. -/
theorem input_put_back (set : InstructionSet ω) (found : set.get? name = some (.input key))
    (s : State) (present : s.inputs.get? key = some v)
    (top : s.stack .exec = .element (.instruction name) :: rest) :
    (∀ e, v.toElement = .ok e → v ≠ .element e →
      set.StandsFor name e s (s.assign .exec (.element e :: rest)) rest) ∧
    (∀ values offender, v = .list values → v.toElement = .error offender →
      ∀ w, (set.step s).Fails w (.notAnElement offender) w) ∧
    (v.toElement = .error v ∨ (∃ e, v = .element e) →
      ∀ w, (set.step s).Yields w ((s.assign .exec rest).push .image v) w) := by
  have popped : s.pop .exec = s.assign .exec rest := State.pop_of_stack (by decide) top
  have here : (s.pop .exec).inputs.get? key = some v := by rwa [popped]
  refine ⟨fun e stands notElement => .of_step top fun w => ?_, ?_, fun shown w => ?_⟩
  · have executed : v.isExecuted = true := by
      rw [← Bool.not_eq_false, Value.not_isExecuted_iff]
      rintro (offends | ⟨e', rfl⟩)
      · rw [stands] at offends
        cases offends
      · cases stands
        exact notElement rfl
    rw [step_putBack found top, Action.yields_liftExcept,
      State.putBack_of_isExecuted here executed, stands, popped, ← State.push_assign (by decide)]
    exact ⟨rfl, rfl⟩
  · rintro values offender rfl offends w
    rw [step_putBack found top, Action.fails_liftExcept, State.putBack_of_isExecuted here rfl,
      offends]
    exact ⟨rfl, rfl⟩
  · rw [step_putBack found top, Action.yields_liftExcept,
      State.putBack_of_not_isExecuted here (Value.not_isExecuted_iff.mpr shown), popped]
    exact ⟨rfl, rfl⟩

def restoring : InstructionSet Script :=
  basic.insert (State.inputKey 1) (.input (State.inputKey 1))

def stateWithInput (v : Value) : State :=
  ((∅ : State).loadInputs [v]).loadExec [.instruction (State.inputKey 1), .literal (.bool true)]

/-- A list with a list inside, in which an element stands for itself. -/
def nested : Value :=
  .list [.int 4, .list [.text "exec_dup", .element (.literal (.int 5))]]

theorem nested_put_back :
    restoring.get? (State.inputKey 1) = some (.input (State.inputKey 1)) ∧
    (stateWithInput nested).inputs.get? (State.inputKey 1) = some nested ∧
    (stateWithInput nested).stack .exec =
      [.element (.instruction (State.inputKey 1)), .element (.literal (.bool true))] ∧
    restoring.StandsFor (State.inputKey 1)
      (.block [.literal (.int 4), .block [.instruction "exec_dup", .literal (.int 5)]])
      (stateWithInput nested)
      ((stateWithInput nested).assign .exec
        [.element (.block [.literal (.int 4), .block [.instruction "exec_dup", .literal (.int 5)]]),
          .element (.literal (.bool true))])
      [.element (.literal (.bool true))] := by
  have found : restoring.get? (State.inputKey 1) = some (.input (State.inputKey 1)) := by
    rw [restoring, Table.get?_insert_self]
  have present : (stateWithInput nested).inputs.get? (State.inputKey 1) = some nested := by rfl
  have top : (stateWithInput nested).stack .exec =
      [.element (.instruction (State.inputKey 1)), .element (.literal (.bool true))] := by rfl
  exact ⟨found, present, top,
    (input_put_back restoring found (stateWithInput nested) present top).1 _ rfl nofun⟩

/-- An element as an input is not executed, although it stands for itself. -/
theorem element_not_executed :
    (Value.element (.literal (.int 5))).toElement = .ok (.literal (.int 5)) ∧
    (∃ t, (restoring.run (.steps 1) [.instruction (State.inputKey 1)]
        ((∅ : State).loadInputs [.element (.literal (.int 5))])).Yields ⟨[]⟩ t ⟨[]⟩ ∧
      t.stack .integer = [] ∧ t.stack .image = [.element (.literal (.int 5))]) ∧
    ∃ t, (restoring.run (.steps 1) [.literal (.int 5)]
        ((∅ : State).loadInputs [.element (.literal (.int 5))])).Yields ⟨[]⟩ t ⟨[]⟩ ∧
      t.stack .integer = [.int 5] ∧ t.stack .image = [] :=
  ⟨rfl, ⟨_, rfl, rfl, rfl⟩, _, rfl, rfl, rfl⟩

end InstructionSet

end PictureEvolution
