import PictureEvolution.Proofs.Machine.Stacks
import PictureEvolution.Proofs.Machine.Steps

/-!
# What one step does

A step that succeeds pushes a literal, splices a block, or applies the action of a name. Whatever is
shown of runs is shown for these three.
-/

namespace PictureEvolution

def Literal.stack : Literal → StackName
  | bool _ => .bool
  | int _ => .integer

theorem Literal.ne_stack {name : StackName} (l : Literal) (hb : name ≠ .bool)
    (hi : name ≠ .integer) : name ≠ l.stack := by
  cases l with
  | bool b => exact hb
  | int n => exact hi

namespace Action

variable {ω α : Type} {s t : State} {w w' : ω}

@[simp] theorem yields_liftExcept {r : Except Fault α} {a : α} :
    (apply.liftExcept r : Task ω α).Yields w a w' ↔ r = .ok a ∧ w' = w := by
  cases r with
  | error fault => simp [apply.liftExcept]
  | ok b =>
    rw [apply.liftExcept, Task.yields_pure, Except.ok.injEq, eq_comm]

@[simp] theorem fails_liftExcept {r : Except Fault α} {fault : Fault} :
    (apply.liftExcept r : Task ω α).Fails w fault w' ↔ r = .error fault ∧ w' = w := by
  cases r with
  | error fault' =>
    rw [apply.liftExcept, Task.fails_throw, Except.error.injEq, eq_comm]
  | ok b => simp [apply.liftExcept]

@[simp] theorem yields_dup : ((dup : Action ω).apply s).Yields w t w' ↔ t = s.dup ∧ w' = w := by
  rw [apply, Task.yields_pure]

@[simp] theorem yields_branch :
    ((branch : Action ω).apply s).Yields w t w' ↔ s.branch = .ok t ∧ w' = w := by
  rw [apply, yields_liftExcept]

@[simp] theorem yields_input {key : String} :
    ((input key : Action ω).apply s).Yields w t w' ↔ s.putBack key = .ok t ∧ w' = w := by
  rw [apply, yields_liftExcept]

/-- An action fails on a condition without a truth value, on an input that stands for no program, or
with the function that it applies. -/
theorem fails_cases {action : Action ω} {fault : Fault} (h : (action.apply s).Fails w fault w') :
    fault = .undecidedTruth ∨ (∃ offender, fault = .notAnElement offender) ∨
      ∃ f args result vs, action = .value f args result ∧ (f vs).Fails w fault w' := by
  cases action with
  | dup => exact absurd h Task.not_fails_pure
  | branch => exact .inl (State.branch_error (fails_liftExcept.mp h).1)
  | input key => exact .inr (.inl (State.putBack_error (fails_liftExcept.mp h).1))
  | value f args result =>
    obtain ⟨vs, rest, -, called⟩ := State.fails_invoke.mp h
    exact .inr (.inr ⟨f, args, result, vs, rfl, called⟩)

end Action

namespace InstructionSet

variable {ω : Type} {set : InstructionSet ω} {s t : State} {w w' : ω} {top : Value}
  {rest : List Value}

theorem step_literal {value : Literal} (h : s.stack .exec = .element (.literal value) :: rest) :
    set.step s = pure ((s.pop .exec).push value.stack (.ofLiteral value)) := by
  rw [step, h]
  cases value <;> rfl

theorem step_block {p : Program} (h : s.stack .exec = .element (.block p) :: rest) :
    set.step s = pure ((s.pop .exec).loadExec p) := by
  rw [step, h]

theorem step_instruction {name : String}
    (h : s.stack .exec = .element (.instruction name) :: rest) :
    set.step s = match set.get? name with
      | some action => action.apply (s.pop .exec)
      | none => throw (.unknownInstruction name []) := by
  rw [step, h]
  dsimp only
  rw [resolve]
  cases set.get? name <;> rfl

/-- Only elements can be executed. -/
theorem step_other (h : s.stack .exec = top :: rest) (other : ∀ e, top ≠ .element e) :
    set.step s = throw (.unexpectedExec top) := by
  rw [step, h]
  cases top with
  | element e => exact absurd rfl (other e)
  | _ => rfl

/-- What a step that succeeds can be. -/
theorem step_cases (pending : s.stack .exec = top :: rest) (h : (set.step s).Yields w t w') :
    (∃ value, top = .element (.literal value) ∧ w' = w ∧
      t = (s.pop .exec).push value.stack (.ofLiteral value)) ∨
    (∃ p, top = .element (.block p) ∧ w' = w ∧ t = (s.pop .exec).loadExec p) ∨
    ∃ name action, top = .element (.instruction name) ∧ set.get? name = some action ∧
      (action.apply (s.pop .exec)).Yields w t w' := by
  by_cases isElement : ∃ e, top = .element e
  · obtain ⟨e, rfl⟩ := isElement
    cases e with
    | literal value =>
      rw [step_literal pending, Task.yields_pure] at h
      exact .inl ⟨value, rfl, h.2, h.1⟩
    | block p =>
      rw [step_block pending, Task.yields_pure] at h
      exact .inr (.inl ⟨p, rfl, h.2, h.1⟩)
    | instruction name =>
      rw [step_instruction pending] at h
      cases found : set.get? name with
      | none => simp [found] at h
      | some action =>
        rw [found] at h
        exact .inr (.inr ⟨name, action, rfl, found, h⟩)
  · rw [step_other pending (fun e he => isElement ⟨e, he⟩)] at h
    exact absurd h Task.not_yields_throw

/-- What a step that fails can be. -/
theorem step_fails_cases {fault : Fault} (h : (set.step s).Fails w fault w') :
    (∃ top rest, s.stack .exec = top :: rest ∧ (∀ e, top ≠ .element e) ∧
      fault = .unexpectedExec top) ∨
    ∃ name rest, s.stack .exec = .element (.instruction name) :: rest ∧
      ((set.get? name = none ∧ fault = .unknownInstruction name []) ∨
        ∃ action, set.get? name = some action ∧
          (action.apply (s.pop .exec)).Fails w fault w') := by
  cases hs : s.stack .exec with
  | nil =>
    rw [step, hs] at h
    exact absurd h Task.not_fails_pure
  | cons top rest =>
    by_cases isElement : ∃ e, top = .element e
    · obtain ⟨e, rfl⟩ := isElement
      cases e with
      | literal value => simp [step_literal hs] at h
      | block p => simp [step_block hs] at h
      | instruction name =>
        refine .inr ⟨name, rest, rfl, ?_⟩
        rw [step_instruction hs] at h
        cases found : set.get? name with
        | none => exact .inl ⟨rfl, by simpa [found] using (by simpa [found] using h : _ ∧ _).1⟩
        | some action => exact .inr ⟨action, rfl, by simpa [found] using h⟩
    · have other (e : Element) (he : top = .element e) : False := isElement ⟨e, he⟩
      rw [step_other hs other, Task.fails_throw] at h
      exact .inl ⟨top, rest, rfl, other, h.1⟩

/-- No function takes from the inputs or returns to them. -/
def SparesInputs (set : InstructionSet ω) : Prop :=
  ∀ name f args result, set.get? name = some (.value f args result) →
    .input ∉ args ∧ result ≠ .input

theorem step_inputs (spares : set.SparesInputs) (pending : s.stack .exec ≠ [])
    (h : (set.step s).Yields w t w') : t.inputs = s.inputs := by
  obtain ⟨top, rest, hs⟩ := List.exists_cons_of_ne_nil pending
  have popped : (s.pop .exec).inputs = s.inputs := State.inputs_pop s (by decide)
  obtain ⟨value, -, -, rfl⟩ | ⟨p, -, -, rfl⟩ | ⟨name, action, -, found, applied⟩ :=
    step_cases hs h
  · rw [State.inputs_push _ _ (Ne.symm (value.ne_stack (by decide) (by decide))), popped]
  · rw [State.inputs_loadExec, popped]
  · rw [← popped]
    cases action with
    | dup => rw [(Action.yields_dup.mp applied).1, State.inputs_dup]
    | branch => exact State.branch_inputs (Action.yields_branch.mp applied).1
    | input key => exact State.putBack_inputs (Action.yields_input.mp applied).1
    | value f args result =>
      obtain ⟨ha, hr⟩ := spares name f args result found
      exact State.invoke_inputs applied ha hr

theorem Steps.inputs_eq {n : Nat} (h : set.Steps n s w t w') (spares : set.SparesInputs) :
    t.inputs = s.inputs := by
  induction h with
  | refl => rfl
  | cons pending one _ ih => rw [ih, step_inputs spares pending one]

end InstructionSet

end PictureEvolution
