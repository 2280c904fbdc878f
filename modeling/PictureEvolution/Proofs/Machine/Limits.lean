import PictureEvolution.Proofs.Machine.PictureSet
import PictureEvolution.Proofs.Machine.Validation

/-!
# Runs under limits

A limit decides where a run is cut off and nothing else. A run that its fuel does not cut off has
the outcome that it has with more fuel or without a limit. A run that is cut off can be resumed from
the state and the source where it stopped, and then comes to what it would have come to with the
fuel of both parts.
-/

namespace PictureEvolution

theorem State.loadExec_nil {s : State} (pending : s.stack .exec ≠ []) : s.loadExec [] = s := by
  have contents := s.stack_eq_getD (show StackName.exec ≠ .input by decide)
  have present : s.contents.get? .exec = some (s.stack .exec) := by
    cases found : s.contents.get? .exec with
    | none => exact absurd (by rw [contents, found]; rfl) pending
    | some values => rw [contents, found, Option.getD_some]
  simp only [loadExec, assign, List.map_nil, List.nil_append, Table.insert_eq_self present]

namespace InstructionSet

variable {ω : Type} {set : InstructionSet ω} {n m k : Nat} {s t u : State} {w v x : ω}
  {p : Program} {outcome : Except Fault State × ω}

def Stopped (set : InstructionSet ω) (n : Nat) (s : State) (w : ω) (t : State) (v : ω) : Prop :=
  set.Steps n s w t v ∧ t.stack .exec ≠ []

theorem ends_or_stopped (set : InstructionSet ω) (s : State) (w : ω) (n : Nat) :
    (∃ k ≤ n, ∃ outcome, set.Ends s w k outcome) ∨ ∃ t v, set.Stopped n s w t v :=
  set.ends_or_steps s w n

theorem Stopped.drain_eq {fault : State → Fault} (h : set.Stopped n s w t v) :
    set.drain fault n s w = (.error (fault t), v) :=
  h.1.drain_fails h.2

/-- A run that is stopped has not come to its end: the outcome of an end does not depend on the
fault of the limit. -/
theorem Stopped.not_ends (h : set.Stopped n s w t v) (le : k ≤ n) : ¬ set.Ends s w k outcome := by
  intro ends
  have one : set.drain (fun _ => .gridZero) n s w = (.error .gridZero, v) := h.drain_eq
  have other : set.drain (fun _ => .emptyChoice) n s w = (.error .emptyChoice, v) := h.drain_eq
  rw [ends.drain_eq le] at one other
  cases one.symm.trans other

theorem run_of_valid (valid : set.validate p = .ok ()) (limit : Limit) (s : State) :
    set.run limit p s = set.drain limit.fault limit.bound (s.loadExec p) := by
  rw [run, valid]

section Fuel

variable {fault : State → Fault}

theorem drain_yields_iff : (set.drain fault n s).Yields w t v ↔
    ∃ k ≤ n, set.Steps k s w t v ∧ t.stack .exec = [] := by
  constructor
  · intro h
    obtain ⟨k, le, outcome, ends⟩ | ⟨u, x, stopped⟩ := set.ends_or_stopped s w n
    · have reached : outcome = _ := (ends.drain_eq le).symm.trans h
      cases ends with
      | halted steps empty =>
        cases reached
        exact ⟨k, le, steps, empty⟩
      | failed => cases reached
    · exact absurd stopped.drain_eq (Task.Yields.not_fails h)
  · rintro ⟨k, le, steps, empty⟩
    exact (Ends.halted steps empty).drain_eq le

theorem drain_fails_iff {cause : Fault} : (set.drain fault n s).Fails w cause v ↔
    (∃ t, set.Stopped n s w t v ∧ cause = fault t) ∨
      ∃ k < n, ∃ t x, set.Stopped k s w t x ∧ (set.step t).Fails x cause v := by
  constructor
  · intro h
    obtain ⟨k, le, outcome, ends⟩ | ⟨u, x, stopped⟩ := set.ends_or_stopped s w n
    · have reached : outcome = _ := (ends.drain_eq le).symm.trans h
      cases ends with
      | halted => cases reached
      | failed steps pending last =>
        cases reached
        exact .inr ⟨_, le, _, _, ⟨steps, pending⟩, last⟩
    · obtain ⟨rfl, rfl⟩ := Task.Fails.unique h stopped.drain_eq
      exact .inl ⟨u, stopped, rfl⟩
  · rintro (⟨t, stopped, rfl⟩ | ⟨k, lt, t, x, ⟨steps, pending⟩, last⟩)
    · exact stopped.drain_eq
    · exact (Ends.failed steps pending last).drain_eq lt

end Fuel

/-- No function of the set fails for want of fuel, as one might that runs a program of its own. -/
def Unfuelled (set : InstructionSet ω) : Prop :=
  ∀ name f args result, set.get? name = some (.value f args result) →
    ∀ vs w t fuel v, ¬ (f vs).Fails w (.fuelExhausted t fuel) v

theorem step_not_exhausted (unfuelled : set.Unfuelled) {fuel : Int} :
    ¬ (set.step s).Fails w (.fuelExhausted t fuel) v := by
  intro h
  obtain ⟨top, rest, -, -, other⟩ | ⟨name, rest, -, ⟨-, other⟩ | ⟨action, found, failed⟩⟩ :=
    step_fails_cases h
  · cases other
  · cases other
  · obtain other | ⟨offender, other⟩ | ⟨f, args, result, vs, rfl, called⟩ :=
      Action.fails_cases failed
    · cases other
    · cases other
    · exact unfuelled name f args result found vs w t fuel v called

/-- The same outcome and the same source afterwards; only the fuel that a fault of the limit names
may differ. -/
def SameButFuel (a b : Except Fault State × ω) : Prop :=
  a = b ∨ ∃ t fuel fuel' v, a = (.error (.fuelExhausted t fuel), v) ∧
    b = (.error (.fuelExhausted t fuel'), v)

theorem sameButFuel_drain (set : InstructionSet ω) (fuel fuel' : Int) (n : Nat) (s : State)
    (w : ω) :
    SameButFuel (set.drain (Limit.steps fuel).fault n s w)
      (set.drain (Limit.steps fuel').fault n s w) := by
  obtain ⟨k, le, outcome, ends⟩ | ⟨t, v, stopped⟩ := set.ends_or_stopped s w n
  · exact .inl ((ends.drain_eq le).trans (ends.drain_eq le).symm)
  · exact .inr ⟨t, fuel, fuel', v, stopped.drain_eq, stopped.drain_eq⟩

/-- What limits make of the run of a program, against the chain of its steps. -/
structure Metered (set : InstructionSet ω) (p : Program) (s : State) (w : ω) : Prop where
  yields (fuel : Int) (t : State) (v : ω) : (set.run (.steps fuel) p s).Yields w t v ↔
    ∃ k ≤ fuel.toNat, set.Steps k (s.loadExec p) w t v ∧ t.stack .exec = []
  fails (fuel : Int) (fault : Fault) (v : ω) : (set.run (.steps fuel) p s).Fails w fault v ↔
    (∃ t, set.Stopped fuel.toNat (s.loadExec p) w t v ∧ fault = .fuelExhausted t fuel) ∨
      ∃ k < fuel.toNat, ∃ t x, set.Stopped k (s.loadExec p) w t x ∧ (set.step t).Fails x fault v
  /-- Where the fuel cuts a run off, none of the steps before fails. -/
  apart (n k : Nat) (t u : State) (v x y : ω) (fault : Fault) :
    set.Stopped n (s.loadExec p) w t v → k < n → set.Stopped k (s.loadExec p) w u x →
      ¬ (set.step u).Fails x fault y
  exhausted (unfuelled : set.Unfuelled) (fuel named : Int) (t : State) (v : ω) :
    (set.run (.steps fuel) p s).Fails w (.fuelExhausted t named) v ↔
      named = fuel ∧ set.Stopped fuel.toNat (s.loadExec p) w t v
  /-- What a run comes to before its fuel is used up it comes to without a limit, and under every
  limit that is not lower. -/
  transparent (fuel : Int) : (∀ t v, ¬ set.Stopped fuel.toNat (s.loadExec p) w t v) →
    (∃ k ≤ fuel.toNat, set.Ends (s.loadExec p) w k (set.run (.steps fuel) p s w)) ∧
      ∀ limit : Limit, fuel.toNat ≤ limit.bound →
        set.run limit p s w = set.run (.steps fuel) p s w
  resumed (n m : Nat) (t : State) (v : ω) : set.Stopped n (s.loadExec p) w t v →
    SameButFuel (set.run (.steps m) [] t v) (set.run (.steps (n + m)) p s w)
  negative (fuel : Int) : fuel ≤ 0 →
    SameButFuel (set.run (.steps fuel) p s w) (set.run (.steps 0) p s w)

theorem metered_of_valid (set : InstructionSet ω) (p : Program) (valid : set.validate p = .ok ())
    (s : State) (w : ω) : set.Metered p s w where
  yields fuel t v := by
    rw [run_of_valid valid]
    exact drain_yields_iff
  fails fuel fault v := by
    rw [run_of_valid valid]
    exact drain_fails_iff
  apart n k t u v x y fault stopped lt before failed :=
    stopped.not_ends lt (.failed before.1 before.2 failed)
  exhausted unfuelled fuel named t v := by
    rw [run_of_valid valid, drain_fails_iff]
    constructor
    · rintro (⟨u, stopped, same⟩ | ⟨k, -, u, x, -, failed⟩)
      · cases same
        exact ⟨rfl, stopped⟩
      · exact absurd failed (step_not_exhausted unfuelled)
    · rintro ⟨rfl, stopped⟩
      exact .inl ⟨t, stopped, rfl⟩
  transparent fuel notStopped := by
    obtain ⟨k, le, outcome, ends⟩ | ⟨t, v, stopped⟩ :=
      set.ends_or_stopped (s.loadExec p) w fuel.toNat
    · have reached (limit : Limit) (le : k ≤ limit.bound) : set.run limit p s w = outcome := by
        rw [run_of_valid valid]
        exact ends.drain_eq le
      rw [reached (.steps fuel) le]
      exact ⟨⟨k, le, ends⟩, fun limit enough => reached limit (Nat.le_trans le enough)⟩
    · exact absurd stopped (notStopped t v)
  resumed n m t v stopped := by
    have whole : set.run (.steps (n + m)) p s w =
        set.drain (Limit.steps (n + m)).fault m t v := by
      rw [run_of_valid valid, ← stopped.1.drain_eq]
      rfl
    have rest : set.run (.steps m) [] t v = set.drain (Limit.steps m).fault m t v := by
      rw [run_of_valid rfl, State.loadExec_nil stopped.2]
      rfl
    rw [whole, rest]
    exact sameButFuel_drain set m (n + m) m t v
  negative fuel nonpos := by
    have bound : (Limit.steps fuel).bound = 0 := Int.toNat_of_nonpos nonpos
    rw [run_of_valid valid, run_of_valid valid, bound]
    exact sameButFuel_drain set fuel 0 0 (s.loadExec p) w

end InstructionSet

/-- Once the noise is drawn, this program repeats itself for ever. -/
def unending : Program :=
  [.instruction Filter.noise.name, .instruction InstructionSet.dupName,
   .block [.instruction InstructionSet.dupName]]

theorem metered_unending :
    (InstructionSet.pictures 0 : InstructionSet Script).validate unending = .ok () ∧
      (InstructionSet.pictures 0).Metered unending
        ((∅ : State).loadImages [.image (.ofFn 2 2 (.channels 3) fun _ _ _ => 7)])
        (⟨[5, 8]⟩ : Script) := by
  have valid : (InstructionSet.pictures 0 : InstructionSet Script).validate unending = .ok () := by
    rw [InstructionSet.validate_eq_ok_iff]
    decide
  exact ⟨valid, InstructionSet.metered_of_valid _ _ valid _ _⟩

end PictureEvolution
