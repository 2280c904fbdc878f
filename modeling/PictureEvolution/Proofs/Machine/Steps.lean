import PictureEvolution.Machine.Run
import PictureEvolution.Proofs.Machine.Task

/-!
# Steps and runs

A run is a chain of steps, each with something left to execute, and it ends when nothing is left or
when a step fails. Every start either ends within a number of steps or goes on for longer, and a
limited run follows the chain: it has the outcome of the end if the limit reaches it, and the fault
of the limit otherwise.
-/

namespace PictureEvolution.InstructionSet

variable {ω : Type}

/-- So many steps lead from one state to another, none of them on an empty exec stack. The source
that is drawn from goes along. -/
inductive Steps (set : InstructionSet ω) : Nat → State → ω → State → ω → Prop
  | refl {s w} : Steps set 0 s w s w
  | cons {n s w s' w' t v} : s.stack .exec ≠ [] → (set.step s).Yields w s' w' →
      Steps set n s' w' t v → Steps set (n + 1) s w t v

/-- The outcome to which so many steps lead: a state with nothing left to execute, or the fault of
the last step. -/
inductive Ends (set : InstructionSet ω) (s : State) (w : ω) : Nat → Except Fault State × ω → Prop
  | halted {n t v} : Steps set n s w t v → t.stack .exec = [] → Ends set s w n (.ok t, v)
  | failed {n t v fault v'} : Steps set n s w t v → t.stack .exec ≠ [] →
      (set.step t).Fails v fault v' → Ends set s w (n + 1) (.error fault, v')

variable {set : InstructionSet ω} {n m k : Nat} {s s' t u : State} {w w' v x : ω}
  {outcome : Except Fault State × ω}

theorem Steps.snoc (h : set.Steps n s w t v) (pending : t.stack .exec ≠ [])
    (last : (set.step t).Yields v u x) : set.Steps (n + 1) s w u x := by
  induction h with
  | refl => exact .cons pending last .refl
  | cons first one rest ih => exact .cons first one (ih pending last)

theorem Ends.cons (pending : s.stack .exec ≠ []) (one : (set.step s).Yields w s' w')
    (h : set.Ends s' w' n outcome) : set.Ends s w (n + 1) outcome := by
  cases h with
  | halted steps empty => exact .halted (.cons pending one steps) empty
  | failed steps pending' last => exact .failed (.cons pending one steps) pending' last

/-- Each start ends within a number of steps, or makes that many and has something left. -/
theorem ends_or_steps (set : InstructionSet ω) (s : State) (w : ω) (n : Nat) :
    (∃ k ≤ n, ∃ outcome, set.Ends s w k outcome) ∨
      ∃ t v, set.Steps n s w t v ∧ t.stack .exec ≠ [] := by
  induction n with
  | zero =>
    by_cases empty : s.stack .exec = []
    · exact .inl ⟨0, Nat.le_refl 0, _, .halted .refl empty⟩
    · exact .inr ⟨s, w, .refl, empty⟩
  | succ n ih =>
    rcases ih with ⟨k, bounded, outcome, ends⟩ | ⟨t, v, steps, pending⟩
    · exact .inl ⟨k, Nat.le_succ_of_le bounded, outcome, ends⟩
    · rcases (set.step t).yields_or_fails v with ⟨u, x, last⟩ | ⟨fault, x, last⟩
      · by_cases empty : u.stack .exec = []
        · exact .inl ⟨n + 1, Nat.le_refl _, _, .halted (steps.snoc pending last) empty⟩
        · exact .inr ⟨u, x, steps.snoc pending last, empty⟩
      · exact .inl ⟨n + 1, Nat.le_refl _, _, .failed steps pending last⟩

theorem drain_of_empty {fault : State → Fault} (h : s.stack .exec = []) :
    set.drain fault n s w = (.ok s, w) := by
  cases n <;> simp only [drain, h, List.isEmpty_nil, if_true] <;> rfl

theorem drain_of_pending {fault : State → Fault} (h : s.stack .exec ≠ []) :
    set.drain fault (n + 1) s = (set.step s >>= set.drain fault n) := by
  rw [drain, if_neg (by simpa using h)]

/-- A limited run follows a chain of steps as far as the limit reaches. -/
theorem Steps.drain_eq {fault : State → Fault} (h : set.Steps n s w t v) :
    set.drain fault (n + m) s w = set.drain fault m t v := by
  induction h with
  | refl => rw [Nat.zero_add]
  | @cons n s w s' w' t v pending one rest ih =>
    rw [Nat.add_right_comm, drain_of_pending pending, Task.bind_of_yields one, ih]

/-- A limit that reaches the end of a run does not matter. -/
theorem Ends.drain_eq {fault : State → Fault} (h : set.Ends s w k outcome) (le : k ≤ n) :
    set.drain fault n s w = outcome := by
  cases h with
  | halted steps empty =>
    obtain ⟨m, rfl⟩ := Nat.exists_eq_add_of_le le
    rw [steps.drain_eq, drain_of_empty empty]
  | @failed k t v fault v' steps pending last =>
    obtain ⟨m, rfl⟩ := Nat.exists_eq_add_of_le le
    rw [Nat.add_assoc, steps.drain_eq, Nat.add_comm 1 m, drain_of_pending pending]
    exact Task.bind_of_fails last

/-- A run that the limit does not let come to its end stops with the fault of the limit. -/
theorem Steps.drain_fails {fault : State → Fault} (h : set.Steps n s w t v)
    (pending : t.stack .exec ≠ []) : (set.drain fault n s).Fails w (fault t) v := by
  show set.drain fault (n + 0) s w = _
  rw [h.drain_eq, drain, if_neg (by simpa using pending)]
  rfl

end PictureEvolution.InstructionSet
