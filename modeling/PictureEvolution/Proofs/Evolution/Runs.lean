import PictureEvolution.Proofs.Evolution.Agreement

/-!
# Runs of steps

A whole evolution is so many steps, as those after the end change nothing. Two evolutions agree as
long as their reports do.
-/

namespace PictureEvolution.Experiment

open Progress

variable {ω γ : Type} [Source ω] [Source γ]

/-- So many steps, as long as none fails. -/
def steps (x : Experiment ω) : (count : Nat) → Progress ω Unit
  | 0 => pure ()
  | count + 1 => do
    steps x count
    discard x.step

variable {x : Experiment ω} {e : Evolution} {w : ω} {count : Nat}

/-- The first of some steps can be taken apart as well as the last. -/
theorem steps_succ (x : Experiment ω) (count : Nat) :
    x.steps (count + 1) = x.step >>= fun _ => x.steps count := by
  induction count with
  | zero =>
    show (pure () >>= fun _ => discard x.step) = _
    rw [pure_bind, Task.discard_eq]
    rfl
  | succ count ih =>
    calc x.steps (count + 1 + 1) = x.steps (count + 1) >>= fun _ => discard x.step := rfl
      _ = (x.step >>= fun _ => x.steps count) >>= fun _ => discard x.step := by rw [ih]
      _ = x.step >>= fun _ => x.steps (count + 1) := by
        rw [bind_assoc]
        rfl

theorem steps_of_ended (ended : e.status ≠ .running) (count : Nat) :
    Task.Yields (x.steps count) (e, w) () (e, w) := by
  induction count with
  | zero => rfl
  | succ count ih =>
    refine Task.yields_bind.mpr ⟨(), (e, w), ih, ?_⟩
    exact Task.yields_bind.mpr ⟨e.status, (e, w), step_of_ended ended, rfl⟩

theorem status_of_step {status : Status} {st : Evolution × ω}
    (h : Task.Yields x.step (e, w) status st) : status = st.1.status := by
  by_cases running : e.status = .running
  · obtain ⟨e₁, w₁, e₂, w₂, -, -, -, same⟩ := (yields_step_of_running running).mp h
    exact same
  · rw [Task.Yields, step_of_ended running] at h
    cases h
    rfl

theorem status_of_begun {st : Evolution × ω} (h : Task.Yields x.begun (e, w) () st) :
    st.1.status = e.status := by
  rcases yields_begun.mp h with ⟨-, same, -⟩ | ⟨-, starts⟩
  · rw [same]
  · obtain ⟨population, -, same⟩ := yields_start.mp starts
    rw [same]

/-- Stepping until the end is stepping on, since the end stays. -/
theorem stepUntilEnd_eq_steps (x : Experiment ω) (count : Nat) :
    x.stepUntilEnd count = x.steps count := by
  induction count with
  | zero => rfl
  | succ count ih =>
    rw [steps_succ, stepUntilEnd]
    funext st
    rcases Task.yields_or_fails x.step st with ⟨status, st', taken⟩ | ⟨fault, st', failed⟩
    · rw [Task.bind_of_yields taken, Task.bind_of_yields taken, ih]
      split
      · rfl
      next ended =>
        rw [status_of_step taken] at ended
        exact (steps_of_ended ended count).symm
    · rw [show (x.step >>= _) st = (.error fault, st') from Task.bind_of_fails failed]
      exact (Task.bind_of_fails failed).symm

/-- The run of an evolution that has ended takes no step. -/
theorem run_of_ended (ended : e.status ≠ .running) :
    x.run (e, w) = (e.outcome, (e, w)) := by
  have still := steps_of_ended (x := x) (w := w) ended (x.config.maxGenerations.toNat + 1)
  rw [← stepUntilEnd_eq_steps] at still
  unfold run
  rw [Task.bind_of_yields still, evolution_bind]
  cases e.outcome with
  | error fault => rfl
  | ok o => rfl

/-- After some steps the next one reports the population of this evolution, from this state. -/
def ReportsAt (x : Experiment ω) (st : Evolution × ω) (count : Nat) (e₁ : Evolution) (w₁ : ω) :
    Prop :=
  ∃ e w, Task.Yields (x.steps count) st () (e, w) ∧ e.status = .running ∧
    Task.Yields x.begun (e, w) () (e₁, w₁)

omit [Source γ] in
/-- What holds at the beginning and after each step that succeeds holds after any number of them. -/
theorem holds_of_steps {I : Nat → Evolution → ω → Prop} {w w' : ω} (begins : I 0 .fresh w)
    (next : ∀ count e w status e' w', I count e w → Task.Yields x.step (e, w) status (e', w') →
      I (count + 1) e' w')
    (h : Task.Yields (x.steps count) (.fresh, w) () (e, w')) : I count e w' := by
  induction count generalizing e w' with
  | zero =>
    cases h
    exact begins
  | succ count ih =>
    obtain ⟨_, ⟨e₁, w₁⟩, before, h⟩ := Task.yields_bind.mp h
    obtain ⟨status, ⟨e₂, w₂⟩, taken, h⟩ := Task.yields_bind.mp h
    cases h
    exact next count _ _ _ _ _ (ih before) taken

omit [Source γ] in
theorem reached_of_steps {w w' : ω} (h : Task.Yields (x.steps count) (.fresh, w) () (e, w')) :
    x.Reached w (e, w') := by
  refine holds_of_steps (I := fun _ e w' => x.Reached w (e, w')) .fresh ?_ h
  intro _ _ _ _ _ _ reached taken
  exact taken.snd ▸ reached.step

omit [Source γ] in
theorem ReportsAt.reached {e₁ : Evolution} {w₁ : ω} (h : x.ReportsAt (.fresh, w) count e₁ w₁) :
    x.Reached w (e₁, w₁) := by
  obtain ⟨e, w', taken, running, begins⟩ := h
  exact (reached_of_steps taken).begun begins

section Agree

variable {R : ω → γ → Prop} (answers : Source.Agree R) {y : Experiment γ}
  (settings : x.config = y.config) (evaluations : ∀ i, Task.Agree R (x.evaluate i) (y.evaluate i))

include answers settings evaluations

/-- Two evolutions take the same steps as long as their reports agree where they are made. -/
theorem agreeAt_steps {st : Evolution × ω} {st' : Evolution × γ} (related : Along R st st')
    (reports : ∀ j < count, ∀ e₁ w₁ g₁, x.ReportsAt st j e₁ w₁ → R w₁ g₁ →
      Task.AgreeAt R (x.report e₁.population e₁.generation)
        (y.report e₁.population e₁.generation) w₁ g₁) :
    Task.AgreeAt (Along R) (x.steps count) (y.steps count) st st' := by
  induction count with
  | zero => exact ⟨rfl, related⟩
  | succ count ih =>
    apply (ih fun j lt => reports j (Nat.lt_succ_of_lt lt)).bind
    rintro ⟨⟩ ⟨e, w⟩ ⟨_, g⟩ taken ⟨rfl, next⟩
    apply (agreeAt_step answers settings evaluations next ?_).bind fun _ _ _ _ after => ⟨rfl, after⟩
    intro running e₁ w₁ g₁ begins related₁
    exact reports count (Nat.lt_succ_self count) e₁ w₁ g₁ ⟨e, w, taken, running, begins⟩ related₁

theorem agree_steps (reports : ∀ population generation,
      Task.Agree R (x.report population generation) (y.report population generation))
    (count : Nat) : Task.Agree (Along R) (x.steps count) (y.steps count) :=
  fun _ _ related => agreeAt_steps answers settings evaluations related
    fun _ _ _ w₁ g₁ _ next => reports _ _ w₁ g₁ next

/-- Whole evolutions have the same result when their reports agree where they are made. -/
theorem agreeAt_evolve {w : ω} {g : γ} (related : R w g)
    (reports : ∀ j e₁ w₁ g₁, x.ReportsAt (.fresh, w) j e₁ w₁ → R w₁ g₁ →
      Task.AgreeAt R (x.report e₁.population e₁.generation)
        (y.report e₁.population e₁.generation) w₁ g₁) :
    Task.AgreeAt R x.evolve y.evolve w g := by
  unfold evolve Task.AgreeAt
  rw [settings]
  cases y.config.validate with
  | error fault => exact ⟨rfl, related⟩
  | ok u =>
    have run : Task.AgreeAt (Along R) x.run y.run (.fresh, w) (.fresh, g) := by
      unfold run
      rw [stepUntilEnd_eq_steps, stepUntilEnd_eq_steps, settings]
      have starts : Along R ((.fresh, w) : Evolution × ω) ((.fresh, g) : Evolution × γ) :=
        ⟨rfl, related⟩
      apply (agreeAt_steps answers settings evaluations starts fun j _ => reports j).bind
      rintro ⟨⟩ st st' - next
      exact (agree_evolution.bind fun _ => agree_ofExcept _) st st' next
    obtain ⟨same, -, next⟩ := run
    exact ⟨same, next⟩

end Agree

end PictureEvolution.Experiment
