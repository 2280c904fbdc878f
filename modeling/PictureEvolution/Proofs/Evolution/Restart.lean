import PictureEvolution.Proofs.Evolution.Attempts

/-!
# Restarts

To begin an evolution that goes on anew replaces its population and its generation, and nothing
else: its histories go on. From there it takes the steps of a fresh evolution, so it comes to the
same outcome, but for the histories, which hold what was noted before the restart as well. An
evolution that has ended gets a new population and stays ended.
-/

namespace PictureEvolution

def Evolution.renew (e : Evolution) (population : List Individual) : Evolution :=
  { e with population, generation := 0, started := true }

/-- The histories of an evolution come after those of a past one. -/
def Evolution.after (past e : Evolution) : Evolution :=
  { e with
    bestHistory := past.bestHistory ++ e.bestHistory
    meanHistory := past.meanHistory ++ e.meanHistory }

theorem Evolution.renew_eq_after (e : Evolution) (running : e.status = .running)
    (population : List Individual) :
    e.renew population = e.after (Evolution.fresh.renew population) := by
  simp [renew, after, fresh, running]

def Outcome.after (past : Evolution) (o : Outcome) : Outcome :=
  { o with
    bestHistory := past.bestHistory ++ o.bestHistory
    meanHistory := past.meanHistory ++ o.meanHistory }

theorem Evolution.outcome_after (past e : Evolution) :
    (past.after e).outcome = e.outcome.map (Outcome.after past) := by
  unfold outcome
  show (Population.best e.population >>= _) = _
  cases Population.best e.population with
  | error fault => rfl
  | ok best => rfl

namespace Progress

variable {ω α : Type} {past : Evolution}

/-- The same source, and the same evolution after a past one. -/
def Continues (past : Evolution) (st st' : Evolution × ω) : Prop :=
  st = (past.after st'.1, st'.2)

theorem continues_perform (t : Task ω α) :
    Task.Agree (Continues past) (perform t) (perform t) := by
  rintro _ ⟨e, w⟩ rfl
  exact ⟨rfl, rfl⟩

theorem continues_change {f : Evolution → Evolution}
    (later : ∀ e, f (past.after e) = past.after (f e)) :
    Task.Agree (Continues past) (change f : Progress ω Unit) (change f) := by
  rintro _ ⟨e, w⟩ rfl
  exact ⟨rfl, Prod.ext (later e) rfl⟩

theorem continues_ofExcept (r : Except Fault α) :
    Task.Agree (Continues past) (ofExcept r : Progress ω α) (ofExcept r) := by
  cases r with
  | error fault => exact .throw _
  | ok a => exact .pure a

/-- What looks at the evolution sees different histories. -/
theorem continues_evolution_bind {f f' : Evolution → Progress ω α}
    (h : ∀ e, Task.Agree (Continues past) (f (past.after e)) (f' e)) :
    Task.Agree (Continues past) (evolution >>= f) (evolution >>= f') := by
  rintro _ ⟨e, w⟩ rfl
  exact h e _ (e, w) rfl

end Progress

namespace Experiment

open Progress

variable {ω : Type} [Source ω] (x : Experiment ω) (past : Evolution)

theorem continues_start : Task.Agree (Continues past) x.start x.start :=
  (continues_perform _).bind fun _ => continues_change fun _ => rfl

omit [Source ω] in
theorem continues_note : Task.Agree (Continues past) x.note x.note := by
  refine continues_evolution_bind fun e => ?_
  refine (continues_ofExcept _).bind fun best => (continues_ofExcept _).bind fun mean => ?_
  refine (continues_change fun e => ?_).bind fun _ => continues_perform _
  simp [Evolution.after]

theorem continues_advance : Task.Agree (Continues past) x.advance x.advance := by
  refine continues_evolution_bind fun e => ?_
  show Task.Agree _ (if e.population.any (·.total.isZero) then _
    else if x.config.maxGenerations ≤ e.generation then _ else _) _
  split
  · exact continues_change fun _ => rfl
  · split
    · exact continues_change fun _ => rfl
    · exact (continues_perform _).bind fun _ => continues_change fun _ => rfl

theorem continues_begun : Task.Agree (Continues past) x.begun x.begun := by
  refine continues_evolution_bind fun e => ?_
  show Task.Agree _ (unless e.started do x.start) (unless e.started do x.start)
  split
  · exact .pure _
  · exact continues_start x past

theorem continues_step : Task.Agree (Continues past) x.step x.step := by
  rintro _ ⟨e, w⟩ rfl
  by_cases running : e.status = .running
  · unfold Task.AgreeAt
    rw [step_of_running running, step_of_running (show (past.after e).status = _ from running)]
    refine ((continues_begun x past).bind fun _ => ?_) _ (e, w) rfl
    refine (continues_note x past).bind fun _ => (continues_advance x past).bind fun _ => ?_
    exact continues_evolution_bind fun e => .pure e.status
  · unfold Task.AgreeAt
    rw [step_of_ended running, step_of_ended (show (past.after e).status ≠ _ from running)]
    exact ⟨rfl, rfl⟩

theorem continues_stepUntilEnd (count : Nat) :
    Task.Agree (Continues past) (x.stepUntilEnd count) (x.stepUntilEnd count) := by
  induction count with
  | zero => exact .pure _
  | succ count ih =>
    refine (continues_step x past).bind fun status => ?_
    split
    · exact ih
    · exact .pure _

/-- The run of an evolution after a past one is its own run with longer histories. -/
theorem run_after (e : Evolution) (w : ω) :
    (x.run (past.after e, w)).1 = (x.run (e, w)).1.map (Outcome.after past) ∧
      (x.run (past.after e, w)).2.2 = (x.run (e, w)).2.2 := by
  unfold run
  have agree := continues_stepUntilEnd x past (x.config.maxGenerations.toNat + 1) _ (e, w) rfl
  rcases Task.yields_or_fails (x.stepUntilEnd (x.config.maxGenerations.toNat + 1))
    (past.after e, w) with ⟨_, st, ends⟩ | ⟨fault, st, fails⟩
  · obtain ⟨⟨e', w'⟩, ends', rfl⟩ := agree.yields ends
    rw [Task.bind_of_yields ends, Task.bind_of_yields ends', evolution_bind, evolution_bind,
      Evolution.outcome_after]
    cases e'.outcome with
    | error fault => exact ⟨rfl, rfl⟩
    | ok o => exact ⟨rfl, rfl⟩
  · obtain ⟨⟨e', w'⟩, fails', rfl⟩ := agree.fails fails
    rw [show (x.stepUntilEnd _ >>= _) (past.after e, w) = _ from Task.bind_of_fails fails,
      show (x.stepUntilEnd _ >>= _) (e, w) = _ from Task.bind_of_fails fails']
    exact ⟨rfl, rfl⟩

variable {x past}

section Idle

variable {e : Evolution} {w : ω} (running : e.status = .running) (idle : e.started = false)

include running idle

/-- To step for the first time is to start and to step. -/
theorem step_of_idle : x.step (e, w) = (x.start >>= fun _ => x.step) (e, w) := by
  rw [step_of_running running]
  rcases Task.yields_or_fails x.start (e, w) with ⟨_, ⟨e₁, w₁⟩, starts⟩ | ⟨fault, ⟨e₁, w₁⟩, fails⟩
  · have begins : Task.Yields x.begun (e, w) () (e₁, w₁) := yields_begun.mpr (.inr ⟨idle, starts⟩)
    obtain ⟨started, goes⟩ : e₁.started = true ∧ e₁.status = .running := by
      obtain ⟨population, -, rfl⟩ := yields_start.mp starts
      exact ⟨rfl, running⟩
    -- the step after the start finds nothing to begin
    have still : Task.Yields x.begun (e₁, w₁) () (e₁, w₁) :=
      yields_begun.mpr (.inl ⟨started, rfl, rfl⟩)
    rw [Task.bind_of_yields begins, Task.bind_of_yields starts, step_of_running goes,
      Task.bind_of_yields still]
  · have fails' : Task.Fails x.begun (e, w) fault (e₁, w₁) := by
      unfold begun
      rw [fails_evolution_bind, idle]
      exact fails
    exact (Task.bind_of_fails fails').trans (Task.bind_of_fails fails).symm

theorem run_of_idle : x.run (e, w) = (x.start >>= fun _ => x.run) (e, w) := by
  have steps : x.stepUntilEnd (x.config.maxGenerations.toNat + 1) (e, w) =
      (x.start >>= fun _ => x.stepUntilEnd (x.config.maxGenerations.toNat + 1)) (e, w) := by
    unfold stepUntilEnd
    rw [← bind_assoc]
    exact Task.bind_of_eq (step_of_idle running idle) _
  unfold run
  exact (Task.bind_of_eq steps _).trans (by rw [bind_assoc])

end Idle

/-- Begun anew and run, an evolution that goes on comes to the outcome of a fresh one from the same
source, its histories after the old ones, or to the same fault. One that has ended takes no step: it
gets a first population at generation 0 and keeps its status and its histories. -/
theorem run_of_restarted (x : Experiment ω) (e : Evolution) (w : ω) :
    let restarted := (x.start >>= fun _ => x.run : Progress ω Outcome) (e, w)
    (e.status = .running →
      restarted.1 = (x.run (.fresh, w)).1.map (Outcome.after e) ∧
      restarted.2.2 = (x.run (.fresh, w)).2.2) ∧
    (e.status ≠ .running →
      restarted.1 = ((x.firstPopulation w).1.bind fun population =>
        (e.renew population).outcome) ∧
      restarted.2.2 = (x.firstPopulation w).2) := by
  -- a fresh run starts too, and both starts draw the same first population or fail alike
  rw [run_of_idle (e := .fresh) rfl rfl]
  rcases x.firstPopulation.yields_or_fails w with ⟨population, w', built⟩ | ⟨fault, w', fails⟩
  · have starts (e : Evolution) : Task.Yields x.start (e, w) () (e.renew population, w') :=
      yields_start.mpr ⟨population, built, rfl⟩
    rw [Task.bind_of_yields (starts e), Task.bind_of_yields (starts .fresh),
      show x.firstPopulation w = (.ok population, w') from built]
    refine ⟨fun running => ?_, fun ended => ?_⟩
    · rw [e.renew_eq_after running]
      exact run_after x e _ w'
    · rw [run_of_ended (e := e.renew population) ended]
      exact ⟨rfl, rfl⟩
  · have refuses (e : Evolution) : Task.Fails (x.start >>= fun _ => x.run) (e, w) fault (e, w') :=
      Task.bind_of_fails (Task.bind_of_fails (fails_perform fails))
    rw [show (x.start >>= fun _ => x.run) (e, w) = _ from refuses e,
      show (x.start >>= fun _ => x.run) (.fresh, w) = _ from refuses .fresh,
      show x.firstPopulation w = _ from fails]
    exact ⟨fun _ => ⟨rfl, rfl⟩, fun _ => ⟨rfl, rfl⟩⟩

/-- One step is taken before the first restart, the last one before the second. -/
theorem trial_restarted :
    let going := ((trial 7).attempts ⟨[]⟩ 1).1
    let ended := ((trial 7).attempts ⟨[]⟩ 2).1
    let restarted (e : Evolution) := (((trial 7).start >>= fun _ => (trial 7).run) (e, ⟨[]⟩)).1
    going.status = .running ∧ going.bestHistory.length = 1 ∧ (restarted going).isOk = true ∧
      restarted going = ((trial 7).run (.fresh, ⟨[]⟩)).1.map (Outcome.after going) ∧
      ended.status = .exhausted ∧ ended.generation = 1 ∧ (restarted ended).isOk = true ∧
      restarted ended = ((trial 7).firstPopulation ⟨[]⟩).1.bind fun population =>
        (ended.renew population).outcome := by
  intro going ended restarted
  have goes : going.status = .running := by decide +kernel
  have exhausted : ended.status = .exhausted := by decide +kernel
  have first := (run_of_restarted (trial 7) going ⟨[]⟩).1 goes
  have second := (run_of_restarted (trial 7) ended ⟨[]⟩).2 (by rw [exhausted]; decide)
  exact ⟨goes, by decide +kernel, by decide +kernel, first.1, exhausted, by decide +kernel,
    by decide +kernel, second.1⟩

/-- A restart is not a fresh evolution, whether the evolution goes on or has ended: the histories
hold more, and what has ended takes no step. -/
theorem not_fresh_of_restarted :
    (¬ ∀ (x : Experiment Script) (w : Script) (e : Evolution) (w' : Script),
      x.config.validate = .ok () → x.Reached w (e, w') → e.status = .running →
      ((x.start >>= fun _ => x.run) (e, w')).1 = (x.run (.fresh, w')).1) ∧
    ¬ ∀ (x : Experiment Script) (w : Script) (e : Evolution) (w' : Script),
      x.config.validate = .ok () → x.Reached w (e, w') → e.status ≠ .running →
      ((x.start >>= fun _ => x.run) (e, w')).1 = (x.run (.fresh, w')).1 := by
  constructor
  · intro claimed
    have same := claimed (trial 7) ⟨[]⟩ _ _ rfl (.step .fresh) (by decide +kernel)
    have same := congrArg (·.toOption.map (·.bestHistory.length)) same
    revert same
    decide +kernel
  · intro claimed
    have same := claimed (trial 7) ⟨[]⟩ _ _ rfl (.step (.step .fresh)) (by decide +kernel)
    have same := congrArg (·.toOption.map (·.generation)) same
    revert same
    decide +kernel

end Experiment

end PictureEvolution
