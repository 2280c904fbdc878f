import PictureEvolution.Proofs.Evolution.Accounting

/-!
# The outcome of a whole evolution

An evolution is given one step more than there are generations after the first, and that is enough:
it always comes to its end. So its outcome speaks of the population that was reported last, and its
histories have one place for each report.
-/

namespace PictureEvolution

structure Outcome.Accounts (o : Outcome) (reports : List (List Individual × Nat)) : Prop where
  generations : reports.map Prod.snd = List.range (o.generation + 1)
  last : reports.getLast? = some (o.population, o.generation)
  best : Population.best o.population = .ok o.best
  bests : o.bestHistory.map .ok = reports.map fun r => (Population.best r.1).map (·.total)
  means : o.meanHistory.map .ok = reports.map fun r => Population.meanTotal r.1
  ended : o.status = .success ∨ o.status = .exhausted
  success : o.status = .success ↔ Population.Solved o.population

theorem Evolution.of_outcome {e : Evolution} {o : Outcome} (h : e.outcome = .ok o) :
    ∃ best, Population.best e.population = .ok best ∧
      o = ⟨e.status, e.generation, best, e.population, e.bestHistory, e.meanHistory⟩ := by
  unfold outcome at h
  cases least : Population.best e.population with
  | error fault =>
    rw [least] at h
    cases h
  | ok best =>
    rw [least] at h
    cases h
    exact ⟨best, rfl, rfl⟩

theorem Accounted.accounts {ω : Type} {c : Config} {count : Nat} {e : Evolution} {log : Observed ω}
    {o : Outcome} (h : Accounted c count e log) (ended : e.status ≠ .running)
    (outcome : e.outcome = .ok o) : o.Accounts log.reports := by
  obtain ⟨best, least, rfl⟩ := Evolution.of_outcome outcome
  obtain ⟨earlier, reports, length, -⟩ := h.ended ended
  have size : log.reports.length = e.generation + 1 := by
    rw [reports, List.length_append, length, List.length_singleton]
  refine ⟨?_, ?_, least, h.tallied.bests, h.tallied.means, ?_, h.success, fun solved => ?_⟩
  · rw [h.tallied.generations, size]
  · rw [reports, List.getLast?_concat]
  · cases status : e.status with
    | running => exact absurd status ended
    | success => exact .inl rfl
    | exhausted => exact .inr rfl
  · cases status : e.status with
    | running => exact absurd status ended
    | success => rfl
    | exhausted => exact absurd solved (h.exhausted status).1

namespace Experiment

open Progress

variable {ω : Type} [Source ω] {x : Experiment ω} {w w' : ω} {o : Outcome}

/-- A whole evolution is so many steps, and what there is to say of where they lead. -/
theorem yields_evolve (h : x.evolve.Yields w o w') :
    x.config.validate = .ok () ∧ ∃ e,
      Task.Yields (x.steps (x.config.maxGenerations.toNat + 1)) (.fresh, w) () (e, w') ∧
        e.outcome = .ok o := by
  unfold evolve at h
  cases valid : x.config.validate with
  | error fault =>
    rw [valid] at h
    exact absurd h Task.not_yields_throw
  | ok u =>
    rw [valid] at h
    have ran : ((x.run (.fresh, w)).1, (x.run (.fresh, w)).2.2) = (.ok o, w') := h
    obtain ⟨result, source⟩ := Prod.mk.inj ran
    have runs : Task.Yields x.run (.fresh, w) o ((x.run (.fresh, w)).2.1, w') :=
      Prod.ext result (Prod.ext rfl source)
    unfold run at runs
    rw [stepUntilEnd_eq_steps] at runs
    obtain ⟨_, ⟨e, w₁⟩, taken, runs⟩ := Task.yields_bind.mp runs
    rw [yields_evolution_bind] at runs
    obtain ⟨outcome, same⟩ := yields_ofExcept.mp runs
    cases same
    exact ⟨rfl, _, taken, outcome⟩

/-- The observed evolution comes to the same outcome and leaves the same source. -/
theorem observed_evolve (h : x.evolve.Yields w o w') :
    ∃ log, x.observed.evolve.Yields (.of w) o log ∧ log.source = w' := by
  obtain ⟨same, source⟩ := agreeAt_evolve (x := x.observed) Observed.agree_source rfl
    (agree_observed_evaluate x) (w := .of w) (g := w) rfl
    fun _ _ _ _ _ related => agree_observed_report x _ _ _ _ related
  refine ⟨(x.observed.evolve (.of w)).2, Prod.ext ?_ rfl, source.trans h.snd⟩
  exact same.trans (congrArg Prod.fst h)

/-- The steps of an evolution are enough: it ends, and its outcome fits to its reports. -/
theorem accounts_evolve {log : Observed ω} (h : x.observed.evolve.Yields (.of w) o log) :
    o.Accounts log.reports := by
  obtain ⟨valid, e, taken, outcome⟩ := yields_evolve h
  have accounted : Accounted x.config (x.config.maxGenerations.toNat + 1) e log :=
    accounted_steps valid taken
  refine accounted.accounts (fun running => ?_) outcome
  obtain ⟨-, -, limit, -⟩ := accounted.running running
  omega

section Reports

variable {e e' : Evolution} {log log' : Observed ω}

theorem reports_begun (h : Task.Yields x.observed.begun (e, log) () (e', log')) :
    log'.reports = log.reports := by
  rcases yields_begun.mp h with ⟨-, -, rfl⟩ | ⟨-, starts⟩
  · rfl
  · obtain ⟨population, built, -⟩ := yields_start.mp starts
    obtain ⟨-, is, -, logged⟩ := observed_firstPopulation_log built
    rw [logged]

omit [Source ω] in
theorem reports_note (h : Task.Yields x.observed.note (e, log) () (e', log')) :
    log'.reports = log.reports ++ [(e.population, e.generation)] := by
  obtain ⟨best, mean, -, -, reported, -⟩ := yields_note.mp h
  rw [observed_report_log reported]

theorem reports_advance (h : Task.Yields x.observed.advance (e, log) () (e', log')) :
    log'.reports = log.reports := by
  rcases yields_advance.mp h with ⟨-, -, rfl⟩ | ⟨-, -, -, rfl⟩ | ⟨-, -, population, built, -⟩
  · rfl
  · rfl
  · obtain ⟨-, is, -, logged⟩ := observed_nextPopulation_log built
    rw [logged]

/-- Every population that was reported had been reached. -/
theorem reached_of_reported {count : Nat}
    (h : Task.Yields (x.observed.steps count) (.fresh, .of w) () (e, log)) :
    ∀ r ∈ log.reports, ∃ e' log', x.observed.Reached (.of w) (e', log') ∧ e'.population = r.1 := by
  -- the state after the steps is itself one of those that were reached
  let I (_ : Nat) (e : Evolution) (log : Observed ω) : Prop :=
    x.observed.Reached (.of w) (e, log) ∧
      ∀ r ∈ log.reports, ∃ e' log', x.observed.Reached (.of w) (e', log') ∧ e'.population = r.1
  have begins : I 0 .fresh (.of w) := ⟨.fresh, nofun⟩
  refine (holds_of_steps (I := I) begins ?_ h).2
  intro _ e log _ e₃ log₃ ⟨reached, earlier⟩ taken
  refine ⟨taken.snd ▸ reached.step, ?_⟩
  by_cases running : e.status = .running
  · obtain ⟨e₁, log₁, e₂, log₂, begins, notes, advances, -⟩ :=
      (yields_step_of_running running).mp taken
    intro r hr
    rw [reports_advance advances, reports_note notes, reports_begun begins, List.mem_append,
      List.mem_singleton] at hr
    rcases hr with before | rfl
    · exact earlier r before
    · exact ⟨e₁, log₁, reached.begun begins, rfl⟩
  · rw [Task.Yields, step_of_ended running] at taken
    cases taken
    exact earlier

end Reports

end Experiment

end PictureEvolution
