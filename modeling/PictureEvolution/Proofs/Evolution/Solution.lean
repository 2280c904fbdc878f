import PictureEvolution.Proofs.Evolution.Attempts
import PictureEvolution.Proofs.Score

/-!
# The best of a success

A step ends an evolution with success when anybody in the population has no error; the best of the
population is looked for by comparing totals. The two agree unless the total of the first individual
is not a number: nobody is better than that one.
-/

namespace PictureEvolution

/-- Errors none of which is below zero, and their sum. -/
structure Individual.Sound (i : Individual) : Prop where
  errors : ∀ e ∈ i.errors, e.isNegative = false
  total : Score.sum i.errors = .ok i.total

theorem Individual.Sound.total_isNegative {i : Individual} (h : i.Sound) :
    i.total.isNegative = false :=
  Score.isNegative_sum h.errors h.total

theorem Individual.of_withErrors {i j : Individual} {errors : List Score}
    (h : i.withErrors errors = .ok j) :
    j.program = i.program ∧ j.errors = errors ∧ Score.sum errors = .ok j.total := by
  unfold withErrors at h
  cases summed : Score.sum errors with
  | error fault =>
    rw [summed] at h
    cases h
  | ok total =>
    rw [summed] at h
    cases h
    exact ⟨rfl, rfl, rfl⟩

theorem Individual.gives_withErrors {ω : Type} (i : Individual) {errors : List Score}
    (sound : ∀ e ∈ errors, e.isNegative = false) :
    Task.Gives Individual.Sound (Task.ofScore (i.withErrors errors) : Task ω Individual) := by
  refine .ofScore fun j made => ?_
  obtain ⟨-, rfl, summed⟩ := of_withErrors made
  exact ⟨sound, summed⟩

/-- In a solved population the best individual is a solution, except when the total of the first one
is not a number. -/
theorem Population.best_of_solved {population : List Individual} (solved : Solved population)
    (sound : ∀ i ∈ population, i.Sound) :
    ∃ first best, population.head? = some first ∧ Population.best population = .ok best ∧
      (best.total.isZero = true ↔ first.total.isNaN = false) := by
  cases population with
  | nil =>
    obtain ⟨i, hi, -⟩ := solved
    cases hi
  | cons first rest =>
    refine ⟨first, Score.leastOn (·.total) first rest, rfl, rfl, ?_⟩
    exact Score.leastOn_isZero_iff (fun i hi => (sound i hi).total_isNegative) solved

theorem Evolution.outcome_of_best {e : Evolution} {best : Individual}
    (h : Population.best e.population = .ok best) :
    e.outcome = .ok ⟨e.status, e.generation, best, e.population, e.bestHistory, e.meanHistory⟩ := by
  unfold outcome
  rw [h]
  rfl

namespace Experiment

variable {ω : Type} [Source ω] {x : Experiment ω} {w w' : ω} {e : Evolution} {st : Evolution × ω}

/-- However an evolution has been begun and stepped, when a step ends it with success, its outcome
is from then on the same: the last noted total is that of the best individual, and this is zero
exactly when the total of the first individual is a number. -/
theorem outcome_of_success (x : Experiment ω) (sound : ∀ i, (x.evaluate i).Gives Individual.Sound)
    (reached : x.Reached w st) (running : st.1.status = .running)
    (ends : Task.Yields x.step st .success (e, w')) :
    ∃ o first, e.outcome = .ok o ∧ x.run (e, w') = (.ok o, (e, w')) ∧ o.status = .success ∧
      o.population.head? = some first ∧ o.bestHistory.getLast? = some o.best.total ∧
      (o.best.total.isZero = true ↔ first.total.isNaN = false) := by
  obtain ⟨e₀, w₀⟩ := st
  have success : e.status = .success := (status_of_step ends).symm
  obtain ⟨e₁, w₁, best, mean, begins, least, outcome⟩ := yields_step_cases running ends
  have population : ∀ i ∈ e₁.population, i.Sound := (reached.begun begins).population sound
  rcases outcome with ⟨rfl, solved⟩ | rfl | ⟨next, w₂, w₃, -, rfl⟩
  · obtain ⟨first, best', begin, found, zero⟩ := Population.best_of_solved solved population
    cases found.symm.trans least
    have made := Evolution.outcome_of_best least
      (e := { noted e₁ best mean with status := .success })
    refine ⟨_, first, made, ?_, rfl, begin, ?_, zero⟩
    · rw [run_of_ended (by rw [success]; decide), made]
    · exact List.getLast?_concat
  · cases success
  · have goes : e₁.status = .running := (status_of_begun begins).trans running
    cases goes.symm.trans success

/-- The trial in which every individual is a solution ends at once. -/
theorem trial_success :
    let st := ((trial 0).step (.fresh, ⟨[]⟩)).2
    ∃ o first, st.1.outcome = .ok o ∧ o.status = .success ∧ o.population.head? = some first ∧
      o.bestHistory.getLast? = some o.best.total ∧
      (o.best.total.isZero = true ↔ first.total.isNaN = false) := by
  intro st
  have sound (i : Individual) : ((trial 0).evaluate i).Gives Individual.Sound :=
    .pure ⟨fun e he => by rw [List.mem_singleton.mp he]; rfl, rfl⟩
  have ends : Task.Yields (trial 0).step (.fresh, ⟨[]⟩) .success st := by
    obtain ⟨status, yields⟩ := Task.yields_of_isOk (t := (trial 0).step) (w := (.fresh, ⟨[]⟩))
      (by decide +kernel)
    have success : st.1.status = .success := by decide +kernel
    rw [← (status_of_step yields).trans success]
    exact yields
  obtain ⟨o, first, made, -, rest⟩ := outcome_of_success (trial 0) sound .fresh rfl ends
  exact ⟨o, first, made, rest⟩

/-- Programs of one element come to an error that is not a number, all others to none. -/
def overflowing : Experiment Script where
  config := { (trial 0).config with populationSize := 2, maxGenerations := 0 }
  evaluate i := Task.ofScore <|
    i.withErrors [if i.program.length = 1 then .real (0.0 / 0.0) else .int 0]
  report _ _ := pure ()

/-- The second individual of two is a solution, and the first one is taken for the best. -/
theorem success_without_solution :
    ¬ ∀ (x : Experiment Script) (w : Script) (o : Outcome) (st : Evolution × Script),
      x.config.validate = .ok () → (∀ i, (x.evaluate i).Gives Individual.Sound) →
      Task.Yields x.run (.fresh, w) o st → o.status = .success →
      o.best.total.isZero = true ∧ ∃ s, o.bestHistory.getLast? = some s ∧ s.isZero = true := by
  intro claimed
  have sound (i : Individual) : (overflowing.evaluate i).Gives Individual.Sound := by
    refine i.gives_withErrors fun e he => ?_
    rw [List.mem_singleton.mp he]
    split
    · rfl
    · rfl
  obtain ⟨o, runs⟩ := Task.yields_of_isOk (t := overflowing.run) (w := (.fresh, ⟨[0, 0, 1, 0, 0]⟩))
    (by decide +kernel)
  have seen : (overflowing.run (.fresh, ⟨[0, 0, 1, 0, 0]⟩)).1.toOption.map (fun o =>
      (o.status, o.best.total.isZero)) = some (.success, false) := by decide +kernel
  rw [show (overflowing.run _).1 = .ok o from congrArg Prod.fst runs] at seen
  obtain ⟨success, unsolved⟩ := Prod.mk.inj (Option.some.inj seen)
  have zero := (claimed overflowing _ o _ rfl sound runs success).1
  cases zero.symm.trans unsolved

end Experiment

end PictureEvolution
