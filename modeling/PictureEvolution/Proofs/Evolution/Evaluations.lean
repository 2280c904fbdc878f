import PictureEvolution.Proofs.Evolution.Observed
import PictureEvolution.Proofs.Evolution.Upkeep

/-!
# The evaluations of an evolution

The log of an observed evolution tells evaluations as they were, and everybody in the population is
the result of one of them.
-/

namespace PictureEvolution.Experiment

open Progress

variable {ω : Type} {x : Experiment ω} {I : ω → Prop} {o o' : Observed ω}

/-- An entry of the log that tells what was done, from a state with a property. -/
def Made (x : Experiment ω) (I : ω → Prop) (v : Evaluation ω) : Prop :=
  I v.before ∧ x.evaluate v.given v.before = (v.result, v.after)

def TrueLog (x : Experiment ω) (I : ω → Prop) (o : Observed ω) : Prop :=
  I o.source ∧ ∀ v ∈ o.evaluations, x.Made I v

/-- The log tells where an individual comes from. -/
def Told (i : Individual) (o : Observed ω) : Prop := ∃ v ∈ o.evaluations, v.result = .ok i

theorem keeps_told (i j : Individual) : (x.observed.evaluate j).Keeps (Told i) := by
  rintro o ⟨v, hv, scored⟩
  exact ⟨v, List.mem_append_left _ hv, scored⟩

theorem told_of_results {is : List Individual} {made : List (Evaluation ω)}
    (results : made.map (·.result) = is.map .ok)
    (logged : o' = { o with source := o'.source, evaluations := o.evaluations ++ made }) :
    ∀ i ∈ is, Told i o' := by
  intro i hi
  have result : .ok i ∈ made.map (·.result) := results ▸ List.mem_map_of_mem hi
  obtain ⟨v, hv, scored⟩ := List.mem_map.mp result
  rw [logged]
  exact ⟨v, List.mem_append_right _ hv, scored⟩

/-- The log is true and tells where everybody in the population comes from. -/
structure Logged (x : Experiment ω) (I : ω → Prop) (st : Evolution × Observed ω) : Prop where
  log : x.TrueLog I st.2
  population : ∀ i ∈ st.1.population, Told i st.2

theorem Logged.perform {t : Task (Observed ω) (List Individual)} {e : Evolution}
    (h : x.Logged I (e, o)) (log : t.Keeps (x.TrueLog I)) (told : ∀ i, t.Keeps (Told i)) :
    x.Logged I (e, (t o).2) :=
  ⟨log o h.log, fun i hi => told i o (h.population i hi)⟩

section Keeps

variable (evaluations : ∀ i, (x.evaluate i).Keeps I)

include evaluations

theorem keeps_trueLog (i : Individual) : (x.observed.evaluate i).Keeps (x.TrueLog I) := by
  rintro o ⟨holds, made⟩
  refine ⟨evaluations i o.source holds, fun v hv => ?_⟩
  rcases List.mem_append.mp hv with earlier | last
  · exact made v earlier
  · rw [List.mem_singleton.mp last]
    exact ⟨holds, rfl⟩

variable [Source ω] (answers : Source.Keeps I)

include answers

theorem keeps_logged_start : Task.Keeps (x.Logged I) x.observed.start := by
  rintro ⟨e, o⟩ logged
  have after := logged.perform
    (keeps_firstPopulation (fun q o log => ⟨answers q o.source log.1, log.2⟩)
      (keeps_trueLog evaluations))
    fun i => keeps_firstPopulation (fun _ _ told => told) (keeps_told i)
  refine holds_perform_change (I := x.Logged I) after fun population o' built => ?_
  have built : x.observed.firstPopulation.Yields o population o' := built
  obtain ⟨-, made, results, grown⟩ := observed_firstPopulation_log built
  rw [built.snd] at after
  exact ⟨after.log, told_of_results results grown⟩

theorem keeps_logged_advance : Task.Keeps (x.Logged I) x.observed.advance := by
  refine keeps_evolution_bind fun e o logged => ?_
  split
  · exact ⟨logged.log, logged.population⟩
  · split
    · exact ⟨logged.log, logged.population⟩
    · have after := logged.perform
        (keeps_nextPopulation (fun q o log => ⟨answers q o.source log.1, log.2⟩)
          (keeps_trueLog evaluations) e.population)
        fun i => keeps_nextPopulation (fun _ _ told => told) (keeps_told i) e.population
      refine holds_perform_change (I := x.Logged I) after fun population o' built => ?_
      have built : (x.observed.nextPopulation e.population).Yields o population o' := built
      obtain ⟨-, made, results, grown⟩ := observed_nextPopulation_log built
      rw [built.snd] at after
      exact ⟨after.log, told_of_results results grown⟩

variable (reports : ∀ population generation, (x.report population generation).Keeps I)

include reports

/-- Whatever an observed evolution comes to, its log is true and complete. -/
theorem Reached.logged {w : ω} {st : Evolution × Observed ω} (h : x.observed.Reached (.of w) st)
    (begins : I w) : x.Logged I st := by
  have note : Task.Keeps (x.Logged I) x.observed.note := by
    refine keeps_note (fun _ _ _ _ logged => ⟨logged.log, logged.population⟩) ?_
    intro population generation e o ⟨⟨holds, made⟩, told⟩
    exact ⟨⟨reports population generation o.source holds, made⟩, told⟩
  have start := keeps_logged_start evaluations answers
  exact h.holds ⟨⟨begins, nofun⟩, nofun⟩ start
    (keeps_step start note (keeps_logged_advance evaluations answers))

end Keeps

end PictureEvolution.Experiment
