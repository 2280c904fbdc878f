import PictureEvolution.Proofs.Evolution.Observed

/-!
# The accounts of an evolution

Generation, status and histories of an evolution fit to what it evaluated and reported, however
many steps it took.
-/

namespace PictureEvolution

namespace Population

def Unsolved (reports : List (List Individual × Nat)) : Prop := ∀ r ∈ reports, ¬ Solved r.1

instance (reports : List (List Individual × Nat)) : Decidable (Unsolved reports) :=
  inferInstanceAs (Decidable (∀ r ∈ reports, ¬ Solved r.1))

@[simp] theorem unsolved_nil : Unsolved [] := by
  intro r hr
  cases hr

theorem unsolved_append {reports later : List (List Individual × Nat)} :
    Unsolved (reports ++ later) ↔ Unsolved reports ∧ Unsolved later := by
  constructor
  · intro h
    refine ⟨fun r hr => h r ?_, fun r hr => h r ?_⟩
    · exact List.mem_append_left _ hr
    · exact List.mem_append_right _ hr
  · rintro ⟨h, h'⟩ r hr
    rcases List.mem_append.mp hr with hr | hr
    · exact h r hr
    · exact h' r hr

theorem unsolved_singleton {r : List Individual × Nat} : Unsolved [r] ↔ ¬ Solved r.1 := by
  simp [Unsolved]

end Population

open Population

/-- The reports carry the generations in order, each with a population of the right size, and the
histories hold the best and the mean of each. -/
structure Tallied (c : Config) (reports : List (List Individual × Nat)) (bests : List Score)
    (means : List Float) : Prop where
  generations : reports.map Prod.snd = List.range reports.length
  sizes : ∀ r ∈ reports, (r.1.length : Int) = c.populationSize
  bests : bests.map .ok = reports.map fun r => (best r.1).map (·.total)
  means : means.map .ok = reports.map fun r => meanTotal r.1

theorem Tallied.snoc {c : Config} {reports : List (List Individual × Nat)} {bests : List Score}
    {means : List Float} {population : List Individual} {generation : Nat} {b : Individual}
    {mean : Float} (h : Tallied c reports bests means) (next : reports.length = generation)
    (size : (population.length : Int) = c.populationSize) (hb : best population = .ok b)
    (hm : meanTotal population = .ok mean) :
    Tallied c (reports ++ [(population, generation)]) (bests ++ [b.total]) (means ++ [mean]) where
  generations := by
    rw [List.map_append, h.generations, List.length_append, List.length_singleton,
      List.range_succ, next]
    rfl
  sizes := by
    intro r hr
    rcases List.mem_append.mp hr with hr | hr
    · exact h.sizes r hr
    · rw [List.mem_singleton.mp hr]
      exact size
  bests := by
    rw [List.map_append, List.map_append, h.bests]
    simp [hb, Except.map]
  means := by
    rw [List.map_append, List.map_append, h.means]
    simp [hm]

/-- What holds of an evolution after so many steps from the beginning. -/
structure Accounted {ω : Type} (c : Config) (count : Nat) (e : Evolution) (o : Observed ω) :
    Prop where
  tallied : Tallied c o.reports e.bestHistory e.meanHistory
  idle : e.started = false → count = 0 ∧ e.status = .running ∧ o.evaluated = []
  size : e.started = true → (e.population.length : Int) = c.populationSize
  evaluated : e.started = true →
    (o.evaluated.length : Int) = c.populationSize * (e.generation + 1)
  running : e.status = .running → e.generation = count ∧ o.reports.length = count ∧
    (count : Int) ≤ c.maxGenerations ∧ Unsolved o.reports
  ended : e.status ≠ .running → ∃ earlier, o.reports = earlier ++ [(e.population, e.generation)] ∧
    earlier.length = e.generation ∧ Unsolved earlier
  success : e.status = .success → Solved e.population
  exhausted : e.status = .exhausted →
    ¬ Solved e.population ∧ (e.generation : Int) = c.maxGenerations

/-- What holds within a step, after the report: the population is the last one reported. -/
structure Reported {ω : Type} (c : Config) (count : Nat) (e : Evolution) (o : Observed ω) :
    Prop where
  tallied : Tallied c o.reports e.bestHistory e.meanHistory
  started : e.started = true
  running : e.status = .running
  generation : e.generation = count
  size : (e.population.length : Int) = c.populationSize
  evaluated : (o.evaluated.length : Int) = c.populationSize * (e.generation + 1)
  limit : (count : Int) ≤ c.maxGenerations
  reports : ∃ earlier, o.reports = earlier ++ [(e.population, e.generation)] ∧
    earlier.length = e.generation ∧ Unsolved earlier

namespace Reported

variable {ω : Type} [Source ω] {x : Experiment ω} {count : Nat} {e e' : Evolution}
  {o o' : Observed ω}

omit [Source ω] in
theorem finish {c : Config} (h : Reported c count e o) {status : Status}
    (ended : status ≠ .running) (success : status = .success → Solved e.population)
    (exhausted : status = .exhausted →
      ¬ Solved e.population ∧ (e.generation : Int) = c.maxGenerations) :
    Accounted c (count + 1) { e with status } o where
  tallied := h.tallied
  idle idle := by cases h.started.symm.trans idle
  size _ := h.size
  evaluated _ := h.evaluated
  running running := absurd running ended
  ended _ := h.reports
  success := success
  exhausted := exhausted

theorem proceed {population : List Individual} (h : Reported x.config count e o)
    (positive : 0 < x.config.populationSize) (unsolved : ¬ Solved e.population)
    (more : (e.generation : Int) < x.config.maxGenerations)
    (built : (x.observed.nextPopulation e.population).Yields o population o') :
    Accounted x.config (count + 1) { e with population, generation := e.generation + 1 } o' := by
  obtain ⟨size, made, results, logged⟩ := Experiment.observed_nextPopulation_log built
  have all : made.length = population.length := by simpa using congrArg List.length results
  have grown : o'.evaluated.length = o.evaluated.length + population.length := by
    rw [logged]
    simp [all]
  have silent : o'.reports = o.reports := by rw [logged]
  obtain ⟨earlier, reports, length, before⟩ := h.reports
  refine ⟨?_, fun idle => ?_, fun _ => ?_, fun _ => ?_, fun _ => ?_, ?_, ?_, ?_⟩
  · rw [silent]
    exact h.tallied
  · cases h.started.symm.trans idle
  · show (population.length : Int) = _
    omega
  · show (o'.evaluated.length : Int) = x.config.populationSize * ((e.generation + 1 : Nat) + 1)
    have counted : (population.length : Int) = x.config.populationSize := by omega
    rw [grown, Int.natCast_add, Int.natCast_add, h.evaluated, counted,
      Int.mul_add _ (e.generation + (1 : Nat) : Int), Int.mul_one]
    rfl
  · show e.generation + 1 = count + 1 ∧ _
    have generation := h.generation
    refine ⟨by omega, ?_, by omega, ?_⟩
    · rw [silent, reports, List.length_append, length, List.length_singleton, generation]
    · rw [silent, reports, unsolved_append, unsolved_singleton]
      exact ⟨before, unsolved⟩
  · exact fun ended => absurd h.running ended
  · intro success
    cases h.running.symm.trans success
  · intro exhausted
    cases h.running.symm.trans exhausted

theorem advanced (h : Reported x.config count e o) (positive : 0 < x.config.populationSize)
    (advances : Task.Yields x.observed.advance (e, o) () (e', o')) :
    Accounted x.config (count + 1) e' o' := by
  rcases Experiment.yields_advance.mp advances with ⟨solved, rfl, rfl⟩ |
    ⟨unsolved, last, rfl, rfl⟩ | ⟨unsolved, more, population, built, rfl⟩
  · exact h.finish (by decide) (fun _ => solved) nofun
  · have limit := h.limit
    have generation := h.generation
    have last : x.config.maxGenerations ≤ e.generation := last
    exact h.finish (by decide) nofun fun _ => ⟨unsolved, by omega⟩
  · exact h.proceed positive unsolved more built

end Reported

namespace Accounted

variable {ω : Type} [Source ω] {x : Experiment ω} {count : Nat} {e e₁ e' : Evolution}
  {o o₁ o' : Observed ω}

omit [Source ω] in
theorem fresh {c : Config} (valid : c.validate = .ok ()) (w : ω) :
    Accounted c 0 .fresh (.of w) where
  tallied := ⟨rfl, by simp [Observed.of], rfl, rfl⟩
  idle _ := ⟨rfl, rfl, rfl⟩
  size := nofun
  evaluated := nofun
  running _ := ⟨rfl, rfl, (Config.bounds_of_validate valid).2.1, unsolved_nil⟩
  ended h := absurd rfl h
  success := nofun
  exhausted := nofun

omit [Source ω] in
theorem ended_succ {c : Config} (h : Accounted c count e o) (ended : e.status ≠ .running) :
    Accounted c (count + 1) e o :=
  { h with
    idle := fun idle => absurd (h.idle idle).2.1 ended
    running := fun running => absurd running ended }

theorem begun (h : Accounted x.config count e o) (positive : 0 < x.config.populationSize)
    (begins : Task.Yields x.observed.begun (e, o) () (e₁, o₁)) :
    Accounted x.config count e₁ o₁ ∧ e₁.started = true ∧ e₁.status = e.status := by
  rcases Experiment.yields_begun.mp begins with ⟨started, rfl, rfl⟩ | ⟨idle, starts⟩
  · exact ⟨h, started, rfl⟩
  · obtain ⟨population, built, rfl⟩ := Experiment.yields_start.mp starts
    obtain ⟨size, made, results, logged⟩ := Experiment.observed_firstPopulation_log built
    obtain ⟨none, running, empty⟩ := h.idle idle
    have all : made.length = population.length := by simpa using congrArg List.length results
    have before : o.evaluations = [] := List.map_eq_nil_iff.mp empty
    have counted : (o₁.evaluated.length : Int) = x.config.populationSize := by
      rw [logged]
      simp only [before, List.nil_append, Observed.length_evaluated, all]
      omega
    have silent : o₁.reports = o.reports := by rw [logged]
    have before := h.running running
    refine ⟨⟨?_, nofun, fun _ => ?_, fun _ => ?_, fun _ => ?_, ?_, ?_, ?_⟩, rfl, rfl⟩
    · rw [silent]
      exact h.tallied
    · show (population.length : Int) = _
      omega
    · show (o₁.evaluated.length : Int) = x.config.populationSize * ((0 : Nat) + 1)
      rw [counted]
      simp
    · rw [silent]
      exact ⟨none.symm, before.2⟩
    · exact fun ended => absurd running ended
    · intro success
      cases running.symm.trans success
    · intro exhausted
      cases running.symm.trans exhausted

omit [Source ω] in
/-- After the report the population is the last one reported, and all others were without a
solution. -/
theorem noted (h : Accounted x.config count e o) (started : e.started = true)
    (running : e.status = .running) (notes : Task.Yields x.observed.note (e, o) () (e₁, o₁)) :
    Reported x.config count e₁ o₁ := by
  obtain ⟨b, mean, hb, hm, reported, rfl⟩ := Experiment.yields_note.mp notes
  have logged := Experiment.observed_report_log reported
  have reports₁ : o₁.reports = o.reports ++ [(e.population, e.generation)] := by rw [logged]
  obtain ⟨generation, reports, limit, unsolved⟩ := h.running running
  refine ⟨?_, started, running, generation, h.size started, ?_, limit, o.reports, reports₁, ?_,
    unsolved⟩
  · rw [reports₁]
    exact h.tallied.snoc (reports.trans generation.symm) (h.size started) hb hm
  · have silent : o₁.evaluated = o.evaluated := by
      rw [logged]
      rfl
    rw [silent]
    exact h.evaluated started
  · exact reports.trans generation.symm

theorem step {status : Status} (h : Accounted x.config count e o)
    (positive : 0 < x.config.populationSize)
    (steps : Task.Yields x.observed.step (e, o) status (e', o')) :
    Accounted x.config (count + 1) e' o' := by
  by_cases running : e.status = .running
  · obtain ⟨e₁, o₁, e₂, o₂, begins, notes, advances, -⟩ :=
      (Experiment.yields_step_of_running running).mp steps
    obtain ⟨h, started, same⟩ := h.begun positive begins
    exact (h.noted started (same.trans running) notes).advanced positive advances
  · rw [Task.Yields, Experiment.step_of_ended running] at steps
    cases steps
    exact h.ended_succ running

end Accounted

namespace Experiment

variable {ω : Type} [Source ω] {x : Experiment ω} {count : Nat} {w : ω} {e : Evolution}
  {o : Observed ω}

theorem accounted_steps (valid : x.config.validate = .ok ())
    (h : Task.Yields (x.observed.steps count) (.fresh, .of w) () (e, o)) :
    Accounted x.config count e o := by
  refine holds_of_steps (x := x.observed) (Accounted.fresh valid w) ?_ h
  intro _ _ _ _ _ _ accounted taken
  exact accounted.step (Config.bounds_of_validate valid).1 taken

end Experiment

/-- The accounts of an evolution after so many steps, read off from what can be seen of it. -/
structure Balanced {ω : Type} [Source ω] (x : Experiment ω) (count : Nat) (e : Evolution)
    (o : Observed ω) : Prop where
  generations : o.reports.map Prod.snd = List.range o.reports.length
  sizes : ∀ r ∈ o.reports, (r.1.length : Int) = x.config.populationSize
  bests : e.bestHistory.length = o.reports.length
  means : e.meanHistory.length = o.reports.length
  running : e.status = .running → e.generation = count ∧ o.reports.length = count ∧
    (count : Int) ≤ x.config.maxGenerations ∧ Unsolved o.reports
  success : e.status = .success ↔
    ∃ earlier last, o.reports = earlier ++ [last] ∧ Solved last.1 ∧ Unsolved earlier
  exhausted : e.status = .exhausted ↔ (e.generation : Int) = x.config.maxGenerations ∧
    o.reports.length = e.generation + 1 ∧ Unsolved o.reports
  ended : e.status ≠ .running → o.reports.length = e.generation + 1 ∧
    o.reports.getLast? = some (e.population, e.generation)
  evaluated : 0 < count →
    (o.evaluated.length : Int) = x.config.populationSize * (e.generation + 1)
  /-- nothing is evaluated, reported, drawn or changed any more -/
  still : e.status ≠ .running → Task.Yields x.observed.step (e, o) e.status (e, o)

namespace Accounted

variable {ω : Type} {c : Config} {count : Nat} {e : Evolution} {o : Observed ω}

theorem started (h : Accounted c count e o) (positive : 0 < count) : e.started = true := by
  cases started : e.started with
  | true => rfl
  | false =>
    have none := (h.idle started).1
    omega

theorem success_iff (h : Accounted c count e o) :
    e.status = .success ↔
      ∃ earlier last, o.reports = earlier ++ [last] ∧ Solved last.1 ∧ Unsolved earlier := by
  constructor
  · intro success
    obtain ⟨earlier, reports, -, unsolved⟩ := h.ended (by simp [success])
    exact ⟨earlier, _, reports, h.success success, unsolved⟩
  · rintro ⟨earlier, last, reports, solved, -⟩
    cases status : e.status with
    | success => rfl
    | running =>
      obtain ⟨-, -, -, unsolved⟩ := h.running status
      rw [reports, unsolved_append, unsolved_singleton] at unsolved
      exact absurd solved unsolved.2
    | exhausted =>
      obtain ⟨earlier', reports', -, -⟩ := h.ended (by simp [status])
      obtain ⟨-, same⟩ := List.append_inj' (reports.symm.trans reports') rfl
      cases same
      exact absurd solved (h.exhausted status).1

theorem exhausted_iff (h : Accounted c count e o) :
    e.status = .exhausted ↔ (e.generation : Int) = c.maxGenerations ∧
      o.reports.length = e.generation + 1 ∧ Unsolved o.reports := by
  constructor
  · intro exhausted
    obtain ⟨earlier, reports, length, unsolved⟩ := h.ended (by simp [exhausted])
    obtain ⟨unsolved', last⟩ := h.exhausted exhausted
    refine ⟨last, ?_, ?_⟩
    · rw [reports, List.length_append, length, List.length_singleton]
    · rw [reports, unsolved_append, unsolved_singleton]
      exact ⟨unsolved, unsolved'⟩
  · rintro ⟨-, length, unsolved⟩
    cases status : e.status with
    | exhausted => rfl
    | running =>
      obtain ⟨generation, reports, -, -⟩ := h.running status
      omega
    | success =>
      obtain ⟨earlier, reports, -, -⟩ := h.ended (by simp [status])
      rw [reports, unsolved_append, unsolved_singleton] at unsolved
      exact absurd (h.success status) unsolved.2

theorem balanced [Source ω] {x : Experiment ω} (h : Accounted x.config count e o) :
    Balanced x count e o where
  generations := h.tallied.generations
  sizes := h.tallied.sizes
  bests := by simpa using congrArg List.length h.tallied.bests
  means := by simpa using congrArg List.length h.tallied.means
  running := h.running
  success := h.success_iff
  exhausted := h.exhausted_iff
  ended := by
    intro ended
    obtain ⟨earlier, reports, length, -⟩ := h.ended ended
    rw [reports, List.length_append, length, List.getLast?_concat]
    exact ⟨rfl, rfl⟩
  evaluated positive := h.evaluated (h.started positive)
  still := Experiment.step_of_ended

end Accounted

namespace Experiment

/-- Whatever number of steps succeeds from the beginning, the books of the evolution balance. -/
theorem steps_balanced {ω : Type} [Source ω] (x : Experiment ω)
    (valid : x.config.validate = .ok ()) (count : Nat) (w w' : ω) (e : Evolution)
    (h : Task.Yields (x.steps count) (.fresh, w) () (e, w')) :
    ∃ o, Task.Yields (x.observed.steps count) (.fresh, .of w) () (e, o) ∧ o.source = w' ∧
      Balanced x count e o := by
  have agree := (agree_observed_steps (x := x) count).symm
  obtain ⟨⟨e', o⟩, taken, same, source⟩ := agree.yields (g := (.fresh, .of w)) ⟨rfl, rfl⟩ h
  cases same
  exact ⟨o, taken, source, (accounted_steps valid taken).balanced⟩

theorem trial_balanced : ∃ e o,
    Task.Yields ((trial 7).observed.steps 3) (.fresh, .of ⟨[]⟩) () (e, o) ∧
      e.status = .exhausted ∧ Balanced (trial 7) 3 e o := by
  have succeeds : (((trial 7).steps 3) (.fresh, ⟨[]⟩)).1.isOk = true := by decide +kernel
  obtain ⟨_, taken⟩ := Task.yields_of_isOk succeeds
  obtain ⟨o, observed, -, balanced⟩ := steps_balanced (trial 7) rfl 3 ⟨[]⟩ _ _ taken
  refine ⟨_, o, observed, ?_, balanced⟩
  decide +kernel

/-- At the last generation an evolution is not exhausted until that generation was reported. -/
theorem not_exhausted_iff_last_generation :
    ¬ ∀ (x : Experiment Script) (count : Nat) (w : Script) (e : Evolution) (o : Observed Script),
      x.config.validate = .ok () →
      Task.Yields (x.observed.steps count) (.fresh, .of w) () (e, o) →
      (e.status = .exhausted ↔
        (e.generation : Int) = x.config.maxGenerations ∧ Unsolved o.reports) := by
  intro claimed
  have succeeds : (((trial 7).observed.steps 1) (.fresh, .of ⟨[]⟩)).1.isOk = true := by
    decide +kernel
  obtain ⟨_, taken⟩ := Task.yields_of_isOk succeeds
  have exhausted := (claimed (trial 7) 1 ⟨[]⟩ _ _ rfl taken).mpr
    ⟨by decide +kernel, by decide +kernel⟩
  revert exhausted
  decide +kernel

end Experiment

end PictureEvolution
