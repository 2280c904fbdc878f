import PictureEvolution.Evolution.Evolve
import PictureEvolution.Proofs.Machine.Task

/-!
# What a step of an evolution does

A step that succeeds begins the evolution if need be, notes and reports the population, and then
ends the evolution or replaces the population. Every fact about runs is derived from what these
three parts do.
-/

namespace PictureEvolution

def Population.Solved (population : List Individual) : Prop :=
  ∃ i ∈ population, i.total.isZero = true

theorem Population.any_isZero (population : List Individual) :
    population.any (·.total.isZero) = true ↔ Solved population := by
  rw [List.any_eq_true, Solved]

instance (population : List Individual) : Decidable (Population.Solved population) :=
  decidable_of_iff _ (Population.any_isZero population)

theorem Config.validate_eq_ok_iff {c : Config} : c.validate = .ok () ↔
    c.catalog.isEmpty = false ∧ 0 < c.populationSize ∧ 0 ≤ c.maxGenerations ∧
      1 ≤ c.maxInitialProgramSize ∧ 1 ≤ c.tournamentSize := by
  unfold validate
  grind

theorem Config.bounds_of_validate {c : Config} (valid : c.validate = .ok ()) :
    0 < c.populationSize ∧ 0 ≤ c.maxGenerations ∧ 1 ≤ c.maxInitialProgramSize := by
  obtain ⟨-, population, generations, initial, -⟩ := validate_eq_ok_iff.mp valid
  exact ⟨population, generations, initial⟩

theorem Catalog.population_length {ω : Type} [Source ω] (catalog : Catalog) (maxSize : Int)
    (count : Nat) :
    Task.Gives (·.length = count) (catalog.population maxSize count : Task ω _) := by
  induction count with
  | zero => exact .pure rfl
  | succ count ih =>
    refine Task.Gives.bind (.any _) fun p _ => ?_
    refine ih.bind fun rest length => .pure ?_
    rw [List.length_cons, length]

theorem Config.childrenOf_length {ω : Type} [Source ω] (c : Config) (population : List Individual)
    (count : Nat) :
    Task.Gives (·.length = count) (c.childrenOf population count : Task ω _) := by
  induction count with
  | zero => exact .pure rfl
  | succ count ih =>
    refine Task.Gives.bind (.any _) fun i _ => ?_
    refine ih.bind fun rest length => .pure ?_
    rw [List.length_cons, length]

namespace Progress

variable {ω α β : Type} {e e' : Evolution} {w w' : ω} {a : α} {u : Unit} {fault : Fault}

theorem fails_perform {t : Task ω α} (h : t.Fails w fault w') :
    Task.Fails (perform t) (e, w) fault (e, w') :=
  congrArg (fun result : Except Fault _ × ω => (result.1, (e, result.2))) h

@[simp] theorem yields_perform {t : Task ω α} :
    Task.Yields (perform t) (e, w) a (e', w') ↔ t.Yields w a w' ∧ e' = e := by
  rcases t.yields_or_fails w with ⟨b, w'', ht⟩ | ⟨fault, w'', ht⟩
  · have performed : Task.Yields (perform t) (e, w) b (e, w'') :=
      congrArg (fun result : Except Fault _ × ω => (result.1, (e, result.2))) ht
    constructor
    · intro h
      obtain ⟨rfl, next⟩ := h.unique performed
      cases next
      exact ⟨ht, rfl⟩
    · rintro ⟨h, rfl⟩
      obtain ⟨rfl, rfl⟩ := h.unique ht
      exact performed
  · have performed := fails_perform (e := e) ht
    constructor
    · intro h
      exact absurd performed h.not_fails
    · rintro ⟨h, -⟩
      exact absurd ht h.not_fails

@[simp] theorem yields_change {f : Evolution → Evolution} :
    Task.Yields (change f) (e, w) u (e', w') ↔ e' = f e ∧ w' = w := by
  have changed : Task.Yields (change f) (e, w) () (f e, w) := rfl
  constructor
  · intro h
    have next := (h.unique changed).2
    cases next
    exact ⟨rfl, rfl⟩
  · rintro ⟨rfl, rfl⟩
    exact changed

@[simp] theorem yields_ofExcept {r : Except Fault α} {st st' : Evolution × ω} :
    Task.Yields (ofExcept r) st a st' ↔ r = .ok a ∧ st' = st := by
  cases r with
  | error fault => simp [ofExcept]
  | ok b => rw [ofExcept, Task.yields_pure, Except.ok.injEq, eq_comm]

theorem evolution_bind (f : Evolution → Progress ω α) (e : Evolution) (w : ω) :
    (evolution >>= f) (e, w) = f e (e, w) := rfl

theorem yields_evolution_bind {f : Evolution → Progress ω α} {st' : Evolution × ω} :
    Task.Yields (evolution >>= f) (e, w) a st' ↔ Task.Yields (f e) (e, w) a st' := Iff.rfl

section Keeps

variable {I : Evolution × ω → Prop}

theorem keeps_evolution_bind {f : Evolution → Progress ω α}
    (h : ∀ e w, I (e, w) → I (f e (e, w)).2) : Task.Keeps I (evolution >>= f) := by
  rintro ⟨e, w⟩ holds
  rw [evolution_bind]
  exact h e w holds

theorem keeps_evolution : Task.Keeps I (evolution : Progress ω Evolution) := fun _ holds => holds

theorem keeps_change {f : Evolution → Evolution} (h : ∀ e w, I (e, w) → I (f e, w)) :
    Task.Keeps I (change f) :=
  fun st holds => h st.1 st.2 holds

theorem keeps_ofExcept (r : Except Fault α) : Task.Keeps I (ofExcept r : Progress ω α) := by
  cases r with
  | error fault => exact .throw fault
  | ok a => exact .pure a

theorem keeps_perform {t : Task ω α} (h : ∀ e w, I (e, w) → I (e, (t w).2)) :
    Task.Keeps I (perform t) :=
  fun st holds => h st.1 st.2 holds

/-- A change that needs the value of a task is made only when the task yields one. -/
theorem holds_perform_change {t : Task ω α} {f : α → Evolution → Evolution}
    (fails : I (e, (t w).2)) (yields : ∀ a w', t.Yields w a w' → I (f a e, w')) :
    I ((perform t >>= fun a => change (f a) : Progress ω Unit) (e, w)).2 := by
  rcases t.yields_or_fails w with ⟨a, w', ht⟩ | ⟨fault, w', ht⟩
  · rw [Task.bind_of_yields (yields_perform.mpr ⟨ht, rfl⟩)]
    exact yields a w' ht
  · rw [(Task.bind_of_fails (fails_perform ht)).snd]
    exact ht.snd ▸ fails

end Keeps

end Progress

namespace Experiment

open Progress

variable {ω : Type} {x : Experiment ω} {e e' e'' : Evolution} {w w' w'' : ω}

/-- Best and mean of the population go to the histories. -/
def noted (e : Evolution) (best : Individual) (mean : Float) : Evolution :=
  { e with
    bestHistory := e.bestHistory ++ [best.total]
    meanHistory := e.meanHistory ++ [mean] }

theorem yields_note :
    Task.Yields x.note (e, w) () (e', w') ↔ ∃ best mean, Population.best e.population = .ok best ∧
      Population.meanTotal e.population = .ok mean ∧
      (x.report e.population e.generation).Yields w () w' ∧ e' = noted e best mean := by
  unfold note
  rw [yields_evolution_bind]
  simp only [Task.yields_bind, yields_ofExcept, Prod.exists]
  constructor
  · rintro ⟨best, _, _, ⟨hbest, same⟩, mean, _, _, ⟨hmean, same'⟩, ⟨⟩, e₁, w₁, changed, performed⟩
    cases same
    cases same'
    obtain ⟨rfl, rfl⟩ := yields_change.mp changed
    obtain ⟨reported, rfl⟩ := yields_perform.mp performed
    exact ⟨best, mean, hbest, hmean, reported, rfl⟩
  · rintro ⟨best, mean, hbest, hmean, reported, rfl⟩
    exact ⟨best, e, w, ⟨hbest, rfl⟩, mean, e, w, ⟨hmean, rfl⟩, (), noted e best mean, w,
      yields_change.mpr ⟨rfl, rfl⟩, yields_perform.mpr ⟨reported, rfl⟩⟩

theorem evaluateAll_length (is : List Individual) :
    (x.evaluateAll is).Gives (·.length = is.length) := by
  induction is with
  | nil => exact .pure rfl
  | cons i rest ih =>
    refine Task.Gives.bind (.any _) fun j _ => ?_
    refine ih.bind fun js length => .pure ?_
    rw [List.length_cons, List.length_cons, length]

theorem evaluateAll_gives {P : Individual → Prop} {is : List Individual}
    (h : ∀ i ∈ is, (x.evaluate i).Gives P) : (x.evaluateAll is).Gives fun js => ∀ j ∈ js, P j := by
  induction is with
  | nil => exact .pure nofun
  | cons i rest ih =>
    have others := ih fun j hj => h j (List.mem_cons_of_mem i hj)
    refine (h i List.mem_cons_self).bind fun j first => others.bind fun js holds => .pure ?_
    intro j' hj'
    rcases List.mem_cons.mp hj' with rfl | hj'
    · exact first
    · exact holds j' hj'

variable [Source ω]

def firstPopulation (x : Experiment ω) : Task ω (List Individual) := do
  let unevaluated ← x.config.catalog.population x.config.maxInitialProgramSize
    x.config.populationSize.toNat
  x.evaluateAll unevaluated

def nextPopulation (x : Experiment ω) (population : List Individual) :
    Task ω (List Individual) := do
  let children ← x.config.children population
  x.evaluateAll children

theorem yields_start :
    Task.Yields x.start (e, w) () (e', w') ↔
      ∃ population, x.firstPopulation.Yields w population w' ∧
        e' = { e with population, generation := 0, started := true } := by
  show Task.Yields (perform x.firstPopulation >>= _) _ _ _ ↔ _
  simp only [Task.yields_bind, Prod.exists, yields_perform]
  constructor
  · rintro ⟨population, _, w₁, ⟨built, rfl⟩, changed⟩
    obtain ⟨rfl, rfl⟩ := yields_change.mp changed
    exact ⟨population, built, rfl⟩
  · rintro ⟨population, built, rfl⟩
    exact ⟨population, e, w', ⟨built, rfl⟩, yields_change.mpr ⟨rfl, rfl⟩⟩

theorem yields_advance :
    Task.Yields x.advance (e, w) () (e', w') ↔
      (Population.Solved e.population ∧ e' = { e with status := .success } ∧ w' = w) ∨
      (¬ Population.Solved e.population ∧ x.config.maxGenerations ≤ e.generation ∧
        e' = { e with status := .exhausted } ∧ w' = w) ∨
      (¬ Population.Solved e.population ∧ (e.generation : Int) < x.config.maxGenerations ∧
        ∃ population, (x.nextPopulation e.population).Yields w population w' ∧
          e' = { e with population, generation := e.generation + 1 }) := by
  unfold advance
  rw [yields_evolution_bind]
  by_cases solved : Population.Solved e.population
  · rw [if_pos ((Population.any_isZero _).mpr solved), yields_change]
    simp [solved]
  · rw [if_neg (mt (Population.any_isZero _).mp solved)]
    by_cases last : x.config.maxGenerations ≤ e.generation
    · rw [if_pos last, yields_change]
      simp [solved, last, Int.not_lt.mpr last]
    · rw [if_neg last]
      show Task.Yields (perform (x.nextPopulation e.population) >>= _) _ _ _ ↔ _
      simp only [Task.yields_bind, Prod.exists, yields_perform]
      constructor
      · rintro ⟨population, _, w₁, ⟨built, rfl⟩, changed⟩
        obtain ⟨rfl, rfl⟩ := yields_change.mp changed
        exact .inr (.inr ⟨solved, Int.not_le.mp last, population, built, rfl⟩)
      · rintro (⟨h, -⟩ | ⟨-, h, -⟩ | ⟨-, -, population, built, rfl⟩)
        · exact absurd h solved
        · exact absurd h last
        · exact ⟨population, e, w', ⟨built, rfl⟩, yields_change.mpr ⟨rfl, rfl⟩⟩

theorem step_of_ended (ended : e.status ≠ .running) :
    Task.Yields x.step (e, w) e.status (e, w) := by
  unfold step
  rw [yields_evolution_bind, if_pos ended]
  exact Task.yields_pure.mpr ⟨rfl, rfl⟩

/-- The begun evolution of a step, before the population is reported. -/
def begun (x : Experiment ω) : Progress ω Unit := do
  let e ← evolution
  unless e.started do x.start

theorem yields_begun :
    Task.Yields x.begun (e, w) () (e', w') ↔
      e.started = true ∧ e' = e ∧ w' = w ∨
        e.started = false ∧ Task.Yields x.start (e, w) () (e', w') := by
  unfold begun
  rw [yields_evolution_bind]
  cases started : e.started with
  | true => simp
  | false => simp

/-- A step of an evolution that goes on, in its parts. -/
theorem step_of_running (running : e.status = .running) :
    x.step (e, w) = (x.begun >>= fun _ => x.note >>= fun _ => x.advance >>= fun _ =>
      evolution >>= fun e => pure e.status : Progress ω Status) (e, w) := by
  unfold step
  rw [evolution_bind, if_neg (by simp [running])]
  unfold begun
  rw [bind_assoc]
  cases started : e.started with
  | true =>
    rw [evolution_bind, started]
    rfl
  | false =>
    rw [evolution_bind, started]
    rfl

theorem yields_step_of_running {status : Status} (running : e.status = .running) :
    Task.Yields x.step (e, w) status (e'', w'') ↔
      ∃ e₁ w₁ e₂ w₂, Task.Yields x.begun (e, w) () (e₁, w₁) ∧
        Task.Yields x.note (e₁, w₁) () (e₂, w₂) ∧
        Task.Yields x.advance (e₂, w₂) () (e'', w'') ∧ status = e''.status := by
  rw [Task.Yields, step_of_running running]
  show Task.Yields _ _ _ _ ↔ _
  simp only [Task.yields_bind, Prod.exists]
  constructor
  · rintro ⟨_, e₁, w₁, begins, _, e₂, w₂, notes, _, e₃, w₃, advances, _, _, _, ⟨⟩, ⟨⟩⟩
    exact ⟨e₁, w₁, e₂, w₂, begins, notes, advances, rfl⟩
  · rintro ⟨e₁, w₁, e₂, w₂, begins, notes, advances, rfl⟩
    exact ⟨(), e₁, w₁, begins, (), e₂, w₂, notes, (), e'', w'', advances, e'', e'', w'', rfl, rfl⟩

section Keeps

variable {I : Evolution × ω → Prop}

/-- What the parts of a step keep, every step keeps, also one that fails. -/
theorem keeps_step (start : Task.Keeps I x.start) (note : Task.Keeps I x.note)
    (advance : Task.Keeps I x.advance) : Task.Keeps I x.step := by
  have rest : Task.Keeps I (do x.note; x.advance; return (← evolution).status) :=
    note.bind fun _ => advance.bind fun _ => keeps_evolution.bind fun _ => .pure _
  refine keeps_evolution_bind fun e w holds => ?_
  split
  · exact holds
  · split
    · exact rest _ holds
    · exact (start.bind fun _ => rest) _ holds

omit [Source ω] in
/-- Noting touches the histories and what the report touches. -/
theorem keeps_note
    (histories : ∀ e w bests means, I (e, w) →
      I ({ e with bestHistory := bests, meanHistory := means }, w))
    (report : ∀ population generation e w, I (e, w) →
      I (e, (x.report population generation w).2)) :
    Task.Keeps I x.note := by
  refine keeps_evolution.bind fun e => (keeps_ofExcept _).bind fun best => ?_
  refine (keeps_ofExcept _).bind fun mean => ?_
  refine (keeps_change fun e w holds => histories e w _ _ holds).bind fun _ => ?_
  exact keeps_perform (report e.population e.generation)

end Keeps

/-- What an evolution can come to when it is begun and stepped any number of times, whether that
succeeds or fails. -/
inductive Reached (x : Experiment ω) (w : ω) : Evolution × ω → Prop where
  | fresh : Reached x w (.fresh, w)
  | start {st : Evolution × ω} : Reached x w st → Reached x w (x.start st).2
  | step {st : Evolution × ω} : Reached x w st → Reached x w (x.step st).2

theorem Reached.holds {I : Evolution × ω → Prop} {st : Evolution × ω} (h : x.Reached w st)
    (fresh : I (.fresh, w)) (start : Task.Keeps I x.start) (step : Task.Keeps I x.step) : I st := by
  induction h with
  | fresh => exact fresh
  | start _ ih => exact start _ ih
  | step _ ih => exact step _ ih

theorem Reached.begun {st st' : Evolution × ω} (h : x.Reached w st)
    (begins : Task.Yields x.begun st () st') : x.Reached w st' := by
  rcases yields_begun.mp begins with ⟨-, same, same'⟩ | ⟨-, starts⟩
  · rwa [show st' = st from Prod.ext same same']
  · have started := h.start
    rwa [starts.snd] at started

/-- Whatever holds of every evaluated individual holds of every population. -/
theorem Reached.population {P : Individual → Prop} {st : Evolution × ω} (h : x.Reached w st)
    (evaluated : ∀ i, (x.evaluate i).Gives P) : ∀ i ∈ st.1.population, P i := by
  let I (st : Evolution × ω) : Prop := ∀ i ∈ st.1.population, P i
  have gives (t : Task ω (List Individual)) :
      (t >>= x.evaluateAll).Gives fun is => ∀ i ∈ is, P i :=
    Task.Gives.bind (.any t) fun _ _ => evaluateAll_gives fun i _ => evaluated i
  have start : Task.Keeps I x.start := by
    rintro ⟨e, w⟩ holds
    refine holds_perform_change (I := I) holds fun population w' built => ?_
    exact gives _ _ _ _ built
  have advance : Task.Keeps I x.advance := by
    refine keeps_evolution_bind fun e w holds => ?_
    split
    · exact holds
    · split
      · exact holds
      · refine holds_perform_change (I := I) holds fun population w' built => ?_
        exact gives _ _ _ _ built
  have note : Task.Keeps I x.note :=
    keeps_note (fun _ _ _ _ holds => holds) fun _ _ _ _ holds => holds
  exact h.holds (I := I) nofun start (keeps_step start note advance)

/-- A population of three and at most one further generation; everybody has the same error. -/
def trial (error : Int) : Experiment Script where
  config := { Config.standard with
    catalog := [.literal (.int 1)], populationSize := 3, maxGenerations := 1 }
  evaluate i := pure { i with errors := [.int error], total := .int error }
  report _ _ := pure ()

end Experiment

end PictureEvolution
