import PictureEvolution.Proofs.Evolution.Runs

/-!
# Steps that fail

Wherever a step evaluates or reports it can fail, and whoever takes it may go on stepping from what
is left. A step that fails leaves the population that it reports: the old one, or, if it was the one
to begin the evolution, the first one. So a population is never exposed before all of it is
evaluated.
-/

namespace PictureEvolution

def Individual.Unevaluated (count : Nat) (is : List Individual) : Prop :=
  ∃ programs : List Program, programs.length = count ∧ is = programs.map .ofProgram

theorem Individual.Unevaluated.cons {count : Nat} {is : List Individual} (h : Unevaluated count is)
    (p : Program) : Unevaluated (count + 1) (.ofProgram p :: is) := by
  obtain ⟨programs, length, rfl⟩ := h
  exact ⟨p :: programs, congrArg Nat.succ length, rfl⟩

theorem Catalog.population_unevaluated {ω : Type} [Source ω] (catalog : Catalog) (maxSize : Int)
    (count : Nat) :
    Task.Gives (Individual.Unevaluated count) (catalog.population maxSize count : Task ω _) := by
  induction count with
  | zero => exact .pure ⟨[], rfl, rfl⟩
  | succ count ih =>
    exact Task.Gives.bind (.any _) fun p _ => ih.bind fun rest others => .pure (others.cons p)

theorem Config.childrenOf_unevaluated {ω : Type} [Source ω] (c : Config)
    (population : List Individual) (count : Nat) :
    Task.Gives (Individual.Unevaluated count) (c.childrenOf population count : Task ω _) := by
  induction count with
  | zero => exact .pure ⟨[], rfl, rfl⟩
  | succ count ih =>
    have child : Task.Gives (fun i => ∃ p, i = .ofProgram p) (c.child population : Task ω _) :=
      Task.Gives.bind (.any _) fun _ _ => Task.Gives.bind (.any _) fun _ _ =>
        Task.Gives.bind (.any _) fun p _ => .pure ⟨p, rfl⟩
    refine child.bind fun i ⟨p, same⟩ => ih.bind fun rest others => .pure ?_
    exact same ▸ others.cons p

namespace Progress

variable {ω α : Type} {e e' : Evolution} {w w' : ω} {fault : Fault}

theorem fails_perform_iff {t : Task ω α} :
    Task.Fails (perform t) (e, w) fault (e', w') ↔ t.Fails w fault w' ∧ e' = e := by
  constructor
  · intro h
    rcases t.yields_or_fails w with ⟨a, w₁, ht⟩ | ⟨other, w₁, ht⟩
    · exact absurd h (Task.Yields.not_fails (yields_perform.mpr ⟨ht, rfl⟩))
    · obtain ⟨rfl, same⟩ := h.unique (fails_perform ht)
      cases same
      exact ⟨ht, rfl⟩
  · rintro ⟨ht, rfl⟩
    exact fails_perform ht

theorem not_fails_change {f : Evolution → Evolution} :
    ¬ Task.Fails (change f) (e, w) fault (e', w') := by
  have changed : Task.Yields (change f) (e, w) () (f e, w) := yields_change.mpr ⟨rfl, rfl⟩
  exact changed.not_fails

theorem fails_ofExcept {r : Except Fault α} {st st' : Evolution × ω}
    (h : Task.Fails (ofExcept r) st fault st') : st' = st := by
  cases r with
  | ok a => exact absurd h Task.not_fails_pure
  | error other => exact (Task.fails_throw.mp h).2

theorem fails_evolution_bind {f : Evolution → Progress ω α} {st' : Evolution × ω} :
    Task.Fails (evolution >>= f) (e, w) fault st' ↔ Task.Fails (f e) (e, w) fault st' := Iff.rfl

end Progress

namespace Experiment

open Progress

section Fails

variable {ω : Type} {x : Experiment ω} {e e' e'' : Evolution} {w w' w'' : ω} {fault : Fault}

/-- When noting fails, best and mean may have gone to the histories before. -/
theorem fails_note (h : Task.Fails x.note (e, w) fault (e', w')) :
    e' = e ∨ ∃ best mean, e' = noted e best mean := by
  rw [note, fails_evolution_bind] at h
  rcases Task.fails_bind.mp h with h | ⟨best, st, h₁, h⟩
  · exact .inl (congrArg Prod.fst (fails_ofExcept h))
  · obtain ⟨-, rfl⟩ := yields_ofExcept.mp h₁
    rcases Task.fails_bind.mp h with h | ⟨mean, st, h₂, h⟩
    · exact .inl (congrArg Prod.fst (fails_ofExcept h))
    · obtain ⟨-, rfl⟩ := yields_ofExcept.mp h₂
      rcases Task.fails_bind.mp h with h | ⟨_, ⟨e₁, w₁⟩, changed, h⟩
      · exact absurd h not_fails_change
      · obtain ⟨rfl, rfl⟩ := yields_change.mp changed
        exact .inr ⟨best, mean, (fails_perform_iff.mp h).2⟩

variable [Source ω]

theorem fails_start (h : Task.Fails x.start (e, w) fault (e', w')) : e' = e := by
  have h : Task.Fails (perform x.firstPopulation >>= _) (e, w) fault (e', w') := h
  rcases Task.fails_bind.mp h with h | ⟨population, st, -, h⟩
  · exact (fails_perform_iff.mp h).2
  · exact absurd h not_fails_change

theorem fails_begun (h : Task.Fails x.begun (e, w) fault (e', w')) :
    e.started = false ∧ e' = e := by
  unfold begun at h
  rw [fails_evolution_bind] at h
  cases started : e.started with
  | true =>
    rw [started] at h
    exact absurd h Task.not_fails_pure
  | false =>
    rw [started] at h
    exact ⟨rfl, fails_start h⟩

theorem fails_advance (h : Task.Fails x.advance (e, w) fault (e', w')) : e' = e := by
  unfold advance at h
  rw [fails_evolution_bind] at h
  split at h
  · exact absurd h not_fails_change
  · split at h
    · exact absurd h not_fails_change
    · rcases Task.fails_bind.mp h with h | ⟨population, st, -, h⟩
      · exact (fails_perform_iff.mp h).2
      · exact absurd h not_fails_change

/-- Only a step of an evolution that has not ended can fail. It has begun the evolution or not, and
has noted best and mean or not; it has done nothing else. -/
theorem fails_step (h : Task.Fails x.step (e, w) fault (e', w')) :
    e.status = .running ∧ (e.started = false ∧ e' = e ∨
      ∃ e₁ w₁, Task.Yields x.begun (e, w) () (e₁, w₁) ∧
        (e' = e₁ ∨ ∃ best mean, e' = noted e₁ best mean)) := by
  by_cases running : e.status = .running
  · refine ⟨running, ?_⟩
    have h : Task.Fails (x.begun >>= fun _ => x.note >>= fun _ => x.advance >>= fun _ =>
        evolution >>= fun e => pure e.status : Progress ω Status) (e, w) fault (e', w') := by
      rw [Task.Fails, ← step_of_running running]
      exact h
    rcases Task.fails_bind.mp h with h | ⟨_, ⟨e₁, w₁⟩, begins, h⟩
    · exact .inl (fails_begun h)
    · refine .inr ⟨e₁, w₁, begins, ?_⟩
      rcases Task.fails_bind.mp h with h | ⟨_, ⟨e₂, w₂⟩, notes, h⟩
      · exact fails_note h
      · obtain ⟨best, mean, -, -, -, rfl⟩ := yields_note.mp notes
        rcases Task.fails_bind.mp h with h | ⟨_, ⟨e₃, w₃⟩, -, h⟩
        · exact .inr ⟨best, mean, fails_advance h⟩
        · exact absurd h Task.not_fails_pure
  · exact absurd h (step_of_ended running).not_fails

/-- A step that succeeds on an evolution that has not ended notes best and mean of the population
that it has begun with, and ends the evolution or replaces the population. -/
theorem yields_step_cases {status : Status} (running : e.status = .running)
    (h : Task.Yields x.step (e, w) status (e', w')) :
    ∃ e₁ w₁ best mean, Task.Yields x.begun (e, w) () (e₁, w₁) ∧
      Population.best e₁.population = .ok best ∧
      (e' = { noted e₁ best mean with status := .success } ∧ Population.Solved e₁.population ∨
        e' = { noted e₁ best mean with status := .exhausted } ∨
        ∃ population w₂ w₃, (x.nextPopulation e₁.population).Yields w₂ population w₃ ∧
          e' = { noted e₁ best mean with population, generation := e₁.generation + 1 }) := by
  obtain ⟨e₁, w₁, e₂, w₂, begins, notes, advances, -⟩ := (yields_step_of_running running).mp h
  obtain ⟨best, mean, least, -, -, rfl⟩ := yields_note.mp notes
  refine ⟨e₁, w₁, best, mean, begins, least, ?_⟩
  rcases yields_advance.mp advances with
    ⟨solved, rfl, -⟩ | ⟨-, -, rfl, -⟩ | ⟨-, -, next, built, rfl⟩
  · exact .inl ⟨rfl, solved⟩
  · exact .inr (.inl rfl)
  · exact .inr (.inr ⟨next, w₂, w', built, rfl⟩)

end Fails

variable {ω : Type} [Source ω] {x : Experiment ω}

/-- Where so many steps lead, failing or not, each going on from what the one before has left. -/
def attempts (x : Experiment ω) (w : ω) : (count : Nat) → Evolution × ω
  | 0 => (.fresh, w)
  | count + 1 => (x.step (attempts x w count)).2

/-- A population of the right size, every individual of which is what the evaluation made of a new
program, one after the other. -/
structure Complete (x : Experiment ω) (population : List Individual) : Prop where
  size : (population.length : Int) = x.config.populationSize
  results : ∃ (programs : List Program) (w w' : ω),
    (x.evaluateAll (programs.map .ofProgram)).Yields w population w'

section Complete

variable {e e' : Evolution} {w w' : ω} {population next : List Individual}
  (positive : 0 < x.config.populationSize)

include positive

omit [Source ω] in
theorem complete_of_unevaluated {t : Task ω (List Individual)}
    (unevaluated : t.Gives (Individual.Unevaluated x.config.populationSize.toNat))
    (h : (t >>= x.evaluateAll).Yields w population w') : x.Complete population := by
  obtain ⟨is, w₁, drawn, evaluated⟩ := Task.yields_bind.mp h
  obtain ⟨programs, length, rfl⟩ := unevaluated _ _ _ drawn
  have size := evaluateAll_length _ _ _ _ evaluated
  rw [List.length_map, length] at size
  exact ⟨by omega, programs, w₁, w', evaluated⟩

theorem complete_firstPopulation (h : x.firstPopulation.Yields w population w') :
    x.Complete population :=
  complete_of_unevaluated positive (Catalog.population_unevaluated _ _ _) h

theorem complete_nextPopulation (h : (x.nextPopulation population).Yields w next w') :
    x.Complete next :=
  complete_of_unevaluated positive (Config.childrenOf_unevaluated _ _ _) h

end Complete

/-- What holds of an evolution however many of its steps have failed: it is as it was at first, or
its population is complete. -/
structure Whole (x : Experiment ω) (e : Evolution) : Prop where
  fresh_or_complete : e = .fresh ∨ e.started = true ∧ x.Complete e.population
  histories : e.bestHistory.length = e.meanHistory.length

namespace Whole

variable {e e₁ : Evolution} {w w₁ : ω}

theorem begun (h : x.Whole e) (positive : 0 < x.config.populationSize)
    (begins : Task.Yields x.begun (e, w) () (e₁, w₁)) :
    e₁.started = true ∧ x.Complete e₁.population ∧
      e₁.bestHistory.length = e₁.meanHistory.length := by
  rcases yields_begun.mp begins with ⟨started, rfl, -⟩ | ⟨-, starts⟩
  · rcases h.fresh_or_complete with rfl | ⟨-, complete⟩
    · cases started
    · exact ⟨started, complete, h.histories⟩
  · obtain ⟨population, built, rfl⟩ := yields_start.mp starts
    exact ⟨rfl, complete_firstPopulation positive built, h.histories⟩

omit [Source ω] in
theorem noted_histories (h : e₁.bestHistory.length = e₁.meanHistory.length) (best : Individual)
    (mean : Float) :
    (noted e₁ best mean).bestHistory.length = (noted e₁ best mean).meanHistory.length := by
  simp [noted, h]

theorem step (positive : 0 < x.config.populationSize) {st : Evolution × ω} (h : x.Whole st.1) :
    x.Whole (x.step st).2.1 := by
  obtain ⟨e, w⟩ := st
  by_cases running : e.status = .running
  · rcases Task.yields_or_fails x.step (e, w) with
      ⟨status, ⟨e', w'⟩, yields⟩ | ⟨fault, ⟨e', w'⟩, fails⟩
    · rw [yields.snd]
      obtain ⟨e₁, w₁, best, mean, begins, -, outcome⟩ := yields_step_cases running yields
      obtain ⟨started, complete, histories⟩ := h.begun positive begins
      have histories := noted_histories histories best mean
      rcases outcome with ⟨rfl, -⟩ | rfl | ⟨next, w₂, w₃, built, rfl⟩
      · exact ⟨.inr ⟨started, complete⟩, histories⟩
      · exact ⟨.inr ⟨started, complete⟩, histories⟩
      · exact ⟨.inr ⟨started, complete_nextPopulation positive built⟩, histories⟩
    · rw [fails.snd]
      obtain ⟨-, ⟨-, rfl⟩ | ⟨e₁, w₁, begins, left⟩⟩ := fails_step fails
      · exact h
      · obtain ⟨started, complete, histories⟩ := h.begun positive begins
        rcases left with rfl | ⟨best, mean, rfl⟩
        · exact ⟨.inr ⟨started, complete⟩, histories⟩
        · exact ⟨.inr ⟨started, complete⟩, noted_histories histories best mean⟩
  · rw [(step_of_ended running).snd]
    exact h

theorem attempts (positive : 0 < x.config.populationSize) (w : ω) (count : Nat) :
    x.Whole (x.attempts w count).1 := by
  induction count with
  | zero => exact ⟨.inl rfl, rfl⟩
  | succ count ih => exact ih.step positive

end Whole

/-- However many steps have failed so far, the evolution is fresh or has a complete population, and
both histories are equally long. If the next step fails, the evolution goes on, with the population
and the generation that it had; only when it was fresh may the first population be there. -/
theorem attempts_never_half_built (x : Experiment ω) (valid : x.config.validate = .ok ()) (w : ω)
    (count : Nat) (e : Evolution) (w' : ω) (reached : x.attempts w count = (e, w')) :
    (e = .fresh ∨ e.started = true ∧ x.Complete e.population) ∧
    e.bestHistory.length = e.meanHistory.length ∧
    ∀ fault e' w'', Task.Fails x.step (e, w') fault (e', w'') →
      e'.status = .running ∧
      (e'.population = e.population ∧ e'.generation = e.generation ∧ e'.started = e.started ∨
        e = .fresh ∧ e'.generation = 0 ∧ e'.started = true ∧ x.Complete e'.population ∧
          ∃ w₁, x.firstPopulation.Yields w' e'.population w₁) := by
  have positive := (Config.bounds_of_validate valid).1
  have whole : x.Whole e := by
    have whole := Whole.attempts (x := x) positive w count
    rwa [reached] at whole
  refine ⟨whole.fresh_or_complete, whole.histories, fun fault e' w'' fails => ?_⟩
  obtain ⟨running, ⟨-, rfl⟩ | ⟨e₁, w₁, begins, left⟩⟩ := fails_step fails
  · exact ⟨running, .inl ⟨rfl, rfl, rfl⟩⟩
  · have kept : e'.status = e₁.status ∧ e'.population = e₁.population ∧
        e'.generation = e₁.generation ∧ e'.started = e₁.started := by
      rcases left with rfl | ⟨best, mean, rfl⟩
      · exact ⟨rfl, rfl, rfl, rfl⟩
      · exact ⟨rfl, rfl, rfl, rfl⟩
    obtain ⟨status, population, generation, started⟩ := kept
    rw [status, population, generation, started]
    rcases yields_begun.mp begins with ⟨-, rfl, -⟩ | ⟨idle, starts⟩
    · exact ⟨running, .inl ⟨rfl, rfl, rfl⟩⟩
    · obtain ⟨first, built, rfl⟩ := yields_start.mp starts
      rcases whole.fresh_or_complete with rfl | ⟨started, -⟩
      · exact ⟨rfl, .inr ⟨rfl, rfl, rfl, complete_firstPopulation positive built, w₁, built⟩⟩
      · cases started.symm.trans idle

def interrupted : Experiment Script :=
  { trial 7 with report := fun _ _ => do
      if (← Task.ofDraw (Draw.below 2 Nat.two_pos)).val = 1 then
        throw (Fault.notApplicable "report") }

/-- Six draws make the first population, the seventh lets the report fail. -/
def interruption : Script := ⟨[0, 0, 0, 0, 0, 0, 1]⟩

/-- The first step fails in its report, after the first population is there; the second one succeeds
with the population that the first has left. -/
theorem interrupted_never_half_built :
    let left := (interrupted.attempts interruption 1).1
    let next := (interrupted.attempts interruption 2).1
    (left.status = .running ∧ left.generation = 0 ∧ interrupted.Complete left.population ∧
        left.bestHistory.length = 1) ∧
      next.generation = 1 ∧ interrupted.Complete next.population ∧
      next.bestHistory.length = next.meanHistory.length := by
  intro left next
  obtain ⟨fault, fails⟩ : ∃ fault, Task.Fails interrupted.step (.fresh, interruption) fault
      (interrupted.attempts interruption 1) := Task.fails_of_not_isOk (by decide +kernel)
  obtain ⟨-, -, onFailure⟩ := attempts_never_half_built interrupted rfl interruption 0 _ _ rfl
  obtain ⟨progress, histories, -⟩ :=
    attempts_never_half_built interrupted rfl interruption 2 next _ rfl
  obtain ⟨running, kept⟩ := onFailure fault left _ fails
  refine ⟨⟨running, ?_⟩, by decide +kernel, ?_, histories⟩
  · have started : left.started = true := by decide +kernel
    rcases kept with ⟨-, -, idle⟩ | ⟨-, generation, -, complete, -⟩
    · cases started.symm.trans idle
    · exact ⟨generation, complete, by decide +kernel⟩
  · have started : next.started = true := by decide +kernel
    rcases progress with fresh | ⟨-, complete⟩
    · cases started.symm.trans (congrArg Evolution.started fresh)
    · exact complete

end Experiment

end PictureEvolution
