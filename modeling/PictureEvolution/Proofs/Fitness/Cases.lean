import PictureEvolution.Proofs.Evolution.Selection
import PictureEvolution.Proofs.Evolution.Solution
import PictureEvolution.Proofs.Evolution.Upkeep
import PictureEvolution.Proofs.Fitness.Penalty
import PictureEvolution.Proofs.Report.Rerun

/-!
# Cases

A scorer gives an individual an error for each section of the target, whatever its program has left:
more sections or fewer, no image, or nothing because the fuel did not suffice. So the individuals of
a population can always be compared case by case.
-/

namespace PictureEvolution

namespace Score

variable {x : Float} {p d : Score}

theorem approximable_missingPenalty : missingPenalty.Approximable := by decide +kernel

theorem distance_eq (x : Float) (p : Score) :
    distance (.real x) p = (Score.real x).toFloat.bind fun x =>
      p.toFloat.bind fun y => .ok (.real (x - y).abs) := by
  cases p with
  | int n => rfl
  | real y => rfl

/-- The distance from a double is the size of a double. -/
theorem exists_abs_of_distance (h : distance (.real x) p = .ok d) :
    ∃ y : Float, d = .real y.abs := by
  rw [distance_eq, toFloat, Except.bind] at h
  cases converted : p.toFloat with
  | error fault =>
    rw [converted] at h
    cases h
  | ok y =>
    rw [converted] at h
    cases h
    exact ⟨x - y, rfl⟩

theorem approximable_of_distance (h : distance (.real x) p = .ok d) : d.Approximable := by
  obtain ⟨y, rfl⟩ := exists_abs_of_distance h
  exact approximable_real _

/-- Case by case, there is a distance or the penalty. -/
theorem mem_distances {target produced errors : List Score}
    (h : distances target produced = .ok errors) :
    errors.length = target.length ∧
      ∀ e ∈ errors, e = missingPenalty ∨ ∃ t ∈ target, ∃ p, distance t p = .ok e := by
  induction target generalizing produced errors with
  | nil =>
    cases h
    exact ⟨rfl, nofun⟩
  | cons t rest ih =>
    cases produced with
    | nil =>
      cases h
      refine ⟨by simp, fun e he => .inl ?_⟩
      rcases List.mem_cons.mp he with rfl | he
      · rfl
      · obtain ⟨_, -, rfl⟩ := List.mem_map.mp he
        rfl
    | cons p produced =>
      rw [distances] at h
      cases first : distance t p with
      | error fault =>
        rw [first] at h
        cases h
      | ok d =>
        cases others : distances rest produced with
        | error fault =>
          rw [first, others] at h
          cases h
        | ok later =>
          rw [first, others] at h
          cases h
          obtain ⟨length, members⟩ := ih others
          refine ⟨congrArg Nat.succ length, fun e he => ?_⟩
          rcases List.mem_cons.mp he with rfl | he
          · exact .inr ⟨t, List.mem_cons_self, p, first⟩
          · rcases members e he with paid | ⟨t', ht', compared⟩
            · exact .inl paid
            · exact .inr ⟨t', List.mem_cons_of_mem t ht', compared⟩

end Score

namespace Scorer

section Errors

variable {expected : List Float} {produced : Option (List Score)} {errs : List Score}

theorem mem_errors (h : errors expected produced = .ok errs) :
    errs.length = expected.length ∧
      ∀ e ∈ errs, e = missingPenalty ∨ ∃ x p, Score.distance (.real x) p = .ok e := by
  cases produced with
  | none =>
    cases h
    refine ⟨List.length_map _, fun e he => .inl ?_⟩
    obtain ⟨_, -, rfl⟩ := List.mem_map.mp he
    rfl
  | some values =>
    obtain ⟨length, members⟩ := Score.mem_distances h
    refine ⟨length.trans (List.length_map _), fun e he => ?_⟩
    rcases members e he with paid | ⟨t, ht, p, compared⟩
    · exact .inl paid
    · obtain ⟨x, -, rfl⟩ := List.mem_map.mp ht
      exact .inr ⟨x, p, compared⟩

theorem approximable_of_errors (h : errors expected produced = .ok errs) :
    ∀ e ∈ errs, e.Approximable := by
  intro e he
  rcases (mem_errors h).2 e he with rfl | ⟨x, p, compared⟩
  · exact Score.approximable_missingPenalty
  · exact Score.approximable_of_distance compared

end Errors

variable {γ : Type}

theorem upholds_targetValues (s : Scorer γ) (target : Target) :
    Task.Upholds (fun w : Workspace γ => w.cache.Faithful s) (s.caseValues target.image = .ok ·)
      (Workspace.onCache (s.targetValues target)) where
  keeps _ faithful := (targetValues_of_faithful faithful target).2
  gives w values w' faithful yields := by
    obtain ⟨cache, looked, rfl⟩ := Workspace.yields_onCache.mp yields
    exact (targetValues_of_faithful faithful target).1.symm.trans (congrArg Prod.fst looked)

/-- Whatever its program does, who is scored has an error for each section of the target. -/
theorem upholds_evaluate (s : Scorer γ) (initial : State) (inputs : List Value) (target : Target)
    (i : Individual) : Task.Upholds (fun w : Workspace γ => w.cache.Faithful s)
      (Individual.Scored (target.image.sections s.grid).length)
      (s.evaluate initial inputs target i) := by
  refine (s.upholds_targetValues target).bind fun expected valued => ?_
  have ran : Task.Keeps (fun w : Workspace γ => w.cache.Faithful s)
      (Workspace.onSource (output s.instructions s.limit initial inputs i.program)) :=
    fun _ faithful => faithful
  refine (ran.upholds (.any _)).bind fun result _ => ?_
  split
  · exact .throw _
  · refine (Task.Upholds.ofScore fun errs found => found).bind fun errs found => ?_
    refine .ofScore fun j made => ?_
    obtain ⟨-, rfl, -⟩ := Individual.of_withErrors made
    refine ⟨?_, approximable_of_errors found⟩
    rw [(mem_errors found).1, s.length_of_caseValues valued]

/-- Who is scored pays the penalty exactly when the run for the score left nothing, as long as what
runs leave has the shape of the target. -/
theorem missingPenalty_mem_iff {s : Scorer γ} {initial : State} {inputs : List Value}
    {target : Target} {i j : Individual} {w w' : Workspace γ} {v : Option Value} {g : γ}
    {S : Nat → Nat → Prop} (h : (s.evaluate initial inputs target i).Yields w j w')
    (faithful : w.cache.Faithful s) (cases : 0 < (target.image.sections s.grid).length)
    (ran : (output s.instructions s.limit initial inputs i.program).Yields w.source v g)
    (shown : Presentable S v) (shapes : ∀ img, img.Admitted S → target.image.SameShape img) :
    missingPenalty ∈ j.errors ↔ v = none := by
  obtain ⟨expected, v', produced, valued, ran', known, counted, -⟩ := output_of_evaluate h
  obtain ⟨rfl, -⟩ := ran.unique ran'
  rw [(targetValues_of_faithful faithful target).1] at valued
  have length := s.length_of_caseValues valued
  cases v with
  | none =>
    cases known
    obtain paid : _ = j.errors := Except.ok.inj counted
    rw [← paid]
    exact iff_of_true (Score.missingPenalty_mem_penalties (length ▸ cases)) rfl
  | some u =>
    obtain ⟨img, rfl, admitted⟩ := shown u rfl
    obtain ⟨found, valued', rfl⟩ := s.producedValues_of_image known
    have same : expected.length = found.length := by
      rw [length, s.length_of_caseValues valued']
      exact (shapes img admitted).length_sections s.grid
    rw [errors, Score.distances_real same] at counted
    rw [← Except.ok.inj counted]
    exact iff_of_false (Score.missingPenalty_not_mem_reals _) nofun

end Scorer

theorem Reporter.keeps_faithful {γ : Type} (r : Reporter γ) (s : Scorer γ)
    (population : List Individual) (generation : Nat) :
    Task.Keeps (fun w => w.cache.Faithful s) (r.report population generation) := by
  intro w faithful
  rw [report_cache]
  exact faithful

namespace Experiment

variable {γ : Type} [Source γ]

/-- When evaluations score against a target with pixels, selection succeeds in every generation:
each individual has an error for each section of the target, of which there is one at least, and so
both parents of every child are selected, whatever the source answers. Only a tolerance that is too
large for a double is refused, as soon as there are two to choose from. -/
theorem scored_and_selected (x : Experiment (Workspace γ)) (s : Scorer γ) (initial : State)
    (inputs : List Value) (target : Target)
    (scores : x.evaluate = s.evaluate initial inputs target) (valid : x.config.validate = .ok ())
    (method : x.config.selectionMethod = .tournament ∨ x.config.selectionMethod = .lexicase)
    (tolerance : x.config.selectionMethod = .lexicase → 1 < x.config.populationSize →
      ∀ a ∈ x.config.epsilon, a.Approximable)
    (reports : ∀ population generation, Task.Keeps (fun w => w.cache.Faithful s)
      (x.report population generation))
    (height : 0 < target.image.height) (width : 0 < target.image.width)
    (w : Workspace γ) (faithful : w.cache.Faithful s) (st : Evolution × Workspace γ)
    (reached : x.Reached w st) :
    0 < (target.image.sections s.grid).length ∧
    (∀ i ∈ st.1.population, i.errors.length = (target.image.sections s.grid).length) ∧
    (st.1.started = true → ∀ w₁ : Workspace γ, ∃ parents w₂,
      (x.config.couple st.1.population).Yields w₁ parents w₂) := by
  have cases := Image.length_sections_pos height width s.grid_pos
  have answers : Source.Keeps fun w : Workspace γ => w.cache.Faithful s :=
    fun _ _ faithful => faithful
  obtain ⟨-, scored, size⟩ := reached.upholds
    (fun i => scores ▸ s.upholds_evaluate initial inputs target i) answers reports faithful
  refine ⟨cases, fun i hi => (scored i hi).length, fun started w₁ => ?_⟩
  obtain ⟨-, positive, -, -, tournamentSize⟩ := Config.validate_eq_ok_iff.mp valid
  have size := size started
  have inhabited : st.1.population ≠ [] := by
    rw [← List.length_pos_iff]
    omega
  have selects : x.config.Selects := ⟨tournamentSize, method, tolerance⟩
  obtain ⟨parents, w₂, selected, -⟩ :=
    Config.couple_succeeds selects cases inhabited (by omega) scored w₁
  exact ⟨parents, w₂, selected⟩

def lineReporter : Reporter Script := ⟨none, none, [], none, .steps 0, none⟩

/-- Two individuals whose programs are made of the elements of the noisy rows, and a tolerance. -/
def pairExperiment (epsilon : Score) : Experiment (Workspace Script) where
  config := { Config.standard with
    catalog := noisyRows.program, populationSize := 2, maxInitialProgramSize := 2,
    epsilon := some epsilon }
  evaluate := twentyStepScorer.evaluate flatState rampInputs rampTarget
  report population generation := lineReporter.report population generation

def pairAfterStep : Evolution × Workspace Script :=
  ((pairExperiment (.real (-1))).step (.fresh, .ofSource ⟨[1, 3]⟩)).2

theorem pair_scored_and_selected : pairAfterStep.1.generation = 1 ∧
    (∀ i ∈ pairAfterStep.1.population, i.errors.length = (rampTarget.image.sections 2).length) ∧
    ∃ parents w₂, Task.Yields
      ((pairExperiment (.real (-1))).config.couple pairAfterStep.1.population) pairAfterStep.2
        parents w₂ := by
  have tolerance : ∀ a ∈ some (Score.real (-1)), a.Approximable := by
    rintro _ ⟨⟩
    exact Score.approximable_real (-1)
  have reached : (pairExperiment (.real (-1))).Reached (.ofSource ⟨[1, 3]⟩) pairAfterStep :=
    .step .fresh
  obtain ⟨-, scored, selected⟩ := scored_and_selected (pairExperiment (.real (-1)))
    twentyStepScorer flatState rampInputs rampTarget rfl rfl (.inr rfl) (fun _ _ => tolerance)
    (lineReporter.keeps_faithful twentyStepScorer) (by decide) (by decide) (.ofSource ⟨[1, 3]⟩)
    nofun pairAfterStep reached
  exact ⟨by decide +kernel, scored, selected (by decide +kernel) pairAfterStep.2⟩

/-- A tolerance that is an integer beyond all doubles cannot be added to an error. -/
theorem selection_fails_of_huge_tolerance :
    ¬ ∀ (x : Experiment (Workspace Script)) (s : Scorer Script) (initial : State)
      (inputs : List Value) (target : Target), x.evaluate = s.evaluate initial inputs target →
      x.config.validate = .ok () →
      x.config.selectionMethod = .tournament ∨ x.config.selectionMethod = .lexicase →
      (∀ population generation, Task.Keeps (fun w => w.cache.Faithful s)
        (x.report population generation)) →
      0 < target.image.height → 0 < target.image.width →
      ∀ (w : Workspace Script), w.cache.Faithful s → ∀ st, x.Reached w st →
      st.1.started = true → ∀ w₁ : Workspace Script, ∃ parents w₂,
        (x.config.couple st.1.population).Yields w₁ parents w₂ := by
  intro claimed
  obtain ⟨parents, w₂, selected⟩ := claimed (pairExperiment (.int (10 ^ 400))) twentyStepScorer
    flatState rampInputs rampTarget rfl rfl (.inr rfl)
    (lineReporter.keeps_faithful twentyStepScorer) (by decide) (by decide) (.ofSource ⟨[]⟩)
    nofun _ (.start .fresh) (by decide +kernel) (.ofSource ⟨[]⟩)
  obtain ⟨fault, fails⟩ := Task.fails_of_not_isOk
    (t := (pairExperiment (.int (10 ^ 400))).config.couple
      ((pairExperiment (.int (10 ^ 400))).start (.fresh, .ofSource ⟨[]⟩)).2.1.population)
    (w := (.ofSource ⟨[]⟩ : Workspace Script)) (by decide +kernel)
  exact selected.not_fails fails

end Experiment

end PictureEvolution
