import PictureEvolution.Proofs.Evolution.Runs

/-!
# Observed evolutions

To speak about what an evolution evaluated and reported, its source is put beside a log. The
observed experiment writes into the log and does on the source what the experiment does, so it has
the same outcome and leaves the same evolution and source.
-/

namespace PictureEvolution

/-- An evaluation of an individual: where the source was before and after it, and what it came
to. -/
structure Evaluation (ω : Type) where
  given : Individual
  before : ω
  result : Except Fault Individual
  after : ω

/-- A source beside a log of what was evaluated and what was reported, in order. -/
structure Observed (ω : Type) where
  source : ω
  evaluations : List (Evaluation ω)
  reports : List (List Individual × Nat)

namespace Observed

variable {ω α : Type}

def of (w : ω) : Observed ω := ⟨w, [], []⟩

def evaluated (o : Observed ω) : List Individual := o.evaluations.map (·.given)

@[simp] theorem length_evaluated (o : Observed ω) : o.evaluated.length = o.evaluations.length :=
  List.length_map _

instance [Source ω] : Source (Observed ω) where
  answer q o :=
    let (a, w) := Source.answer q o.source
    (a, { o with source := w })

def lift (t : Task ω α) : Task (Observed ω) α := fun o =>
  let (a, w) := t o.source
  (a, { o with source := w })

def log (f : Observed ω → Observed ω) : Task (Observed ω) Unit := fun o => (.ok (), f o)

/-- The state holds this source and the log of another state. -/
def Beside (o : Observed ω) (o' : Observed ω) (w : ω) : Prop := o' = { o with source := w }

theorem agree_source [Source ω] :
    Source.Agree fun (o : Observed ω) w => o.source = w := by
  rintro q o w rfl
  exact ⟨rfl, rfl⟩

theorem agree_beside [Source ω] (o : Observed ω) : Source.Agree (Beside o) := by
  rintro q o' w rfl
  exact ⟨rfl, rfl⟩

theorem lift_agree (t : Task ω α) : Task.Agree (fun o w => o.source = w) (lift t) t := by
  rintro o w rfl
  exact ⟨rfl, rfl⟩

theorem log_agree {f : Observed ω → Observed ω} (keeps : ∀ o, (f o).source = o.source) :
    Task.Agree (fun o w => o.source = w) (log f) (pure ()) := by
  rintro o w rfl
  exact ⟨rfl, keeps o⟩

section Outcome

variable {t : Task ω α} {f : Observed ω → Observed ω} {o o' : Observed ω} {a : α} {u : Unit}

theorem lift_log (h : (lift t).Yields o a o') : o' = { o with source := o'.source } := by
  have next : (lift t o).2 = o' := h.snd
  rw [← next]
  rfl

@[simp] theorem yields_log : (log f).Yields o u o' ↔ o' = f o := by
  constructor
  · intro h
    exact (congrArg Prod.snd h).symm
  · rintro rfl
    rfl

/-- What only draws does not write into the log. -/
theorem log_of_agree [Source ω] {t : Task (Observed ω) α} {t' : Task ω α}
    (h : ∀ o, Task.Agree (Beside o) t t') (ht : t.Yields o a o') :
    o' = { o with source := o'.source } := by
  obtain ⟨w', -, related⟩ := (h o).yields (show Beside o o o.source from rfl) ht
  rw [related]

end Outcome

section Keeps

variable {I : Observed ω → Prop} (frame : ∀ o w, I o → I { o with source := w })

include frame

theorem keeps_lift (t : Task ω α) : (lift t).Keeps I :=
  fun o holds => frame o (t o.source).2 holds

theorem keeps_of_agree [Source ω] {t : Task (Observed ω) α} {t' : Task ω α}
    (h : ∀ o, Task.Agree (Beside o) t t') : t.Keeps I := by
  intro o holds
  have beside : (t o).2 = { o with source := (t' o.source).2 } := (h o o o.source rfl).2
  rw [beside]
  exact frame o _ holds

end Keeps

end Observed

namespace Experiment

variable {ω : Type} (x : Experiment ω)

/-- The experiment that logs each individual it evaluates and each population it reports. -/
def observed : Experiment (Observed ω) where
  config := x.config
  evaluate i := fun o =>
    let (result, w) := x.evaluate i o.source
    (result, { o with
      source := w
      evaluations := o.evaluations ++ [⟨i, o.source, result, w⟩] })
  report population generation := do
    Observed.log fun o => { o with reports := o.reports ++ [(population, generation)] }
    Observed.lift (x.report population generation)

theorem agree_observed_evaluate (i : Individual) :
    Task.Agree (fun o w => o.source = w) (x.observed.evaluate i) (x.evaluate i) := by
  rintro o w rfl
  exact ⟨rfl, rfl⟩

theorem agree_observed_report (population : List Individual) (generation : Nat) :
    Task.Agree (fun o w => o.source = w) (x.observed.report population generation)
      (x.report population generation) := by
  have logged := Observed.log_agree (f := fun o : Observed ω =>
    { o with reports := o.reports ++ [(population, generation)] }) fun _ => rfl
  exact logged.bind fun _ => Observed.lift_agree _

variable {x} [Source ω]

/-- The observed experiment takes the same steps. -/
theorem agree_observed_steps (count : Nat) :
    Task.Agree (Progress.Along fun (o : Observed ω) w => o.source = w) (x.observed.steps count)
      (x.steps count) :=
  agree_steps Observed.agree_source rfl (agree_observed_evaluate x) (agree_observed_report x) count

theorem Reached.observed {st : Evolution × ω} {w : ω} (h : x.Reached w st) :
    ∃ o : Observed ω, o.source = st.2 ∧ x.observed.Reached (.of w) (st.1, o) := by
  induction h with
  | fresh => exact ⟨.of w, rfl, .fresh⟩
  | @start st _ ih =>
    obtain ⟨o, same, reached⟩ := ih
    obtain ⟨-, evolution, source⟩ := agree_start Observed.agree_source (x := x.observed) (y := x)
      rfl (agree_observed_evaluate x) (st.1, o) st ⟨rfl, same⟩
    refine ⟨_, source, ?_⟩
    rw [← evolution]
    exact reached.start
  | @step st _ ih =>
    obtain ⟨o, same, reached⟩ := ih
    obtain ⟨-, evolution, source⟩ := agree_step Observed.agree_source (x := x.observed) (y := x) rfl
      (agree_observed_evaluate x) (agree_observed_report x) (st.1, o) st ⟨rfl, same⟩
    refine ⟨_, source, ?_⟩
    rw [← evolution]
    exact reached.step

/-- The observed evolution reports the same population, with a log beside the same source. -/
theorem ReportsAt.observed {w w' : ω} {e : Evolution} {count : Nat}
    (h : x.ReportsAt (.fresh, w) count e w') :
    ∃ o : Observed ω, o.source = w' ∧ x.observed.ReportsAt (.fresh, .of w) count e o := by
  obtain ⟨e₀, w₀, taken, running, begins⟩ := h
  obtain ⟨⟨_, o₀⟩, taken', rfl, source⟩ :=
    (agree_observed_steps count).symm.yields (g := (.fresh, .of w)) ⟨rfl, rfl⟩ taken
  obtain ⟨⟨_, o⟩, begins', rfl, same⟩ :=
    (agree_begun Observed.agree_source (x := x.observed) (y := x) rfl
      (agree_observed_evaluate x)).symm.yields ⟨rfl, source⟩ begins
  exact ⟨o, same, _, o₀, taken', running, begins'⟩

section Log

variable {is js : List Individual} {o o' : Observed ω}

omit [Source ω] in
theorem observed_evaluate_log {i j : Individual} (h : (x.observed.evaluate i).Yields o j o') :
    o' = { o with
      source := o'.source
      evaluations := o.evaluations ++ [⟨i, o.source, .ok j, o'.source⟩] } := by
  have result : (x.evaluate i o.source).1 = .ok j := congrArg Prod.fst h
  have next : (x.observed.evaluate i o).2 = o' := h.snd
  rw [← next, ← result]
  rfl

omit [Source ω] in
theorem observed_report_log {population : List Individual} {generation : Nat}
    (h : (x.observed.report population generation).Yields o () o') :
    o' = { o with source := o'.source, reports := o.reports ++ [(population, generation)] } := by
  obtain ⟨_, o₁, logged, lifted⟩ := Task.yields_bind.mp h
  rw [Observed.yields_log.mp logged] at lifted
  exact Observed.lift_log lifted

omit [Source ω] in
/-- A list of individuals is evaluated to the results of as many further evaluations. -/
theorem observed_evaluateAll_log (h : (x.observed.evaluateAll is).Yields o js o') :
    ∃ made : List (Evaluation ω), made.map (·.result) = js.map .ok ∧
      o' = { o with source := o'.source, evaluations := o.evaluations ++ made } := by
  induction is generalizing o js with
  | nil =>
    obtain ⟨rfl, rfl⟩ := Task.yields_pure.mp h
    exact ⟨[], rfl, by rw [List.append_nil]⟩
  | cons i rest ih =>
    obtain ⟨j, o₁, evaluated, h⟩ := Task.yields_bind.mp h
    obtain ⟨js, o₂, others, h⟩ := Task.yields_bind.mp h
    obtain ⟨rfl, rfl⟩ := Task.yields_pure.mp h
    have first := observed_evaluate_log evaluated
    obtain ⟨made, results, later⟩ := ih others
    rw [first, List.append_assoc] at later
    exact ⟨_ :: made, congrArg _ results, later⟩

theorem observed_firstPopulation_log (h : x.observed.firstPopulation.Yields o js o') :
    js.length = x.config.populationSize.toNat ∧
      ∃ made : List (Evaluation ω), made.map (·.result) = js.map .ok ∧
        o' = { o with source := o'.source, evaluations := o.evaluations ++ made } := by
  obtain ⟨is, o₁, drawn, evaluated⟩ := Task.yields_bind.mp h
  have silent : o₁ = { o with source := o₁.source } :=
    Observed.log_of_agree (fun o => Catalog.agree_population (Observed.agree_beside o) _ _ _) drawn
  obtain ⟨made, results, logged⟩ := observed_evaluateAll_log evaluated
  have size := evaluateAll_length is _ _ _ evaluated
  rw [silent] at logged
  exact ⟨size.trans (Catalog.population_length _ _ _ _ _ _ drawn), made, results, logged⟩

theorem observed_nextPopulation_log {population : List Individual}
    (h : (x.observed.nextPopulation population).Yields o js o') :
    js.length = x.config.populationSize.toNat ∧
      ∃ made : List (Evaluation ω), made.map (·.result) = js.map .ok ∧
        o' = { o with source := o'.source, evaluations := o.evaluations ++ made } := by
  obtain ⟨is, o₁, drawn, evaluated⟩ := Task.yields_bind.mp h
  have silent : o₁ = { o with source := o₁.source } :=
    Observed.log_of_agree (fun o => Config.agree_children (Observed.agree_beside o) _ _) drawn
  obtain ⟨made, results, logged⟩ := observed_evaluateAll_log evaluated
  have size := evaluateAll_length is _ _ _ evaluated
  rw [silent] at logged
  exact ⟨size.trans (Config.childrenOf_length _ _ _ _ _ _ drawn), made, results, logged⟩

end Log

end Experiment

end PictureEvolution
