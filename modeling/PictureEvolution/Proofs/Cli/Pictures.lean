import PictureEvolution.Proofs.Cli.Reporting
import PictureEvolution.Proofs.Evolution.Evaluations
import PictureEvolution.Proofs.Fitness.Cases

/-!
# Pictures of the best programs

A report does not keep the image on which the best program was scored, but runs the program again.
The second run takes the same course: it leaves an image exactly when the first one did, and of the
same shape. Its pixels are the same when its draws get the same answers.
-/

namespace PictureEvolution.Cli

variable {γ : Type} [Source γ] {a : Arguments} {files : String → Option Found} {m : Material}
  {scorer : Scorer γ} {best : Individual}

theorem transcribed_rerun (a : Arguments) (m : Material) (limit : Limit) (best : Individual) :
    Task.Transcribed fun _ => rerun a m limit best := by
  simp only [rerun, instructionSet_eq_pictures]
  exact Scorer.transcribed_output _ _ _ _ _

def answersInRun (a : Arguments) (m : Material) (limit : Limit) (best : Individual) (source : γ) :
    List Nat :=
  Draw.answersTo (α := Except Fault (Option Value)) (fun _ => rerun a m limit best) source

theorem answersInRun_of_quiet {limit : Limit} (h : readMaterial a files = .ok m)
    (quiet : ∀ name ∈ Element.namesAll best.program, name ∉ drawingNames) (source : γ) :
    answersInRun a m limit best source = [] := by
  have silent : (rerun a m limit best : Task (Recorded γ) (Option Value)).Silent :=
    rerun_silent h quiet
  unfold answersInRun Draw.answersTo
  rw [silent]

/-- The picture of a report whose source was `reporting`, against the image on which the best
program was scored from the source `scoring`. -/
structure Reproduces (a : Arguments) (m : Material) (limit : Limit) (best : Individual)
    (scoring reporting : γ) (scored written : Option Image) : Prop where
  missing : scored = none ↔ written = none
  shape : ∀ img ∈ scored, ∀ img' ∈ written, img'.SameShape img
  /-- A run that gets the same answers leaves the same. In particular so does one that gets none. -/
  same : answersInRun a m limit best scoring <+: answersInRun a m limit best reporting →
    written = scored
  quiet : (∀ name ∈ Element.namesAll best.program, name ∉ drawingNames) → written = scored

theorem reproduces_of_runs {limit : Limit} (h : readMaterial a files = .ok m)
    {scoring reporting g g' : γ} {scored written : Option Image}
    (ran : (rerun a m limit best).Yields scoring (scored.map .image) g)
    (again : (rerun a m limit best).Yields reporting (written.map .image) g') :
    Reproduces a m limit best scoring reporting scored written := by
  obtain ⟨v, g'', again', alike⟩ := rerun_again h ran reporting
  obtain ⟨rfl, -⟩ := again'.unique again
  obtain ⟨missing, shape⟩ := alike.of_images
  have same (begins : answersInRun a m limit best scoring <+:
      answersInRun a m limit best reporting) : written = scored := by
    have determined : (rerun a m limit best scoring).1 = (rerun a m limit best reporting).1 :=
      (transcribed_rerun a m limit best).determined begins
    rw [show rerun a m limit best scoring = _ from ran,
      show rerun a m limit best reporting = _ from again] at determined
    exact Option.map_injective (fun _ _ => Value.image.inj) (Except.ok.inj determined).symm
  refine ⟨missing, shape, same, fun quiet => same ?_⟩
  rw [answersInRun_of_quiet h quiet]
  exact List.nil_prefix

/-- Everybody in a reported population was scored by an evaluation of the run. -/
theorem scored_of_reported {source : γ} {j : Nat} {e : Evolution} {w : Workspace γ}
    (reported : (experiment a m scorer).ReportsAt (.fresh, .ofSource source) j e w) :
    ∃ log, log.source = w ∧
      (experiment a m scorer).observed.ReportsAt (.fresh, .of (.ofSource source)) j e log ∧
      ∀ k ∈ e.population, ∃ v ∈ log.evaluations, v.before.cache.Faithful scorer ∧
        ((experiment a m scorer).evaluate v.given).Yields v.before k v.after := by
  have evaluations (i : Individual) : Task.Keeps (fun w : Workspace γ => w.cache.Faithful scorer)
      ((experiment a m scorer).evaluate i) :=
    (scorer.upholds_evaluate m.state m.values ⟨0, m.target⟩ i).keeps
  have answers : Source.Keeps fun w : Workspace γ => w.cache.Faithful scorer :=
    fun _ _ faithful => faithful
  have reports (population : List Individual) (generation : Nat) :
      Task.Keeps (fun w : Workspace γ => w.cache.Faithful scorer)
        ((experiment a m scorer).report population generation) :=
    (reporter a m scorer.limit).keeps_faithful scorer population generation
  obtain ⟨log, same, observed⟩ := reported.observed
  have logged := observed.reached.logged evaluations answers reports nofun
  refine ⟨log, same, observed, fun k hk => ?_⟩
  obtain ⟨v, hv, result⟩ := logged.population k hk
  obtain ⟨faithful, made⟩ := logged.log.2 v hv
  rw [result] at made
  exact ⟨v, hv, faithful, made⟩

section Scored

variable {determinant : List (List Float) → Float} {horizon : Nat}
  (h : readMaterial a files = .ok m)
  (made : Scorer.make (instructionSet a m.inputs.length) a.grid (limit horizon a) determinant =
    .ok scorer)

include h made

/-- Who is scored has left an image, or nothing and pays the penalty. -/
theorem scored_of_evaluate {i : Individual} {work scoredBy : Workspace γ}
    (faithful : work.cache.Faithful scorer)
    (scores : ((experiment a m scorer).evaluate i).Yields work best scoredBy) :
    ∃ scored : Option Image,
      (rerun a m scorer.limit best).Yields work.source (scored.map .image) scoredBy.source ∧
        (scored = none ↔ missingPenalty ∈ best.errors) := by
  obtain ⟨square, -⟩ := readMaterial_admitted h
  obtain ⟨-, v, -, -, ran, -, -, program⟩ := Scorer.output_of_evaluate scores
  have once := rerun_of_output made ran program
  obtain ⟨v', g, twice, alike⟩ := rerun_again h once work.source
  obtain ⟨rfl, -⟩ := twice.unique once
  have pixels := square.2.hasPixels
  have cases := Image.length_sections_pos pixels.1 pixels.2 scorer.grid_pos
  have missing := Scorer.missingPenalty_mem_iff scores faithful cases ran alike.presentable
    fun img admitted => square.sameShape admitted
  obtain ⟨scored, rfl⟩ := alike.presentable.exists_image
  exact ⟨scored, once, by rw [missing, Option.map_eq_none_iff]⟩

end Scored

/-- In a report with a directory, and pictures in their own size, the best program is run again, and
what it leaves is kept. It leaves nothing exactly when the best individual has the penalty for
missing values. Whenever the individual was scored, the picture reproduces what it was scored on. -/
theorem picture_of_best {determinant : List (List Float) → Float} {horizon : Nat}
    (h : readMaterial a files = .ok m)
    (made : Scorer.make (instructionSet a m.inputs.length) a.grid (limit horizon a) determinant =
      .ok scorer)
    (kept : a.resultsDir.isEmpty = false) (own : a.reportSize ≤ 0) {source : γ} {j : Nat}
    {e : Evolution} {w : Workspace γ}
    (reported : (experiment a m scorer).ReportsAt (.fresh, .ofSource source) j e w) {s : Summary}
    (hs : Summary.ofPopulation e.population e.generation = .ok s)
    (hb : Population.best e.population = .ok best) :
    ∃ (written : Option Image) (after : Workspace γ),
      ((experiment a m scorer).report e.population e.generation).Yields w () after ∧
      (rerun a m scorer.limit best).Yields w.source (written.map .image) after.source ∧
      after.journal.files = Reporter.picturesAfter (normalize a.resultsDir) e.generation
        w.journal.files written ∧
      (written = none ↔ missingPenalty ∈ best.errors) ∧
      (∃ log, log.source = w ∧
        (experiment a m scorer).observed.ReportsAt (.fresh, .of (.ofSource source)) j e log ∧
        ∃ v ∈ log.evaluations, v.before.cache.Faithful scorer ∧
          ((experiment a m scorer).evaluate v.given).Yields v.before best v.after) ∧
      ∀ i work scoredBy, work.cache.Faithful scorer →
        ((experiment a m scorer).evaluate i).Yields work best scoredBy →
          ∃ scored : Option Image,
            (rerun a m scorer.limit best).Yields work.source (scored.map .image) scoredBy.source ∧
              Reproduces a m scorer.limit best work.source w.source scored written := by
  obtain ⟨log, same, observed, told⟩ := scored_of_reported reported
  obtain ⟨v, hv, faithful, scores⟩ := told best (Population.mem_of_best hb)
  obtain ⟨scored, once, penalty⟩ := scored_of_evaluate h made faithful scores
  obtain ⟨u, g, again, alike⟩ := rerun_again h once w.source
  obtain ⟨written, rfl⟩ := alike.presentable.exists_image
  have missing := (reproduces_of_runs h once again).missing
  have reran : ((reporter a m scorer.limit : Reporter γ).rerun best).Yields w.source
      (written.map .image) g := by
    rwa [rerun_reporter, if_neg (by simp [kept])]
  obtain ⟨after, reports, rfl, files⟩ := Reporter.report_of_rerun
    (if_neg (by simp [kept])) (if_neg (by omega)) hs hb reran
  refine ⟨written, after, reports, again, files, missing.symm.trans penalty,
    ⟨log, same, observed, v, hv, faithful, scores⟩, fun i work scoredBy faithful scores => ?_⟩
  obtain ⟨scored, once, -⟩ := scored_of_evaluate h made faithful scores
  exact ⟨scored, once, reproduces_of_runs h once again⟩

def fourPixels : Image := .ofFn 2 2 (.channels 3) fun y x _ => (2 * y + x).toUInt8

def turning : Arguments := { miniature with size := 2, maxInitialProgramSize := 1 }

def turningMaterial : Material := ⟨none, fourPixels, [fourPixels]⟩

def turningExperiment : Experiment (Workspace Script) :=
  experiment turning turningMaterial miniatureScorer

def turner : Individual := .ofProgram [.instruction Filter.rotate.name]

/-- The program is drawn with two answers, and its run for the score turns the whole picture with
the other four. -/
def turningSource : Script := ⟨[0, 13, 0, 0, 1, 0]⟩

def turned : Evolution × Workspace Script :=
  (turningExperiment.begun (.fresh, .ofSource turningSource)).2

theorem turned_begun :
    Task.Yields turningExperiment.begun (.fresh, .ofSource turningSource) () turned := by
  obtain ⟨⟨⟩, begins⟩ := Task.yields_of_isOk (t := turningExperiment.begun)
    (w := (.fresh, .ofSource turningSource)) (by decide +kernel)
  exact begins

theorem turned_summary :
    ∃ s, Summary.ofPopulation turned.1.population turned.1.generation = .ok s := by
  have summed : (Summary.ofPopulation turned.1.population turned.1.generation).isOk = true := by
    decide +kernel
  cases hs : Summary.ofPopulation turned.1.population turned.1.generation with
  | ok s => exact ⟨s, rfl⟩
  | error fault =>
    rw [hs] at summed
    cases summed

theorem turned_reported :
    turningExperiment.ReportsAt (.fresh, .ofSource turningSource) 0 turned.1 turned.2 :=
  ⟨.fresh, .ofSource turningSource, rfl, rfl, turned_begun⟩

theorem picture_of_turned :
    readMaterial turning (fun _ => some (.picture fourPixels)) = .ok turningMaterial ∧
    Scorer.make (instructionSet turning turningMaterial.inputs.length) turning.grid
      (limit 0 turning) Matrix.determinant = .ok (miniatureScorer : Scorer Script) ∧
    turning.resultsDir.isEmpty = false ∧ turning.reportSize ≤ 0 ∧
    turningExperiment.ReportsAt (.fresh, .ofSource turningSource) 0 turned.1 turned.2 ∧
    ∃ s best, Summary.ofPopulation turned.1.population turned.1.generation = .ok s ∧
      Population.best turned.1.population = .ok best ∧
      ∃ (written : Option Image) (after : Workspace Script),
        (turningExperiment.report turned.1.population turned.1.generation).Yields turned.2 ()
          after ∧
        (written = none ↔ missingPenalty ∈ best.errors) := by
  have read : readMaterial turning (fun _ => some (.picture fourPixels)) =
      .ok turningMaterial := rfl
  have made : Scorer.make (instructionSet turning turningMaterial.inputs.length) turning.grid
      (limit 0 turning) Matrix.determinant = .ok (miniatureScorer : Scorer Script) := rfl
  obtain ⟨s, hs⟩ := turned_summary
  refine ⟨read, made, by decide, by decide, turned_reported, ?_⟩
  cases hb : Population.best turned.1.population with
  | error fault => simp [Summary.ofPopulation, hb, Bind.bind, Except.bind] at hs
  | ok best =>
    obtain ⟨written, after, reports, -, -, missing, -⟩ :=
      picture_of_best read made (by decide) (by decide) turned_reported hs hb
    exact ⟨s, best, hs, rfl, written, after, reports, missing⟩

/-- The only individual is scored with the answers that are left of the source. -/
theorem turned_scored : ∃ best, turned.1.population = [best] ∧
    (turningExperiment.evaluate turner).Yields (.ofSource ⟨[0, 0, 1, 0]⟩) best turned.2 := by
  obtain ⟨started, -⟩ | ⟨-, starts⟩ := Experiment.yields_begun.mp
    (show Task.Yields turningExperiment.begun _ () (turned.1, turned.2) from turned_begun)
  · cases started
  · obtain ⟨population, built, same⟩ := Experiment.yields_start.mp starts
    obtain ⟨drawn, work, draws, evaluates⟩ := Task.yields_bind.mp built
    have first : (turningExperiment.config.catalog.population
        turningExperiment.config.maxInitialProgramSize
        turningExperiment.config.populationSize.toNat).Yields (.ofSource turningSource) [turner]
          (.ofSource ⟨[0, 0, 1, 0]⟩ : Workspace Script) := rfl
    obtain ⟨rfl, rfl⟩ := draws.unique first
    obtain ⟨best, scoredBy, scores, rest⟩ := Task.yields_bind.mp evaluates
    obtain ⟨others, _, none, alone⟩ := Task.yields_bind.mp rest
    obtain ⟨rfl, rfl⟩ := Task.yields_pure.mp none
    obtain ⟨rfl, rfl⟩ := Task.yields_pure.mp alone
    exact ⟨best, by rw [same], scores⟩

/-- A report can keep another picture than the one on which the best individual was scored: the
second run turns a smaller square. -/
theorem picture_of_turned_differs :
    ∃ (best : Individual) (after : Workspace Script) (scored written : Image),
      turningExperiment.ReportsAt (.fresh, .ofSource turningSource) 0 turned.1 turned.2 ∧
      Population.best turned.1.population = .ok best ∧
      (turningExperiment.evaluate turner).Yields (.ofSource ⟨[0, 0, 1, 0]⟩) best turned.2 ∧
      (rerun turning turningMaterial (.steps 1) turner).Yields ⟨[0, 0, 1, 0]⟩ (some (.image scored))
        turned.2.source ∧
      (turningExperiment.report turned.1.population turned.1.generation).Yields turned.2 () after ∧
      after.journal.files.get? "pictures/gen000.png" = some written ∧ written ≠ scored := by
  obtain ⟨best, alone, scores⟩ := turned_scored
  have chosen : Population.best turned.1.population = .ok best := by
    rw [alone]
    rfl
  obtain ⟨-, v, -, -, ran, -, -, program⟩ := Scorer.output_of_evaluate scores
  have once : (rerun turning turningMaterial (.steps 1) turner).Yields (⟨[0, 0, 1, 0]⟩ : Script)
      (some (.image fourPixels.rotate)) ⟨[]⟩ := rfl
  have left : turned.2.source = ⟨[]⟩ := (ran.unique once).2
  have again : ((reporter turning turningMaterial (.steps 1) : Reporter Script).rerun best).Yields
      turned.2.source ((some fourPixels).map .image) ⟨[]⟩ := by
    rw [left]
    show (Scorer.output _ _ _ _ best.program).Yields _ _ _
    rw [program]
    rfl
  have directory : (reporter turning turningMaterial (.steps 1) : Reporter Script).directory =
      some "pictures" := by decide +kernel
  obtain ⟨s, hs⟩ := turned_summary
  obtain ⟨after, reports, -, files⟩ := Reporter.report_of_rerun directory rfl hs chosen again
  have name : Reporter.fileName "pictures" turned.1.generation = "pictures/gen000.png" := by
    decide +kernel
  refine ⟨best, after, _, fourPixels, turned_reported, chosen, scores, left ▸ once, reports, ?_,
    by decide +kernel⟩
  rw [files, Reporter.picturesAfter, name, Table.get?_insert_self]

end PictureEvolution.Cli
