import PictureEvolution.Cli.Launch
import PictureEvolution.Fitness.Determinant
import PictureEvolution.Proofs.Report.Rerun
import PictureEvolution.Random.Twister

/-!
# Reports beside an evolution

How far the options for pictures reach into an evolution. Where and how large pictures are kept does
not matter to it. Whether they are kept matters only through the second runs of the best programs:
as long as those leave the source as it was, the evolution is the one without pictures.
-/

namespace PictureEvolution

namespace Image

theorem resizeWidth_shape (width : Nat) (img : Image) :
    (resizeWidth width img).height = img.height ∧ (resizeWidth width img).width = width ∧
      (resizeWidth width img).layout = img.layout := by
  unfold resizeWidth
  split
  next same => exact ⟨rfl, same.symm, rfl⟩
  next => exact ⟨rfl, rfl, rfl⟩

theorem resizeHeight_shape (height : Nat) (img : Image) :
    (resizeHeight height img).height = height ∧ (resizeHeight height img).width = img.width ∧
      (resizeHeight height img).layout = img.layout := by
  unfold resizeHeight
  split
  next same => exact ⟨same.symm, rfl, rfl⟩
  next => exact ⟨rfl, rfl, rfl⟩

def IsSquare (side height width : Nat) : Prop := 0 < side ∧ height = side ∧ width = side

theorem IsSquare.hasPixels {side height width : Nat} (h : IsSquare side height width) :
    HasPixels height width := by
  obtain ⟨positive, rfl, rfl⟩ := h
  exact ⟨positive, positive⟩

theorem Admitted.sameShape {side : Nat} {a b : Image} (ha : a.Admitted (IsSquare side))
    (hb : b.Admitted (IsSquare side)) : a.SameShape b :=
  ⟨ha.2.2.1.trans hb.2.2.1.symm, ha.2.2.2.trans hb.2.2.2.symm, ha.1.trans hb.1.symm⟩

theorem resizeCubic?_shape {size : Int} {img resized : Image}
    (h : img.resizeCubic? size size = some resized) :
    IsSquare size.toNat resized.height resized.width ∧ resized.layout = img.layout := by
  unfold resizeCubic? at h
  split at h
  · cases h
  next positive =>
    dsimp only at h
    split at h
    · cases h
      obtain ⟨hh, hw, hl⟩ := resizeWidth_shape size.toNat (resizeHeight size.toNat img)
      obtain ⟨hh', hw', hl'⟩ := resizeHeight_shape size.toNat img
      exact ⟨⟨by omega, hh.trans hh', hw⟩, hl.trans hl'⟩
    · cases h
      obtain ⟨hh, hw, hl⟩ := resizeHeight_shape size.toNat (resizeWidth size.toNat img)
      obtain ⟨hh', hw', hl'⟩ := resizeWidth_shape size.toNat img
      exact ⟨⟨by omega, hh, hw.trans hw'⟩, hl.trans hl'⟩

end Image

namespace Cli

variable {a : Arguments} {files : String → Option Found} {m : Material}

theorem load_admitted {size : Int} {path : String} {img : Image}
    (h : load files size path = .ok img) : img.Admitted (Image.IsSquare size.toNat) := by
  unfold load at h
  split at h
  · split at h
    next resized some =>
      cases h
      obtain ⟨square, layout⟩ := Image.resizeCubic?_shape some
      exact ⟨layout, square⟩
    · cases h
  · cases h

/-- The pictures are brought to one square shape. -/
theorem readMaterial_admitted (h : readMaterial a files = .ok m) :
    m.target.Admitted (Image.IsSquare a.size.toNat) ∧
      ∀ img ∈ m.inputs, img.Admitted (Image.IsSquare a.size.toNat) := by
  unfold readMaterial at h
  cases he : readEpsilon a.epsilon with
  | error reason => simp [he, Bind.bind, Except.bind] at h
  | ok epsilon =>
    cases ht : load files a.size (a.target.getD "") with
    | error reason => simp [he, ht, Bind.bind, Except.bind] at h
    | ok target =>
      cases hi : a.inputs.mapM (load files a.size) with
      | error reason => simp [he, ht, hi, Bind.bind, Except.bind] at h
      | ok inputs =>
        rw [he, ht, hi] at h
        cases h
        refine ⟨load_admitted ht, fun img member => ?_⟩
        obtain ⟨path, -, read⟩ := mem_of_mapM hi member
        exact load_admitted read

variable {γ : Type} [Source γ]

theorem instructionSet_eq_pictures (a : Arguments) (count : Nat) :
    (instructionSet a count : InstructionSet γ) =
      InstructionSet.pictures (if a.inputInstructions then count else 0) := by
  unfold instructionSet InstructionSet.pictures
  by_cases given : a.inputInstructions = true
  · rw [if_pos given, if_pos given]
  · rw [if_neg given, if_neg given]
    simp [Action.inputs, Table.insertAll]

theorem pictured_material (h : readMaterial a files = .ok m) :
    (m.state.loadInputs m.values).Pictured (Image.IsSquare a.size.toNat) :=
  (State.Pictured.empty.loadImages (readMaterial_admitted h).2).loadInputs
    (readMaterial_admitted h).2

omit [Source γ] in
theorem instructions_of_make {set : InstructionSet γ} {grid : Int} {limit : Limit}
    {determinant : List (List Float) → Float} {scorer : Scorer γ}
    (h : Scorer.make set grid limit determinant = .ok scorer) : scorer.instructions = set := by
  unfold Scorer.make at h
  split at h
  · cases h
    rfl
  · cases h

def rerun (a : Arguments) (m : Material) (limit : Limit) (best : Individual) :
    Task γ (Option Value) :=
  Scorer.output (instructionSet a m.inputs.length) limit m.state m.values best.program

theorem rerun_reporter (a : Arguments) (m : Material) (limit : Limit) (best : Individual) :
    (reporter a m limit : Reporter γ).rerun best =
      if a.resultsDir.isEmpty then pure none else rerun a m limit best := by
  unfold Reporter.rerun reporter
  by_cases empty : a.resultsDir.isEmpty = true
  · simp only [if_pos empty]
  · simp only [if_neg empty]
    rfl

theorem sized_reporter (a : Arguments) (m : Material) (limit : Limit) :
    (reporter a m limit : Reporter γ).Sized := by
  intro width height h
  unfold reporter at h
  dsimp only at h
  split at h
  · cases h
    constructor <;> assumption
  · cases h

/-- The source after a report, from the one before it: with pictures, the run of the best program
is all that draws from it. -/
def sourceAfter (a : Arguments) (m : Material) (limit : Limit) (population : List Individual)
    (generation : Nat) (source : γ) : γ :=
  match Summary.ofPopulation population generation, Population.best population with
  | .ok _, .ok best => if a.resultsDir.isEmpty then source else (rerun a m limit best source).2
  | _, _ => source

theorem sourceAfter_of_summary {limit : Limit} {population : List Individual} {generation : Nat}
    {s : Summary} {best : Individual} (hs : Summary.ofPopulation population generation = .ok s)
    (hb : Population.best population = .ok best) (source : γ) :
    sourceAfter a m limit population generation source =
      ((reporter a m limit : Reporter γ).rerun best source).2 := by
  unfold sourceAfter
  rw [hs, hb, rerun_reporter]
  dsimp only
  split <;> rfl

variable {scorer : Scorer γ}

theorem report_source (population : List Individual) (generation : Nat) (w : Workspace γ) :
    ((experiment a m scorer).report population generation w).2.source =
        sourceAfter a m scorer.limit population generation w.source ∧
      ((experiment a m scorer).report population generation w).2.cache = w.cache := by
  obtain ⟨s, best, hs, hb⟩ | ⟨unsummed, fault, refused⟩ :=
    Reporter.summed_or_refused γ population generation
  · rw [sourceAfter_of_summary hs hb]
    exact Reporter.report_work hs hb w
  · have same : (experiment a m scorer).report population generation w = (.error fault, w) :=
      congrFun (refused (reporter a m scorer.limit)) w
    rw [same]
    refine ⟨?_, rfl⟩
    unfold sourceAfter
    split
    next s best hs hb => exact absurd hb (unsummed s best hs)
    · rfl

theorem rerun_silent {limit : Limit} (h : readMaterial a files = .ok m) {best : Individual}
    (quiet : ∀ name ∈ Element.namesAll best.program, name ∉ drawingNames) :
    (rerun a m limit best : Task γ (Option Value)).Silent := by
  unfold rerun
  rw [instructionSet_eq_pictures]
  exact Scorer.output_silent (fun _ _ => Image.IsSquare.hasPixels) (pictured_material h) quiet

/-- Reports of populations whose best program mentions no drawing instruction are silent. -/
theorem sourceAfter_of_quiet {limit : Limit} (h : readMaterial a files = .ok m)
    {population : List Individual} {generation : Nat}
    (quiet : ∀ best, Population.best population = .ok best →
      ∀ name ∈ Element.namesAll best.program, name ∉ drawingNames) (source : γ) :
    sourceAfter a m limit population generation source = source := by
  unfold sourceAfter
  split
  next s best hs hb =>
    split
    · rfl
    · exact rerun_silent h (quiet best hb) source
  · rfl

/-- The first reports leave the source as it was. -/
def Quiet (a : Arguments) (m : Material) (scorer : Scorer γ) (source : γ) (count : Nat) : Prop :=
  ∀ j < count, ∀ e w, (experiment a m scorer).ReportsAt (.fresh, .ofSource source) j e w →
    sourceAfter a m scorer.limit e.population e.generation w.source = w.source

/-- After so many steps two evolutions are the same, and what comes next draws from the same
source; or both have failed alike. -/
def SameEvolution (x y : Experiment (Workspace γ)) (source : γ) (count : Nat) : Prop :=
  Task.AgreeAt (Progress.Along Workspace.SameWork) (x.steps count) (y.steps count)
    (.fresh, .ofSource source) (.fresh, .ofSource source)

/-- Two evolutions come to the same end, or fail alike. -/
def SameOutcome (x y : Experiment (Workspace γ)) (source : γ) : Prop :=
  Task.AgreeAt Workspace.SameWork x.evolve y.evolve (.ofSource source) (.ofSource source)

/-- The same arguments, but for where and how large pictures are kept. -/
def elsewhere (a : Arguments) (dir : String) (size : Int) : Arguments :=
  { a with resultsDir := dir, reportSize := size }

theorem settings_elsewhere (dir : String) (size : Int) :
    (experiment a m scorer).config = (experiment (elsewhere a dir size) m scorer).config := rfl

theorem rerun_elsewhere (dir : String) (size : Int) (limit : Limit) (best : Individual) :
    (rerun (elsewhere a dir size) m limit best : Task γ (Option Value)) = rerun a m limit best := by
  unfold rerun instructionSet elsewhere
  rfl

theorem agree_evaluate_elsewhere (dir : String) (size : Int) (i : Individual) :
    Task.Agree Workspace.SameWork ((experiment a m scorer).evaluate i)
      ((experiment (elsewhere a dir size) m scorer).evaluate i) :=
  scorer.agree_evaluate m.state m.values ⟨0, m.target⟩ i

theorem agree_elsewhere {dir : String} (same : dir.isEmpty = a.resultsDir.isEmpty) (size : Int)
    (population : List Individual) (generation : Nat) :
    Task.Agree Workspace.SameWork ((experiment a m scorer).report population generation)
      ((experiment (elsewhere a dir size) m scorer).report population generation) := by
  refine Reporter.agree_report (sized_reporter a m _) (sized_reporter _ m _) ?_ ?_ population
    generation
  · unfold reporter elsewhere
    dsimp only
    rw [same]
    split <;> rfl
  · intro best
    rw [rerun_reporter, rerun_reporter, show (elsewhere a dir size).resultsDir = dir from rfl, same,
      rerun_elsewhere]

section Beside

variable {determinant : List (List Float) → Float} {horizon : Nat}
  (h : readMaterial a files = .ok m)
  (made : Scorer.make (instructionSet a m.inputs.length) a.grid (limit horizon a) determinant =
    .ok scorer)

include h made

omit made in
/-- A program that came to an output once does so again, and leaves an image if it did before. -/
theorem rerun_again {limit : Limit} {best : Individual} {g g₁ : γ} {v : Option Value}
    (once : (rerun a m limit best).Yields g v g₁) (g' : γ) :
    ∃ v' g₁', (rerun a m limit best).Yields g' v' g₁' ∧
      Scorer.AlikeOutputs (Image.IsSquare a.size.toNat) v v' := by
  unfold rerun at *
  rw [instructionSet_eq_pictures] at *
  exact Scorer.output_again (fun _ _ => Image.IsSquare.hasPixels) (pictured_material h) once g'

omit h in
/-- The run for the score is the run for the picture. -/
theorem rerun_of_output {i j : Individual} {g g' : γ} {v : Option Value}
    (ran : (Scorer.output scorer.instructions scorer.limit m.state m.values i.program).Yields g v
      g')
    (same : j.program = i.program) : (rerun a m scorer.limit j).Yields g v g' := by
  rwa [instructions_of_make made, ← same] at ran

/-- The best program of a reported population has run. -/
theorem rerun_of_reported {source : γ} {j : Nat} {e : Evolution} {w : Workspace γ}
    (reported : (experiment a m scorer).ReportsAt (.fresh, .ofSource source) j e w)
    {best : Individual} (hb : Population.best e.population = .ok best) (g : γ) :
    ∃ v g', (rerun a m scorer.limit best).Yields g v g' ∧
      Scorer.Presentable (Image.IsSquare a.size.toNat) v := by
  obtain ⟨g₀, v, g₁, once⟩ := reported.reached.population
    (scorer.gives_evaluate m.state m.values ⟨0, m.target⟩) best (Population.mem_of_best hb)
  obtain ⟨v', g', again, alike⟩ := rerun_again h (rerun_of_output made once rfl) g
  exact ⟨v', g', again, alike.presentable⟩

/-- A report that leaves the source is the same as one without pictures. -/
theorem agreeAt_nowhere {dir : String} (nowhere : dir.isEmpty = true) (size : Int) {source : γ}
    {j : Nat} {e : Evolution} {w w' : Workspace γ}
    (reported : (experiment a m scorer).ReportsAt (.fresh, .ofSource source) j e w)
    (quiet : sourceAfter a m scorer.limit e.population e.generation w.source = w.source)
    (same : Workspace.SameWork w w') :
    Task.AgreeAt Workspace.SameWork ((experiment a m scorer).report e.population e.generation)
      ((experiment (elsewhere a dir size) m scorer).report e.population e.generation) w w' := by
  have unset : (reporter (elsewhere a dir size) m scorer.limit : Reporter γ).directory = none :=
    if_pos nowhere
  apply Reporter.agreeAt_report (S := Image.IsSquare a.size.toNat) (sized_reporter a m _) unset same
  intro s best hs hb
  rw [sourceAfter_of_summary hs hb] at quiet
  rw [rerun_reporter] at quiet ⊢
  by_cases empty : a.resultsDir.isEmpty = true
  · rw [if_pos empty]
    exact ⟨none, rfl, nofun⟩
  · rw [if_neg empty] at quiet ⊢
    obtain ⟨v, g, ran, presentable⟩ := rerun_of_reported h made reported hb w.source
    rw [ran.snd] at quiet
    rw [quiet] at ran
    exact ⟨v, ran, presentable⟩

end Beside

/-- A report draws from the source only through the run of the best program for its picture, and
not at all when that program mentions no drawing instruction. Where and how large pictures are kept
never matters to an evolution; and it is the same with pictures as without as long as those runs
leave the source as it was. -/
theorem evolution_beside_reports {determinant : List (List Float) → Float} {horizon : Nat}
    (h : readMaterial a files = .ok m)
    (made : Scorer.make (instructionSet a m.inputs.length) a.grid (limit horizon a) determinant =
    .ok scorer)
    (source : γ) :
    (∀ population generation w,
      ((experiment a m scorer).report population generation w).2.source =
        sourceAfter a m scorer.limit population generation w.source ∧
      ((experiment a m scorer).report population generation w).2.cache = w.cache ∧
      ((∀ best, Population.best population = .ok best →
          ∀ name ∈ Element.namesAll best.program, name ∉ drawingNames) →
        sourceAfter a m scorer.limit population generation w.source = w.source)) ∧
    (∀ dir size, dir.isEmpty = a.resultsDir.isEmpty →
      let y := experiment (elsewhere a dir size) m scorer
      (∀ count, SameEvolution (experiment a m scorer) y source count) ∧
        SameOutcome (experiment a m scorer) y source) ∧
    ∀ dir size, dir.isEmpty = true →
      let y := experiment (elsewhere a dir size) m scorer
      (∀ count, Quiet a m scorer source count →
        SameEvolution (experiment a m scorer) y source count) ∧
      ((∀ count, Quiet a m scorer source count) →
        SameOutcome (experiment a m scorer) y source) := by
  refine ⟨fun population generation w => ?_, fun dir size same => ⟨fun count => ?_, ?_⟩,
    fun dir size nowhere => ⟨fun count quiet => ?_, fun quiet => ?_⟩⟩
  · obtain ⟨left, cache⟩ := report_source population generation w
    exact ⟨left, cache, fun silent => sourceAfter_of_quiet h silent w.source⟩
  · exact Experiment.agree_steps Workspace.agree_source (settings_elsewhere dir size)
      (agree_evaluate_elsewhere dir size) (agree_elsewhere same size) count _ _ ⟨rfl, rfl, rfl⟩
  · exact Experiment.agreeAt_evolve Workspace.agree_source (settings_elsewhere dir size)
      (agree_evaluate_elsewhere dir size) ⟨rfl, rfl⟩
      fun _ _ w g _ related => agree_elsewhere same size _ _ w g related
  · exact Experiment.agreeAt_steps Workspace.agree_source (settings_elsewhere dir size)
      (agree_evaluate_elsewhere dir size) ⟨rfl, rfl, rfl⟩
      fun j lt e w g reported related =>
        agreeAt_nowhere h made nowhere size reported (quiet j lt e w reported) related
  · exact Experiment.agreeAt_evolve Workspace.agree_source (settings_elsewhere dir size)
      (agree_evaluate_elsewhere dir size) ⟨rfl, rfl⟩
      fun j e w g reported related => agreeAt_nowhere h made nowhere size reported
        (quiet (j + 1) j (Nat.lt_succ_self j) e w reported) related

def blackPixel : Image := .ofFn 1 1 (.channels 3) fun _ _ _ => 0

/-- An evolution of one program on one pixel, cut off after one step of each run. -/
def miniature : Arguments :=
  { Arguments.standard with
    target := some "target", inputs := ["input"], size := 1, grid := 1, populationSize := 1
    maxGenerations := 1, maxInitialProgramSize := 2, selection := .tournament, tournamentSize := 1
    fuel := 1, resultsDir := "pictures" }

def miniatureMaterial : Material := ⟨none, blackPixel, [blackPixel]⟩

def miniatureScorer : Scorer γ :=
  ⟨instructionSet miniature 1, 1, .steps 1, Matrix.determinant, by decide⟩

theorem miniature_beside_reports :
    readMaterial miniature (fun _ => some (.picture blackPixel)) = .ok miniatureMaterial ∧
    sourceAfter miniature miniatureMaterial (.steps 1)
      [⟨[.instruction "invert_colors"], [.int 1], .int 1⟩] 0 (⟨[3]⟩ : Script) = ⟨[3]⟩ ∧
    SameOutcome (experiment miniature miniatureMaterial miniatureScorer)
      (experiment (elsewhere miniature "gallery" 64) miniatureMaterial miniatureScorer)
      (⟨[3]⟩ : Script) := by
  have read : readMaterial miniature (fun _ => some (.picture blackPixel)) =
      .ok miniatureMaterial := rfl
  have made : Scorer.make (instructionSet miniature miniatureMaterial.inputs.length) miniature.grid
      (limit 0 miniature) Matrix.determinant = .ok (miniatureScorer : Scorer Script) := rfl
  obtain ⟨effect, same, -⟩ := evolution_beside_reports read made ⟨[3]⟩
  refine ⟨read, (effect _ 0 (.ofSource ⟨[3]⟩)).2.2 ?_, (same "gallery" 64 rfl).2⟩
  intro best chosen
  cases chosen
  decide

/-- A report does draw from the source, whatever the seed, and an evolution with pictures may come
to another end than without. -/
theorem reports_draw_and_divert :
    (∀ seed, ∃ population : List Individual,
      ((experiment miniature miniatureMaterial miniatureScorer).report population 0
        (.ofSource (Twister.ofSeed seed))).2.source ≠ Twister.ofSeed seed) ∧
    ∃ source : Script,
      ¬ SameOutcome (experiment miniature miniatureMaterial miniatureScorer)
        (experiment (elsewhere miniature "" miniature.reportSize) miniatureMaterial miniatureScorer)
        source := by
  constructor
  · intro seed
    let noisy : Individual := ⟨[.instruction "noise_filter"], [.int 1], .int 1⟩
    have moved : (rerun miniature miniatureMaterial (.steps 1) noisy
        (Twister.ofSeed seed)).2.position = 2 := rfl
    refine ⟨[noisy], fun same => ?_⟩
    rw [(report_source _ 0 _).1] at same
    have summed : (Summary.ofPopulation [noisy] 0).isOk = true := by decide +kernel
    cases hs : Summary.ofPopulation [noisy] 0 with
    | error fault =>
      rw [hs] at summed
      cases summed
    | ok s =>
      have left :
          sourceAfter miniature miniatureMaterial (.steps 1) [noisy] 0 (Twister.ofSeed seed) =
            (rerun miniature miniatureMaterial (.steps 1) noisy (Twister.ofSeed seed)).2 :=
        sourceAfter_of_summary hs rfl _
      have position := congrArg Twister.position (left.symm.trans same)
      rw [moved] at position
      cases position
  · -- The run for the picture takes one answer, so that the next one meets another question.
    refine ⟨⟨[1, 7, 7, 0, 0, 0, 2 ^ 52]⟩, fun same => ?_⟩
    have lengths := congrArg (fun result => result.toOption.map (·.best.program.length)) same.1
    revert lengths
    decide +kernel

end Cli

end PictureEvolution
