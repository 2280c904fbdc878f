import PictureEvolution.Fitness.Determinant
import PictureEvolution.Proofs.Fitness.Output
import PictureEvolution.Proofs.Fitness.Tiling
import PictureEvolution.Proofs.Machine.Gallery
import PictureEvolution.Proofs.Workspace

/-!
# Penalties

How many sections an image has depends on its shape alone. So an output of the target's shape has a
value for every case of the target, and no output at all has none. A program on images of that shape
leaves one of them unless it is stopped: its individual pays the penalty for every case or for none.
-/

namespace PictureEvolution

namespace Image

variable {a b img : Image}

theorem SameShape.length_sections (h : a.SameShape b) (grid : Int) :
    (a.sections grid).length = (b.sections grid).length := by
  rw [Image.length_sections, Image.length_sections, h.1, h.2.1]

theorem regionDeterminant_of_rgb (determinant : List (List Float) → Float)
    (h : img.layout = .channels 3) : ∃ x, img.regionDeterminant determinant = .ok x := by
  unfold regionDeterminant toGray brightness
  rw [h]
  exact ⟨_, rfl⟩

end Image

namespace Scorer

variable {γ : Type} {img : Image} {values : List Float} (s : Scorer γ)

theorem caseValues_eq (img : Image) : s.caseValues img =
    (img.sections s.grid).mapM (Image.regionDeterminant s.determinant) := by
  unfold caseValues Image.caseValues
  rw [Image.cut_of_pos s.grid_pos]
  rfl

theorem length_of_caseValues (h : s.caseValues img = .ok values) :
    values.length = (img.sections s.grid).length :=
  length_of_mapM (s.caseValues_eq img ▸ h)

/-- A picture in three channels has a value for each section. -/
theorem exists_caseValues (h : img.layout = .channels 3) :
    ∃ values, s.caseValues img = .ok values := by
  rw [caseValues_eq]
  refine exists_mapM fun part member => ?_
  obtain ⟨-, -, layout⟩ := (Image.tiles_sections img s.grid).shape part member
  exact Image.regionDeterminant_of_rgb _ (layout.trans h)

theorem producedValues_of_image {produced : Option (List Score)}
    (h : s.producedValues (some (.image img)) = .ok produced) :
    ∃ found, s.caseValues img = .ok found ∧ produced = some (found.map .real) := by
  unfold producedValues at h
  cases valued : s.caseValues img with
  | error fault => simp [valued] at h
  | ok found =>
    simp only [valued] at h
    exact ⟨found, rfl, (Except.ok.inj h).symm⟩

end Scorer

namespace Score

theorem distance_real (x y : Float) : distance (.real x) (.real y) = .ok (.real (x - y).abs) := rfl

/-- Where every case has two values, every error is the distance of two doubles. -/
theorem distances_real {xs ys : List Float} (same : xs.length = ys.length) :
    distances (xs.map .real) (ys.map .real) =
      .ok ((List.zipWith (fun x y => (x - y).abs) xs ys).map .real) := by
  induction xs generalizing ys with
  | nil => rfl
  | cons x xs ih =>
    cases ys with
    | nil => cases same
    | cons y ys =>
      have rest := ih (Nat.succ.inj same)
      simp only [List.map_cons, distances, distance_real, rest, List.zipWith_cons_cons]
      rfl

theorem foldlM_add_real (xs : List Float) (y : Float) :
    (xs.map .real).foldlM add (.real y) = .ok (.real (xs.foldl (· + ·) y)) := by
  induction xs generalizing y with
  | nil => rfl
  | cons x xs ih => exact ih (y + x)

theorem foldlM_add_int (ns : List Int) (m : Int) :
    (ns.map .int).foldlM add (.int m) = .ok (.int (ns.foldl (· + ·) m)) := by
  induction ns generalizing m with
  | nil => rfl
  | cons n ns ih => exact ih (m + n)

theorem sum_reals (xs : List Float) : ∃ total, sum (xs.map .real) = .ok total := by
  cases xs with
  | nil => exact ⟨.int 0, rfl⟩
  | cons x xs =>
    obtain ⟨zero, converted⟩ : ∃ zero, toFloat (.int 0) = .ok zero := ⟨_, rfl⟩
    have first : add (.int 0) (.real x) = .ok (.real (zero + x)) := by
      simp only [add, converted]
      rfl
    refine ⟨.real (xs.foldl (· + ·) (zero + x)), ?_⟩
    rw [sum, List.map_cons, List.foldlM_cons, first]
    exact foldlM_add_real xs (zero + x)

theorem missingPenalty_not_mem_reals (xs : List Float) : missingPenalty ∉ xs.map .real := by
  intro paid
  obtain ⟨x, -, same⟩ := List.mem_map.mp paid
  cases same

theorem missingPenalty_mem_penalties {α : Type} {cases : List α} (some : 0 < cases.length) :
    missingPenalty ∈ cases.map fun _ => missingPenalty := by
  obtain ⟨first, mem⟩ := List.exists_mem_of_length_pos some
  exact List.mem_map.mpr ⟨first, mem, rfl⟩

theorem sum_penalties {α : Type} (cases : List α) :
    ∃ total, sum (cases.map fun _ => missingPenalty) = .ok total := by
  have integers : (cases.map fun _ => missingPenalty) =
      (cases.map fun _ => (10000000000 : Int)).map .int := by
    rw [List.map_map]
    rfl
  exact ⟨_, integers ▸ foldlM_add_int _ 0⟩

end Score

def TargetCache.Faithful {γ : Type} (s : Scorer γ) (cache : TargetCache) : Prop :=
  ∀ key target values, cache.get? key = some (target, values) →
    s.caseValues target.image = .ok values

/-- The individual has an error for each of so many cases. It pays the penalty for all of them if
its run is exhausted, and for none otherwise. The distance of two values is a double, so an error
that is the penalty stands for a missing value. -/
structure Individual.Judged (j : Individual) (cases : Nat) (exhausted : Prop) : Prop where
  length : j.errors.length = cases
  penalty : missingPenalty ∈ j.errors ↔ exhausted
  uniform : missingPenalty ∈ j.errors → ∀ e ∈ j.errors, e = missingPenalty

namespace Scorer

theorem targetValues_of_faithful {γ : Type} {s : Scorer γ} {cache : TargetCache}
    (faithful : cache.Faithful s) (target : Target) :
    (s.targetValues target cache).1 = s.caseValues target.image ∧
      TargetCache.Faithful s (s.targetValues target cache).2 := by
  have computed : (targetValues.compute s target cache).1 = s.caseValues target.image ∧
      TargetCache.Faithful s (targetValues.compute s target cache).2 := by
    unfold targetValues.compute
    cases valued : s.caseValues target.image with
    | error fault => exact ⟨rfl, faithful⟩
    | ok values =>
      refine ⟨rfl, fun key other others found => ?_⟩
      rw [Table.get?_insert] at found
      split at found
      · cases found
        exact valued
      · exact faithful key other others found
  unfold targetValues
  cases kept : cache.get? target.key with
  | none => exact computed
  | some entry =>
    obtain ⟨known, values⟩ := entry
    dsimp only
    split
    next same => exact ⟨(same ▸ faithful _ _ _ kept).symm, faithful⟩
    next => exact computed

section Evaluate

variable {γ : Type} {c : Scorer γ} {initial : State} {values : List Value} {target : Target}
  {i : Individual} {work : Workspace γ} {result : Option Value} {produced : Option (List Score)}
  {expected : List Float} {errs : List Score} {total : Score} {g : γ}

def Exhausted (c : Scorer γ) (initial : State) (values : List Value) (p : Program) (w : γ) : Prop :=
  ∃ t fuel x, (c.instructions.run c.limit p (initial.loadInputs values)).Fails w
    (.fuelExhausted t fuel) x

/-- Scoring succeeds, keeps the cache faithful, and misses every case of the target or none. -/
def Judges (c : Scorer γ) (initial : State) (values : List Value) (target : Target)
    (i : Individual) (work : Workspace γ) : Prop :=
  ∃ j after, (c.evaluate initial values target i).Yields work j after ∧ j.program = i.program ∧
    after.cache.Faithful c ∧ j.Judged (target.image.sections c.grid).length
      (c.Exhausted initial values i.program work.source)

theorem evaluate_of_output (faithful : work.cache.Faithful c)
    (valued : c.caseValues target.image = .ok expected)
    (ran : (output c.instructions c.limit initial values i.program).Yields work.source result g)
    (known : c.producedValues result = .ok produced)
    (scored : errors expected produced = .ok errs) (summed : Score.sum errs = .ok total) :
    ∃ after, (c.evaluate initial values target i).Yields work ⟨i.program, errs, total⟩ after ∧
      after.cache.Faithful c := by
  obtain ⟨same, still⟩ := targetValues_of_faithful faithful target
  have looked : (c.targetValues target).Yields work.cache expected _ :=
    Prod.ext (same.trans valued) rfl
  refine ⟨{ work with source := g, cache := (c.targetValues target work.cache).2 }, ?_, still⟩
  unfold evaluate
  refine Task.yields_bind.mpr ⟨_, _, Workspace.onCache_of_yields looked, ?_⟩
  refine Task.yields_bind.mpr ⟨result, _, Workspace.onSource_of_yields ran, ?_⟩
  rw [known]
  dsimp only
  rw [scored]
  refine Task.yields_bind.mpr ⟨errs, _, rfl, ?_⟩
  unfold Individual.withErrors
  rw [summed]
  rfl

/-- A run that ends with an image of the target's shape on top gives every case a value. -/
theorem judges_of_yields {t : State} {img : Image} (faithful : work.cache.Faithful c)
    (ran :
      (c.instructions.run c.limit i.program (initial.loadInputs values)).Yields work.source t g)
    (top : t.peek? .image = some (.image img)) (shape : img.SameShape target.image)
    (rgb : target.image.layout = .channels 3) : c.Judges initial values target i work := by
  obtain ⟨expected, valued⟩ := c.exists_caseValues rgb
  obtain ⟨found, valued'⟩ := c.exists_caseValues (shape.2.2.trans rgb)
  have cases := c.length_of_caseValues valued
  have same : expected.length = found.length :=
    cases.trans ((shape.length_sections c.grid).symm.trans (c.length_of_caseValues valued').symm)
  have scored := Score.distances_real same
  have output := output_of_yields ran
  rw [top] at output
  have known : c.producedValues (some (.image img)) = .ok (some (found.map .real)) := by
    rw [producedValues, valued']
  obtain ⟨total, summed⟩ := Score.sum_reals (List.zipWith (fun x y => (x - y).abs) expected found)
  obtain ⟨after, evaluated, still⟩ :=
    evaluate_of_output faithful valued output known scored summed
  have unpaid := Score.missingPenalty_not_mem_reals
    (List.zipWith (fun x y => (x - y).abs) expected found)
  refine ⟨_, after, evaluated, rfl, still, ?_, ?_, fun paid => absurd paid unpaid⟩
  · rw [List.length_map, List.length_zipWith, ← same, Nat.min_self, cases]
  · refine ⟨fun paid => absurd paid unpaid, ?_⟩
    rintro ⟨u, fuel, x, failed⟩
    exact absurd failed ran.not_fails

/-- A run that its fuel cuts off gives no case a value. -/
theorem judges_of_exhausted {t : State} {fuel : Int} (faithful : work.cache.Faithful c)
    (stopped : (c.instructions.run c.limit i.program (initial.loadInputs values)).Fails work.source
      (.fuelExhausted t fuel) g) (rgb : target.image.layout = .channels 3)
    (cases : 0 < (target.image.sections c.grid).length) :
    c.Judges initial values target i work := by
  obtain ⟨expected, valued⟩ := c.exists_caseValues rgb
  have length := c.length_of_caseValues valued
  obtain ⟨total, summed⟩ := Score.sum_penalties expected
  obtain ⟨after, evaluated, still⟩ :=
    evaluate_of_output faithful valued (output_of_exhausted stopped) rfl rfl summed
  refine ⟨_, after, evaluated, rfl, still, ?_, ?_, ?_⟩
  · rw [List.length_map, length]
  · refine ⟨fun _ => ⟨t, fuel, g, stopped⟩, fun _ => ?_⟩
    exact Score.missingPenalty_mem_penalties (length ▸ cases)
  · intro _ e paid
    obtain ⟨_, -, rfl⟩ := List.mem_map.mp paid
    rfl

end Evaluate

end Scorer

namespace InstructionSet

variable {ω : Type} [Source ω] {inputs : Nat} {p : Program} {s : State}

/-- A program over the picture instructions on a state with images and nothing pending, where all
images have three channels and pixels and every condition has a truth value, whatever is drawn: the
run keeps images of the shapes that it began with and cannot fail. If all of them have the shape of
a target, then a scorer whose run comes to an end gives the penalty for a missing value iff the fuel
is exhausted, and then for every case. -/
theorem exhibits_and_judged (inputs : Nat) (p : Program)
    (known : ∀ e ∈ p, (pictures inputs : InstructionSet ω).Knows e) (s : State)
    (idle : s.stack .exec = []) (gallery : s.Gallery Image.HasPixels) (w : ω) :
    (pictures inputs).Exhibits p s w ∧
    ∀ (c : Scorer ω) (initial : State) (values : List Value) (target : Target) (i : Individual)
      (work : Workspace ω), c.instructions = pictures inputs → initial.loadInputs values = s →
      i.program = p → work.source = w → work.cache.Faithful c →
      (∀ shown, s.Shows shown → shown.SameShape target.image) →
      ((∃ fuel, c.limit = .steps fuel) ∨
        ∃ t x, ((pictures inputs).run c.limit p s).Yields w t x) →
      0 < (target.image.sections c.grid).length ∧ c.Judges initial values target i work := by
  have exhibits := exhibits_of_gallery known idle gallery w
  refine ⟨exhibits, ?_⟩
  rintro c initial values target i work instructions rfl rfl rfl faithful shapes halting
  obtain ⟨first, rest, hung, channels, pixels⟩ := gallery.image_cons
  have like : first.SameShape target.image := shapes first (.inl (hung ▸ List.mem_cons_self))
  have rgb : target.image.layout = .channels 3 := like.2.2.symm.trans channels
  have cases : 0 < (target.image.sections c.grid).length :=
    Image.length_sections_pos (like.1 ▸ pixels.1) (like.2.1 ▸ pixels.2) c.grid_pos
  refine ⟨cases, ?_⟩
  rcases ((pictures inputs).run c.limit i.program (initial.loadInputs values)).yields_or_fails
    work.source with ⟨t, x, ran⟩ | ⟨fault, x, failed⟩
  · have ends := ran
    rw [run_of_valid (validate_eq_ok_iff_knows.mpr known)] at ends
    obtain ⟨k, -, steps, -⟩ := drain_yields_iff.mp ends
    obtain ⟨img, shown, top, displayed, shape⟩ := (exhibits.keeps k t x steps).top
    rw [← instructions] at ran
    exact c.judges_of_yields faithful ran top (shape.trans (shapes shown displayed)) rgb
  · obtain ⟨t, stopped, rfl⟩ := exhibits.stopped c.limit fault x failed
    rcases halting with ⟨fuel, limited⟩ | ⟨t, x, ran⟩
    · have exhausted : (c.instructions.run c.limit i.program
          (initial.loadInputs values)).Fails work.source (.fuelExhausted t fuel) x := by
        rw [instructions, limited]
        rwa [limited] at failed
      exact c.judges_of_exhausted faithful exhausted rgb cases
    · exact absurd failed ran.not_fails

end InstructionSet

def flatState : State :=
  (∅ : State).loadImages ([.ofFn 2 2 (.channels 3) fun _ _ _ => 7].map .image)

def rampInputs : List Value := [.ofFn 2 2 (.channels 3) fun y _ _ => y.toUInt8].map .image

theorem gallery_flatState {S : Nat → Nat → Prop} (square : S 2 2) :
    (flatState.loadInputs rampInputs).Gallery S := by
  have admitted {f : Nat → Nat → Nat → UInt8} :
      ∀ img ∈ [Image.ofFn 2 2 (.channels 3) f], img.Admitted S := by
    intro img mem
    rw [List.mem_singleton.mp mem]
    exact ⟨rfl, square⟩
  have pictured : (flatState.loadInputs rampInputs).Pictured S :=
    (State.Pictured.empty.loadImages admitted).loadInputs admitted
  exact pictured.gallery nofun

/-- The choice puts noise on the input, and the rows of the result come over the picture. -/
def noisyRows : Individual := .ofProgram
  [.instruction (State.inputKey 1), .literal (.bool true), .instruction InstructionSet.branchName,
   .block [.instruction Filter.noise.name], .literal (.int 5), .instruction Merge.rows.name]

def twentyStepScorer : Scorer Script := ⟨.pictures 1, 2, .steps 20, Matrix.determinant, by decide⟩

def rampTarget : Target := ⟨0, .ofFn 2 2 (.channels 3) fun _ x _ => x.toUInt8⟩

theorem noisyRows_judged :
    (∀ e ∈ noisyRows.program, (InstructionSet.pictures 1 : InstructionSet Script).Knows e) ∧
    (flatState.loadInputs rampInputs).stack .exec = [] ∧
    (flatState.loadInputs rampInputs).Gallery Image.HasPixels ∧
    (InstructionSet.pictures 1).Exhibits noisyRows.program (flatState.loadInputs rampInputs)
      (⟨[5, 8]⟩ : Script) ∧
    0 < (rampTarget.image.sections 2).length ∧
    twentyStepScorer.Judges flatState rampInputs rampTarget noisyRows (.ofSource ⟨[5, 8]⟩) := by
  have known :
      ∀ e ∈ noisyRows.program, (InstructionSet.pictures 1 : InstructionSet Script).Knows e := by
    rw [← InstructionSet.validate_eq_ok_iff_knows, InstructionSet.validate_eq_ok_iff]
    decide
  have pixels : (flatState.loadInputs rampInputs).Gallery Image.HasPixels :=
    gallery_flatState ⟨Nat.two_pos, Nat.two_pos⟩
  have square :
      (flatState.loadInputs rampInputs).Gallery fun height width => height = 2 ∧ width = 2 :=
    gallery_flatState ⟨rfl, rfl⟩
  have shapes (img : Image) (shown : (flatState.loadInputs rampInputs).Shows img) :
      img.SameShape rampTarget.image := by
    obtain ⟨channels, height, width⟩ := square.admitted shown
    exact ⟨height, width, channels⟩
  obtain ⟨exhibits, judged⟩ := InstructionSet.exhibits_and_judged 1 noisyRows.program known
    (flatState.loadInputs rampInputs) rfl pixels (⟨[5, 8]⟩ : Script)
  exact ⟨known, rfl, pixels, exhibits, judged twentyStepScorer flatState rampInputs rampTarget
    noisyRows (.ofSource ⟨[5, 8]⟩) rfl rfl rfl rfl nofun shapes (.inl ⟨20, rfl⟩)⟩

/-- A state with a picture on the image stack and another one as a condition. -/
def pictureCondition : State :=
  ((∅ : State).assign .bool [.image (.ofFn 1 1 (.channels 3) fun _ _ _ => 9)]).loadImages
    [.image (.ofFn 1 1 (.channels 3) fun _ _ _ => 3)]

def choiceOfOnes : Program :=
  [.instruction InstructionSet.branchName, .literal (.int 1), .literal (.int 1)]

/-- An image with more than one sample has no truth value, so a choice fails on it, whatever else
the state holds. -/
theorem pictureCondition_fails :
    (InstructionSet.pictures 0 : InstructionSet Script).validate choiceOfOnes = .ok () ∧
    pictureCondition.stack .exec = [] ∧ pictureCondition.inputs = ∅ ∧
    pictureCondition.stack .image = [.image (.ofFn 1 1 (.channels 3) fun _ _ _ => 3)] ∧
    ((InstructionSet.pictures 0).step (pictureCondition.loadExec choiceOfOnes)).Fails
      (⟨[]⟩ : Script) .undecidedTruth ⟨[]⟩ ∧
    ((InstructionSet.pictures 0).run (.steps 3) choiceOfOnes pictureCondition).Fails (⟨[]⟩ : Script)
      .undecidedTruth ⟨[]⟩ :=
  ⟨rfl, rfl, rfl, rfl, rfl, rfl⟩

end PictureEvolution
