import PictureEvolution.Proofs.Evolution.Runs
import PictureEvolution.Proofs.Evolution.Solution
import PictureEvolution.Proofs.Fitness.Output
import PictureEvolution.Proofs.Workspace
import PictureEvolution.Report.Reporter

/-!
# What a report touches

A report writes into the journal. Beside that it only runs the best program once more, and only
when there is a directory for pictures; that run draws from the source like every other.
-/

namespace PictureEvolution

variable {γ α : Type}

open Workspace

namespace Scorer

theorem agree_evaluate (s : Scorer γ) (initial : State) (inputs : List Value) (target : Target)
    (i : Individual) : Task.Agree SameWork (s.evaluate initial inputs target i)
      (s.evaluate initial inputs target i) := by
  refine (agree_onCache _).bind fun expected => (agree_onSource _).bind fun result => ?_
  split
  · exact .throw _
  · exact (Task.Agree.ofScore _).bind fun errors => .ofScore _

/-- Scoring looks the target up, runs the program and counts the errors of what that leaves. -/
theorem output_of_evaluate {s : Scorer γ} {initial : State} {inputs : List Value} {target : Target}
    {i j : Individual} {w w' : Workspace γ}
    (h : (s.evaluate initial inputs target i).Yields w j w') :
    ∃ expected v produced, (s.targetValues target w.cache).1 = .ok expected ∧
      (output s.instructions s.limit initial inputs i.program).Yields w.source v w'.source ∧
      s.producedValues v = .ok produced ∧ errors expected produced = .ok j.errors ∧
      j.program = i.program := by
  obtain ⟨expected, w₁, looks, runs⟩ := Task.yields_bind.mp h
  obtain ⟨cache, looked, rfl⟩ := yields_onCache.mp looks
  obtain ⟨v, w₂, runs, scores⟩ := Task.yields_bind.mp runs
  have ran := yields_of_onSource runs
  cases known : s.producedValues v with
  | error fault =>
    rw [known] at scores
    exact absurd scores Task.not_yields_throw
  | ok produced =>
    rw [known] at scores
    obtain ⟨errs, w₃, counts, sums⟩ := Task.yields_bind.mp scores
    obtain ⟨counted, rfl⟩ := Task.yields_ofScore.mp counts
    obtain ⟨made, rfl⟩ := Task.yields_ofScore.mp sums
    obtain ⟨program, rfl, -⟩ := Individual.of_withErrors made
    exact ⟨expected, v, produced, congrArg Prod.fst looked, ran, known, counted, program⟩

/-- What was scored has run once. -/
theorem gives_evaluate (s : Scorer γ) (initial : State) (inputs : List Value) (target : Target)
    (i : Individual) : (s.evaluate initial inputs target i).Gives fun j =>
      ∃ g v g', (output s.instructions s.limit initial inputs j.program).Yields g v g' := by
  intro w j w' h
  obtain ⟨expected, v, produced, -, ran, -, -, program⟩ := output_of_evaluate h
  exact ⟨w.source, v, w'.source, program ▸ ran⟩

end Scorer

theorem Population.mem_of_best {population : List Individual} {best : Individual}
    (h : Population.best population = .ok best) : best ∈ population := by
  cases population with
  | nil => cases h
  | cons first rest =>
    cases h
    exact Score.leastOn_mem _ first rest

namespace Reporter

/-- The run of the best program for its picture, if pictures are kept. -/
def rerun (r : Reporter γ) (best : Individual) : Task γ (Option Value) :=
  match r.instructions, r.initial, r.directory with
  | some instructions, some initial, some _ =>
    Scorer.output instructions r.limit initial r.inputs best.program
  | _, _, _ => pure none

def keep (r : Reporter γ) (generation : Int) : Option Value → Task (Workspace γ) Unit
  | none => pure ()
  | some v =>
    match r.directory, picture r.size v with
    | none, _ => pure ()
    | some _, .error fault => throw fault
    | some directory, .ok img =>
      record fun j => { j with files := j.files.insert (fileName directory generation) img }

theorem discard_keepPicture (r : Reporter γ) (best : Individual) (generation : Int) :
    discard (r.keepPicture best generation) =
      onSource (r.rerun best) >>= fun result => r.keep generation result := by
  rw [Task.discard_eq]
  unfold keepPicture rerun keep
  cases r.instructions with
  | none => rfl
  | some instructions =>
    cases r.initial with
    | none => rfl
    | some initial =>
      cases r.directory with
      | none => rfl
      | some directory =>
        rw [bind_assoc]
        congr
        funext result
        cases result with
        | none => rfl
        | some v =>
          dsimp only
          cases picture r.size v with
          | error fault => rfl
          | ok img => rfl

/-- A report that can be summed up writes its line, runs the best program again and keeps what that
leaves. -/
theorem report_eq {r : Reporter γ} {population : List Individual} {generation : Nat} {s : Summary}
    {best : Individual} (hs : Summary.ofPopulation population generation = .ok s)
    (hb : Population.best population = .ok best) :
    r.report population generation =
      (record fun j => { j with summaries := j.summaries ++ [s], lines := j.lines ++ [s.line] }) >>=
        fun _ => onSource (r.rerun best) >>= fun result => r.keep generation result := by
  unfold report
  rw [hs, hb]
  dsimp only
  congr
  funext _
  rw [← discard_keepPicture]
  cases directory : r.directory with
  | some path => rfl
  | none =>
    rw [discard_keepPicture]
    unfold rerun
    rw [directory]
    cases r.instructions <;> cases r.initial <;> rfl

/-- A population is summed up, or every reporter refuses it alike. -/
theorem summed_or_refused (γ : Type) (population : List Individual) (generation : Nat) :
    (∃ s best, Summary.ofPopulation population generation = .ok s ∧
      Population.best population = .ok best) ∨
    (∀ s best, Summary.ofPopulation population generation = .ok s →
      Population.best population ≠ .ok best) ∧
      ∃ fault, ∀ r : Reporter γ, r.report population generation = throw fault := by
  unfold report
  cases hs : Summary.ofPopulation population generation with
  | error fault => exact .inr ⟨nofun, fault, fun r => rfl⟩
  | ok s =>
    cases hb : Population.best population with
    | error fault => exact .inr ⟨nofun, fault, fun r => rfl⟩
    | ok best => exact .inl ⟨s, best, rfl, rfl⟩

theorem rerun_of_no_directory {r : Reporter γ} (h : r.directory = none) (best : Individual) :
    r.rerun best = pure none := by
  unfold rerun
  rw [h]
  cases r.instructions <;> cases r.initial <;> rfl

theorem keep_sameWork (r : Reporter γ) (generation : Int) (result : Option Value)
    (w : Workspace γ) : SameWork (r.keep generation result w).2 w := by
  cases result with
  | none => exact ⟨rfl, rfl⟩
  | some v =>
    unfold keep
    dsimp only
    cases r.directory with
    | none => exact ⟨rfl, rfl⟩
    | some directory =>
      cases picture r.size v with
      | error fault => exact ⟨rfl, rfl⟩
      | ok img => exact ⟨rfl, rfl⟩

/-- The source is left as the second run of the best program leaves it, and the cache as it was. -/
theorem report_work {r : Reporter γ} {population : List Individual} {generation : Nat} {s : Summary}
    {best : Individual} (hs : Summary.ofPopulation population generation = .ok s)
    (hb : Population.best population = .ok best) (w : Workspace γ) :
    (r.report population generation w).2.source = (r.rerun best w.source).2 ∧
      (r.report population generation w).2.cache = w.cache := by
  rw [report_eq hs hb]
  exact onSource_bind_work (r.keep_sameWork generation) { w with journal := _ }

def picturesAfter (directory : String) (generation : Int) (before : Table String Image) :
    Option Image → Table String Image
  | none => before
  | some img => before.insert (fileName directory generation) img

/-- A report in a directory, of pictures in their own size, keeps what the second run of the best
program leaves. -/
theorem report_of_rerun {r : Reporter γ} {directory : String}
    (inDirectory : r.directory = some directory)
    (own : r.size = none) {population : List Individual} {generation : Nat} {s : Summary}
    {best : Individual} (hs : Summary.ofPopulation population generation = .ok s)
    (hb : Population.best population = .ok best) {w : Workspace γ} {g : γ} {written : Option Image}
    (ran : (r.rerun best).Yields w.source (written.map .image) g) :
    ∃ after, (r.report population generation).Yields w () after ∧ after.source = g ∧
      after.journal.files = picturesAfter directory generation w.journal.files written := by
  rw [report_eq hs hb]
  let noted : Workspace γ := { w with journal := { w.journal with
    summaries := w.journal.summaries ++ [s], lines := w.journal.lines ++ [s.line] } }
  have again :
      (onSource (r.rerun best)).Yields noted (written.map .image) { noted with source := g } :=
    onSource_of_yields ran
  cases written with
  | none =>
    refine ⟨{ noted with source := g }, ?_, rfl, rfl⟩
    exact Task.yields_bind.mpr ⟨(), noted, rfl, Task.yields_bind.mpr ⟨none, _, again, rfl⟩⟩
  | some img =>
    refine ⟨{ noted with source := g, journal := { noted.journal with
      files := w.journal.files.insert (fileName directory generation) img } }, ?_, rfl, rfl⟩
    refine Task.yields_bind.mpr ⟨(), noted, rfl, Task.yields_bind.mpr ⟨_, _, again, ?_⟩⟩
    simp only [keep, Option.map_some, inDirectory, picture, own]
    rfl

theorem report_cache (r : Reporter γ) (population : List Individual) (generation : Nat)
    (w : Workspace γ) : (r.report population generation w).2.cache = w.cache := by
  rcases summed_or_refused γ population generation with ⟨s, best, hs, hb⟩ | ⟨-, fault, refused⟩
  · exact (report_work hs hb w).2
  · rw [refused r]
    rfl

/-- Pictures keep their own size or are brought to one of at least one pixel. -/
def Sized (r : Reporter γ) : Prop := ∀ width height, r.size = some (width, height) →
  0 < width ∧ 0 < height

theorem picture_of_image {r : Reporter γ} (sized : r.Sized) (img : Image) :
    ∃ kept, picture r.size (.image img) = .ok kept := by
  unfold picture
  cases hs : r.size with
  | none => exact ⟨img, rfl⟩
  | some size =>
    obtain ⟨width, height⟩ := size
    obtain ⟨hw, hh⟩ := sized width height hs
    dsimp only
    unfold Image.resizeNearest?
    rw [if_neg (by omega)]
    exact ⟨_, rfl⟩

theorem yields_keep {r : Reporter γ} (sized : r.Sized) {S : Nat → Nat → Prop}
    {result : Option Value} (h : Scorer.Presentable S result) (generation : Int) (w : Workspace γ) :
    (r.keep generation result w).1 = .ok () := by
  cases result with
  | none => rfl
  | some v =>
    obtain ⟨img, rfl, -⟩ := h v rfl
    obtain ⟨kept, hk⟩ := picture_of_image sized img
    unfold keep
    dsimp only
    rw [hk]
    cases r.directory <;> rfl

/-- What two reporters keep of a value fails for both alike, or for neither. -/
theorem picture_alike {r r' : Reporter γ} (sized : r.Sized) (sized' : r'.Sized) (v : Value) :
    (∃ fault, picture r.size v = .error fault ∧ picture r'.size v = .error fault) ∨
      ∃ kept kept', picture r.size v = .ok kept ∧ picture r'.size v = .ok kept' := by
  cases v with
  | image img =>
    obtain ⟨kept, hk⟩ := picture_of_image sized img
    obtain ⟨kept', hk'⟩ := picture_of_image sized' img
    exact .inr ⟨kept, kept', hk, hk'⟩
  | _ => exact .inl ⟨_, rfl, rfl⟩

section Agree

variable {r r' : Reporter γ} (sized : r.Sized) (sized' : r'.Sized)

include sized sized'

theorem keep_agree (directory : r.directory.isSome = r'.directory.isSome) (generation : Int)
    (result : Option Value) :
    Task.Agree SameWork (r.keep generation result) (r'.keep generation result) := by
  cases result with
  | none => exact .pure ()
  | some v =>
    unfold keep
    dsimp only
    cases hd : r.directory with
    | none =>
      cases hd' : r'.directory with
      | none => exact .pure ()
      | some path' =>
        rw [hd, hd'] at directory
        cases directory
    | some path =>
      cases hd' : r'.directory with
      | none =>
        rw [hd, hd'] at directory
        cases directory
      | some path' =>
        rcases picture_alike sized sized' v with ⟨fault, failed, failed'⟩ | ⟨kept, kept', hk, hk'⟩
        · rw [failed, failed']
          exact .throw fault
        · rw [hk, hk']
          exact agree_record _ _

/-- Two reporters that differ only in where and how large they keep pictures agree. -/
theorem agree_report (directory : r.directory.isSome = r'.directory.isSome)
    (reruns : ∀ best, r.rerun best = r'.rerun best) (population : List Individual)
    (generation : Nat) :
    Task.Agree SameWork (r.report population generation) (r'.report population generation) := by
  rcases summed_or_refused γ population generation with ⟨s, best, hs, hb⟩ | ⟨-, fault, refused⟩
  · rw [report_eq hs hb, report_eq hs hb, reruns]
    exact (agree_record _ _).bind fun _ => (agree_onSource _).bind fun result =>
      keep_agree sized sized' directory generation result
  · rw [refused r, refused r']
    exact .throw fault

omit sized' in
/-- A report that keeps a picture agrees with one that keeps none where the second run of the best
program leaves the source as it was. -/
theorem agreeAt_report (nowhere : r'.directory = none) {S : Nat → Nat → Prop}
    {population : List Individual} {generation : Nat} {w w' : Workspace γ} (same : SameWork w w')
    (again : ∀ s best, Summary.ofPopulation population generation = .ok s →
      Population.best population = .ok best →
      ∃ v, (r.rerun best).Yields w.source v w.source ∧ Scorer.Presentable S v) :
    Task.AgreeAt SameWork (r.report population generation) (r'.report population generation)
      w w' := by
  rcases summed_or_refused γ population generation with ⟨s, best, hs, hb⟩ | ⟨-, fault, refused⟩
  · obtain ⟨v, ran, presentable⟩ := again s best hs hb
    rw [report_eq hs hb, report_eq hs hb, rerun_of_no_directory nowhere]
    apply (agree_record _ _ w w' same).bind
    rintro ⟨⟩ w₁ w₁' logged same₁
    have source₁ : w₁.source = w.source := by
      cases logged
      rfl
    have ran₁ : (r.rerun best).Yields w₁.source v w₁.source := by
      rw [source₁]
      exact ran
    have idle : (onSource (pure none) : Task (Workspace γ) (Option Value)).Yields w₁' none w₁' :=
      rfl
    unfold Task.AgreeAt
    rw [Task.bind_of_yields (onSource_of_yields ran₁), Task.bind_of_yields idle]
    obtain ⟨source, cache⟩ := r.keep_sameWork generation v w₁
    exact ⟨yields_keep sized presentable generation w₁, source.trans same₁.1, cache.trans same₁.2⟩
  · rw [refused r, refused r']
    exact ⟨rfl, same⟩

end Agree

end Reporter

end PictureEvolution
