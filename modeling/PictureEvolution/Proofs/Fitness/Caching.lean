import PictureEvolution.Proofs.Fitness.Penalty
import PictureEvolution.Proofs.Machine.PictureSet

/-!
# The cache of targets

Scoring can be done without a cache, on the source alone: the case values of the target are computed
each time. A scorer that keeps them gives the same answers, however targets come and go, and its
cache holds each target that it met together with its case values. Targets that look alike have
entries of their own; of two that share a key the later one is kept.
-/

namespace PictureEvolution

theorem Table.insertAll_filterMap_cons {α β κ : Type} [DecidableEq κ] (t : Table κ β)
    (f : α → Option (κ × β)) (a : α) (rest : List α) :
    t.insertAll ((a :: rest).filterMap f) =
      (t.insertAll (f a).toList).insertAll (rest.filterMap f) := by
  cases entry : f a with
  | none =>
    rw [List.filterMap_cons_none entry]
    rfl
  | some e =>
    rw [List.filterMap_cons_some entry]
    rfl

/-- What a scorer is used for: it tells the case values of a target, or scores an individual. In
between the source may move on for other reasons. -/
inductive Use (γ : Type) where
  | values (target : Target)
  | score (initial : State) (inputs : List Value) (target : Target) (i : Individual)
  | elsewhere (move : γ → γ)

def Use.target? {γ : Type} : Use γ → Option Target
  | values target => some target
  | score _ _ target _ => some target
  | elsewhere _ => none

inductive Reply where
  | values (result : Except Fault (List Float))
  | score (result : Except Fault Individual)
  | nothing

/-- Each entry holds a target under the key of that target, and the case values of this target. -/
structure TargetCache.Sound {γ : Type} (s : Scorer γ) (cache : TargetCache) : Prop where
  faithful : cache.Faithful s
  keyed : ∀ key target values, cache.get? key = some (target, values) → target.key = key

namespace Scorer

variable {γ : Type}

def entry? (s : Scorer γ) (target : Target) : Option (Nat × Target × List Float) :=
  (s.caseValues target.image).toOption.map fun values => (target.key, target, values)

/-- Run an individual and score what it leaves against the values of a target. -/
def scoreAgainst (s : Scorer γ) (expected : List Float) (initial : State) (inputs : List Value)
    (i : Individual) : Task γ Individual := do
  let result ← output s.instructions s.limit initial inputs i.program
  match s.producedValues result with
  | .error fault => throw fault
  | .ok produced =>
    let errors ← Task.ofScore (errors expected produced)
    Task.ofScore (i.withErrors errors)

def evaluateAfresh (s : Scorer γ) (initial : State) (inputs : List Value) (target : Target)
    (i : Individual) : Task γ Individual :=
  match s.caseValues target.image with
  | .error fault => throw fault
  | .ok expected => s.scoreAgainst expected initial inputs i

def use (s : Scorer γ) : Use γ → Workspace γ → Reply × Workspace γ
  | .values target, w =>
    let (result, cache) := s.targetValues target w.cache
    (.values result, { w with cache })
  | .score initial inputs target i, w =>
    let (result, w) := s.evaluate initial inputs target i w
    (.score result, w)
  | .elsewhere move, w => (.nothing, { w with source := move w.source })

def useAfresh (s : Scorer γ) : Use γ → γ → Reply × γ
  | .values target, g => (.values (s.caseValues target.image), g)
  | .score initial inputs target i, g =>
    let (result, g) := s.evaluateAfresh initial inputs target i g
    (.score result, g)
  | .elsewhere move, g => (.nothing, move g)

def useAll (s : Scorer γ) : List (Use γ) → Workspace γ → List Reply × Workspace γ
  | [], w => ([], w)
  | u :: rest, w =>
    let (reply, w) := s.use u w
    let (replies, w) := s.useAll rest w
    (reply :: replies, w)

def useAllAfresh (s : Scorer γ) : List (Use γ) → γ → List Reply × γ
  | [], g => ([], g)
  | u :: rest, g =>
    let (reply, g) := s.useAfresh u g
    let (replies, g) := s.useAllAfresh rest g
    (reply :: replies, g)

section Serve

variable {s : Scorer γ} {cache : TargetCache} {w : Workspace γ}

/-- Looking a target up gives its case values and leaves its entry, whether it was there or not. -/
theorem targetValues_eq (faithful : cache.Faithful s) (target : Target) :
    s.targetValues target cache =
      (s.caseValues target.image, cache.insertAll (s.entry? target).toList) := by
  have computed : targetValues.compute s target cache =
      (s.caseValues target.image, cache.insertAll (s.entry? target).toList) := by
    unfold targetValues.compute entry?
    cases s.caseValues target.image <;> rfl
  unfold targetValues
  cases kept : cache.get? target.key with
  | none => exact computed
  | some entry =>
    obtain ⟨known, values⟩ := entry
    dsimp only
    split
    next same =>
      subst same
      have valued := faithful _ _ _ kept
      unfold entry?
      rw [valued]
      exact Prod.ext rfl (Table.insert_eq_self kept).symm
    next => exact computed

/-- Of an evaluation only the look-up concerns the cache. -/
theorem evaluate_eq (s : Scorer γ) (initial : State) (inputs : List Value) (target : Target)
    (i : Individual) : s.evaluate initial inputs target i =
      (Workspace.onCache (s.targetValues target) >>= fun expected =>
        Workspace.onSource (s.scoreAgainst expected initial inputs i)) := by
  unfold evaluate scoreAgainst
  congr 1
  funext expected
  rw [Workspace.onSource_bind]
  congr 1
  funext result
  cases s.producedValues result with
  | error fault => rfl
  | ok produced =>
    dsimp only
    rw [Workspace.onSource_bind, Workspace.onSource_ofScore]
    congr 1
    funext errors
    rw [Workspace.onSource_ofScore]

theorem evaluate_of_faithful (faithful : w.cache.Faithful s) (initial : State)
    (inputs : List Value) (target : Target) (i : Individual) :
    s.evaluate initial inputs target i w =
      let (result, source) := s.evaluateAfresh initial inputs target i w.source
      (result, { w with source, cache := w.cache.insertAll (s.entry? target).toList }) := by
  have looked := targetValues_eq faithful target
  rw [evaluate_eq]
  unfold evaluateAfresh
  cases valued : s.caseValues target.image with
  | error fault =>
    rw [valued] at looked
    exact Task.bind_of_fails (Workspace.onCache_of_fails looked)
  | ok expected =>
    rw [valued] at looked
    exact Task.bind_of_yields (Workspace.onCache_of_yields looked)

/-- A use of a scorer does what it does without a cache, and leaves the entry of its target. -/
theorem use_eq (faithful : w.cache.Faithful s) (u : Use γ) :
    s.use u w =
      let (reply, source) := s.useAfresh u w.source
      (reply, { w with
        source
        cache := w.cache.insertAll (u.target?.bind s.entry?).toList }) := by
  cases u with
  | values target =>
    rw [use, targetValues_eq faithful]
    rfl
  | score initial inputs target i =>
    rw [use, evaluate_of_faithful faithful]
    rfl
  | elsewhere move => rfl

theorem faithful_empty (s : Scorer γ) : TargetCache.Faithful s ∅ := by
  intro key target values found
  cases found

theorem faithful_insert_entry (faithful : cache.Faithful s) (target : Target) :
    TargetCache.Faithful s (cache.insertAll (s.entry? target).toList) := by
  have kept := (targetValues_of_faithful faithful target).2
  rwa [targetValues_eq faithful] at kept

theorem faithful_insertAll (faithful : cache.Faithful s) (targets : List Target) :
    TargetCache.Faithful s (cache.insertAll (targets.filterMap s.entry?)) := by
  induction targets generalizing cache with
  | nil => exact faithful
  | cons target rest ih =>
    rw [Table.insertAll_filterMap_cons]
    exact ih (faithful_insert_entry faithful target)

/-- So do any number of uses. -/
theorem useAll_eq (faithful : w.cache.Faithful s) (uses : List (Use γ)) :
    s.useAll uses w =
      let (replies, source) := s.useAllAfresh uses w.source
      (replies, { w with
        source
        cache := w.cache.insertAll (uses.filterMap fun u => u.target?.bind s.entry?) }) := by
  induction uses generalizing w with
  | nil => rfl
  | cons u rest ih =>
    have entered : TargetCache.Faithful s (w.cache.insertAll (u.target?.bind s.entry?).toList) := by
      cases u.target? with
      | none => exact faithful
      | some target => exact faithful_insert_entry faithful target
    rw [useAll, use_eq faithful, Table.insertAll_filterMap_cons]
    dsimp only
    rw [ih entered]
    rfl

end Serve

theorem sound_ofList (s : Scorer γ) (targets : List Target) :
    TargetCache.Sound s (.ofList (targets.filterMap s.entry?)) := by
  refine ⟨faithful_insertAll (faithful_empty s) targets, fun key target values found => ?_⟩
  rcases Table.get?_insertAll_cases found with entered | before
  · obtain ⟨asked, -, entry⟩ := List.mem_filterMap.mp entered
    obtain ⟨_, -, same⟩ := Option.map_eq_some_iff.mp entry
    cases same
    rfl
  · cases before

/-- The cache cannot be noticed. However targets come and go, a scorer that starts with an empty
cache replies as it would without one and leaves the source at the same place. The cache holds the
targets that were asked for, each under its own key and with its own case values, so that the next
look-up gives what would be computed. A target without case values has no entry. -/
theorem replies_as_afresh (s : Scorer γ) (uses : List (Use γ)) (source : γ) :
    let served := s.useAll uses (.ofSource source)
    let afresh := s.useAllAfresh uses source
    served.1 = afresh.1 ∧ served.2.source = afresh.2 ∧ served.2.cache.Sound s ∧
    served.2.cache = .ofList ((uses.filterMap Use.target?).filterMap s.entry?) ∧
    ∀ target, (s.targetValues target served.2.cache).1 = s.caseValues target.image := by
  have sound := sound_ofList s (uses.filterMap Use.target?)
  intro served afresh
  have same : served = (afresh.1, { Workspace.ofSource source with
      source := afresh.2
      cache := .ofList ((uses.filterMap Use.target?).filterMap s.entry?) }) := by
    rw [List.filterMap_filterMap]
    exact useAll_eq (faithful_empty s) uses
  rw [same]
  refine ⟨rfl, rfl, sound, rfl, fun target => ?_⟩
  exact (targetValues_of_faithful sound.faithful target).1

end Scorer

/-- The target of the noisy rows again, as another object. -/
def rampTargetAgain : Target := ⟨1, rampTarget.image⟩

def flatTarget : Target := ⟨2, .ofFn 2 2 (.channels 3) fun _ _ _ => 4⟩

/-- Both targets that look alike have entries of their own, and neither gets a second one. -/
theorem rampTargets_replies :
    let uses := [.values rampTarget, .score flatState rampInputs rampTargetAgain noisyRows,
      .values flatTarget, .elsewhere fun _ => ⟨[3, 4, 5, 6, 7, 8]⟩,
      .score flatState rampInputs rampTarget noisyRows, .values rampTargetAgain]
    let served := twentyStepScorer.useAll uses (.ofSource ⟨[5, 8]⟩)
    served.1 = (twentyStepScorer.useAllAfresh uses ⟨[5, 8]⟩).1 ∧
      served.2.cache.Sound twentyStepScorer ∧ served.2.cache.keys = [0, 1, 2] ∧
      ∃ values, twentyStepScorer.caseValues rampTarget.image = .ok values ∧
        served.2.cache.get? 1 = some (rampTargetAgain, values) := by
  intro uses served
  obtain ⟨replies, -, sound, cache, -⟩ := Scorer.replies_as_afresh twentyStepScorer uses ⟨[5, 8]⟩
  refine ⟨replies, sound, ?_, _, rfl, ?_⟩
  · rw [cache]
    rfl
  · rw [cache]
    rfl

end PictureEvolution
