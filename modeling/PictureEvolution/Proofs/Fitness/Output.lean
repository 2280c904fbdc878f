import PictureEvolution.Fitness.Scorer
import PictureEvolution.Proofs.Machine.Drawing
import PictureEvolution.Proofs.Machine.Transcripts
import PictureEvolution.Proofs.Machine.Validation

/-!
# What a program leaves

Running a program again on the same images takes the same course, whatever is drawn: it leaves an
image whenever it did before, and of the same shape. It is the same image when the draws get the
same answers.
-/

namespace PictureEvolution

variable {ω : Type} [Source ω] {N : String → Prop} {S : Nat → Nat → Prop} {s s' : State}
  {inputs : Nat}

namespace InstructionSet

section Drain

variable (known : ∀ name, N name → (pictures inputs : InstructionSet ω).contains name = true)
  (positive : ∀ height width, S height width → 0 < height ∧ 0 < width)

include known positive

/-- Two runs from alike states come to their ends together or are stopped together. -/
theorem drain_alike (h : s.Alike N S s') (fault : State → Fault) (n : Nat) (w w' : ω) :
    (∃ t x t' x', ((pictures inputs).drain fault n s).Yields w t x ∧
      ((pictures inputs).drain fault n s').Yields w' t' x' ∧ t.Alike N S t') ∨
    ∃ t x t' x', ((pictures inputs).drain fault n s).Fails w (fault t) x ∧
      ((pictures inputs).drain fault n s').Fails w' (fault t') x' := by
  induction n generalizing s s' w w' with
  | zero =>
    by_cases empty : s.stack .exec = []
    · exact .inl ⟨s, w, s', w', drain_of_empty empty,
        drain_of_empty (h.exec_eq_nil_iff.mpr empty), h⟩
    · have pending := mt h.exec_eq_nil_iff.mp empty
      exact .inr ⟨s, w, s', w', Steps.drain_fails .refl empty, Steps.drain_fails .refl pending⟩
  | succ n ih =>
    by_cases empty : s.stack .exec = []
    · exact .inl ⟨s, w, s', w', drain_of_empty empty,
        drain_of_empty (h.exec_eq_nil_iff.mpr empty), h⟩
    · obtain ⟨t, x, t', x', one, one', alike⟩ := step_alike h known positive empty w w'
      rw [drain_of_pending empty, drain_of_pending (mt h.exec_eq_nil_iff.mp empty)]
      unfold Task.Yields Task.Fails
      rw [Task.bind_of_yields one, Task.bind_of_yields one']
      exact ih alike x x'

end Drain

end InstructionSet

namespace Scorer

variable {limit : Limit} {initial : State} {values : List Value} {p : Program}

/-- What is left of a run. Nothing is left of one that its fuel cuts off. -/
def remains : Except Fault State → Except Fault (Option Value)
  | .ok final => .ok (final.peek? .image)
  | .error (.fuelExhausted _ _) => .ok none
  | .error fault => .error fault

section Output

omit [Source ω]

variable {set : InstructionSet ω} {w x : ω}

theorem output_eq : output set limit initial values p w =
    (remains (set.run limit p (initial.loadInputs values) w).1,
      (set.run limit p (initial.loadInputs values) w).2) := by
  unfold output
  split
  next t x ran => rw [ran, remains]
  next t fuel x ran => rw [ran, remains]
  next fault x others ran =>
    rw [ran]
    cases fault with
    | fuelExhausted t fuel => exact absurd rfl (others t fuel)
    | _ => rfl

theorem output_of_yields {t : State}
    (h : (set.run limit p (initial.loadInputs values)).Yields w t x) :
    (output set limit initial values p).Yields w (t.peek? .image) x := by
  rw [Task.Yields, output_eq,
    show set.run limit p (initial.loadInputs values) w = (.ok t, x) from h]
  rfl

theorem output_of_exhausted {t : State} {fuel : Int}
    (h : (set.run limit p (initial.loadInputs values)).Fails w (.fuelExhausted t fuel) x) :
    (output set limit initial values p).Yields w none x := by
  rw [Task.Yields, output_eq, show set.run limit p (initial.loadInputs values) w = _ from h]
  rfl

/-- Only a program that passes validation leaves anything. -/
theorem validate_of_output {v : Option Value}
    (h : (output set limit initial values p).Yields w v x) : set.validate p = .ok () := by
  cases checked : set.validate p with
  | ok u => rfl
  | error fault =>
    have unknown : ∃ name path, fault = .unknownInstruction name path := by
      unfold InstructionSet.validate at checked
      split at checked
      · cases checked
      next name path _ =>
        cases checked
        exact ⟨name, path, rfl⟩
    obtain ⟨name, path, rfl⟩ := unknown
    rw [Task.Yields, output_eq, InstructionSet.run, checked] at h
    cases h

end Output

/-- What a program leaves depends on the answers to its draws only. -/
theorem transcribed_output (inputs : Nat) (limit : Limit) (initial : State) (values : List Value)
    (p : Program) :
    Task.Transcribed fun _ => output (InstructionSet.pictures inputs) limit initial values p := by
  intro ω _ w before
  obtain ⟨answers, recorded, scripted⟩ :=
    InstructionSet.transcribed_run inputs limit p (initial.loadInputs values) ω w before
  dsimp only at recorded scripted ⊢
  refine ⟨answers, ?_, fun rest => ?_⟩
  · rw [output_eq, output_eq, recorded]
  · rw [output_eq, output_eq, scripted rest]

def Presentable (S : Nat → Nat → Prop) (v : Option Value) : Prop :=
  ∀ u, v = some u → ∃ img, u = .image img ∧ img.Admitted S

theorem Presentable.exists_image {v : Option Value} (h : Presentable S v) :
    ∃ shown : Option Image, v = shown.map .image := by
  cases v with
  | none => exact ⟨none, rfl⟩
  | some u =>
    obtain ⟨img, rfl, -⟩ := h u rfl
    exact ⟨some img, rfl⟩

inductive AlikeOutputs (S : Nat → Nat → Prop) : Option Value → Option Value → Prop
  | nothing : AlikeOutputs S none none
  | images {a b : Image} : a.Admitted S → b.SameShape a →
      AlikeOutputs S (some (.image a)) (some (.image b))

theorem AlikeOutputs.presentable {v v' : Option Value} (h : AlikeOutputs S v v') :
    Presentable S v' := by
  cases h with
  | nothing => exact nofun
  | images admitted same =>
    rintro _ ⟨⟩
    exact ⟨_, rfl, admitted.of_sameShape same⟩

theorem AlikeOutputs.of_images {x y : Option Image}
    (h : AlikeOutputs S (x.map .image) (y.map .image)) :
    (x = none ↔ y = none) ∧ ∀ img ∈ x, ∀ img' ∈ y, img'.SameShape img := by
  cases x with
  | none =>
    cases y with
    | none => exact ⟨Iff.rfl, nofun⟩
    | some b => cases h
  | some a =>
    cases y with
    | none => cases h
    | some b =>
      cases h with
      | images admitted same =>
        refine ⟨by simp, ?_⟩
        rintro _ ⟨⟩ _ ⟨⟩
        exact same

omit [Source ω] in
theorem alikeOutputs_top (h : s.Alike N S s') :
    AlikeOutputs S (s.peek? .image) (s'.peek? .image) := by
  rw [State.peek?, State.peek?, if_neg (by decide), if_neg (by decide)]
  cases hs : s.stack .image with
  | nil =>
    rw [h.image_nil hs]
    exact .nothing
  | cons top rest =>
    obtain ⟨a, a', rest', rfl, hs', admitted, same⟩ := h.image_cons hs
    rw [hs']
    exact .images admitted same

section Course

variable (positive : ∀ height width, S height width → 0 < height ∧ 0 < width)
  (loaded : (initial.loadInputs values).Pictured S)

include positive loaded

/-- A program that came to an output once does so again, whatever is drawn, and leaves nothing or an
image of the same shape as before. -/
theorem output_again {w x : ω} {v : Option Value}
    (h : (output (InstructionSet.pictures inputs) limit initial values p).Yields w v x) (w' : ω) :
    ∃ v' x', (output (InstructionSet.pictures inputs) limit initial values p).Yields w' v' x' ∧
      AlikeOutputs S v v' := by
  have valid := validate_of_output h
  have start := (loaded.alike _).loadExec (InstructionSet.validate_eq_ok_iff.mp valid)
  have run (u : ω) : (InstructionSet.pictures inputs).run limit p (initial.loadInputs values) u =
      (InstructionSet.pictures inputs).drain limit.fault limit.bound
        ((initial.loadInputs values).loadExec p) u := by
    rw [InstructionSet.run, valid]
  obtain ⟨t, y, t', y', ended, ended', alike⟩ | ⟨t, y, t', y', stopped, stopped'⟩ :=
    InstructionSet.drain_alike (fun _ known => known) positive start limit.fault limit.bound w w'
  · obtain ⟨rfl, -⟩ := h.unique (output_of_yields ((run w).trans ended))
    exact ⟨_, y', output_of_yields ((run w').trans ended'), alikeOutputs_top alike⟩
  · cases limit with
    | steps fuel =>
      obtain ⟨rfl, -⟩ := h.unique (output_of_exhausted ((run w).trans stopped))
      exact ⟨none, y', output_of_exhausted ((run w').trans stopped'), .nothing⟩
    | unlimited horizon =>
      have failed := (run w).trans stopped
      rw [Task.Yields, output_eq, failed] at h
      cases h

/-- A program that mentions no drawing instruction leaves the source as it is. -/
theorem output_silent (quiet : ∀ name ∈ Element.namesAll p, name ∉ drawingNames) :
    (output (InstructionSet.pictures inputs : InstructionSet ω) limit initial values p).Silent := by
  intro w
  have run :
      ((InstructionSet.pictures inputs).run limit p (initial.loadInputs values) w).2 = w := by
    rw [InstructionSet.run]
    cases checked : (InstructionSet.pictures inputs : InstructionSet ω).validate p with
    | error fault => rfl
    | ok u =>
      have known := InstructionSet.validate_eq_ok_iff.mp checked
      have start := (loaded.alike fun name =>
        (InstructionSet.pictures inputs : InstructionSet ω).contains name = true ∧
          name ∉ drawingNames).loadExec fun name hn => ⟨known name hn, quiet name hn⟩
      exact InstructionSet.drain_silent (fun _ both => both.2) (fun _ both => both.1) positive _ _
        start w
  rw [output_eq]
  exact run

end Course

end Scorer

end PictureEvolution
