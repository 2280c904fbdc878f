import PictureEvolution.Proofs.Machine.Likeness

/-!
# Which instructions draw

Five of the picture instructions draw. A program that mentions none of them, at any depth, runs
without drawing.
-/

namespace PictureEvolution

def Filter.draws : Filter → Bool
  | noise | rotate | scramble => true
  | invert | laplace | emboss | edge => false

def Merge.draws : Merge → Bool
  | rows | columns => true
  | and | or | xor => false

def drawingNames : List String :=
  (Filter.all.filter Filter.draws).map Filter.name ++ (Merge.all.filter Merge.draws).map Merge.name

theorem Filter.draws_eq_false {f : Filter} (h : f.name ∉ drawingNames) : f.draws = false := by
  cases f <;> first | rfl | exact absurd (by decide) h

theorem Merge.draws_eq_false {m : Merge} (h : m.name ∉ drawingNames) : m.draws = false := by
  cases m <;> first | rfl | exact absurd (by decide) h

variable {ω : Type} [Source ω]

theorem Filter.silent_apply {f : Filter} (h : f.draws = false) (img : Image) :
    (f.apply img : Task ω Image).Silent := by
  have option (r : Option Image) : (Task.ofOption .noPixels r : Task ω Image).Silent := by
    cases r with
    | none => exact .throw _
    | some a => exact .pure a
  cases f with
  | invert => exact .pure _
  | laplace => exact option _
  | emboss => exact option _
  | edge => exact option _
  | noise => cases h
  | rotate => cases h
  | scramble => cases h

theorem Merge.silent_apply {m : Merge} (h : m.draws = false) (a b : Image) :
    (m.apply a b : Task ω Image).Silent := by
  unfold Merge.apply
  split
  · cases m with
    | and => exact .pure _
    | or => exact .pure _
    | xor => exact .pure _
    | rows => cases h
    | columns => cases h
  · exact .throw _

namespace State

omit [Source ω] in
theorem silent_invoke {f : List Value → Task ω Value} (h : ∀ vs, (f vs).Silent) (s : State)
    (args : List StackName) (result : StackName) : (s.invoke f args result).Silent := by
  unfold invoke
  split
  · exact .pure s
  · exact (h _).bind fun _ => .pure _

end State

namespace Action

theorem silent_onOne {f : Filter} (h : f.draws = false) (vs : List Value) :
    (onOne f vs : Task ω Value).Silent := by
  unfold onOne
  split
  · exact (f.silent_apply h _).bind fun _ => .pure _
  · exact .throw _

theorem silent_onTwo {m : Merge} (h : m.draws = false) (vs : List Value) :
    (onTwo m vs : Task ω Value).Silent := by
  unfold onTwo
  split
  · exact (m.silent_apply h _ _).bind fun _ => .pure _
  · exact .throw _

omit [Source ω] in
theorem silent_liftExcept {α : Type} (r : Except Fault α) :
    (apply.liftExcept r : Task ω α).Silent := by
  cases r with
  | error fault => exact .throw fault
  | ok a => exact .pure a

end Action

namespace InstructionSet

variable {N : String → Prop} {S : Nat → Nat → Prop} {s s' : State} {inputs : Nat}
  (quiet : ∀ name, N name → name ∉ drawingNames)

include quiet

theorem step_silent (h : s.Alike N S s') :
    ((pictures inputs).step s : Task ω State).Silent := by
  cases hs : s.stack .exec with
  | nil =>
    unfold step
    rw [hs]
    exact .pure s
  | cons top rest =>
    obtain ⟨e, rest', rfl, names, -, -⟩ := h.exec_cons hs
    cases e with
    | literal value =>
      rw [step_literal hs]
      exact .pure _
    | block p =>
      rw [step_block hs]
      exact .pure _
    | instruction name =>
      have noDraw := quiet name (names name List.mem_cons_self)
      rw [step_instruction hs]
      cases found : (pictures inputs : InstructionSet ω).get? name with
      | none => exact .throw _
      | some action =>
        dsimp only
        obtain ⟨-, rfl⟩ | ⟨-, rfl⟩ | ⟨f, rfl, rfl⟩ | ⟨m, rfl, rfl⟩ | ⟨key, rfl⟩ :=
          get?_pictures_cases found
        · exact .pure _
        · exact Action.silent_liftExcept _
        · exact State.silent_invoke (Action.silent_onOne (Filter.draws_eq_false noDraw)) _ _ _
        · exact State.silent_invoke (Action.silent_onTwo (Merge.draws_eq_false noDraw)) _ _ _
        · exact Action.silent_liftExcept _

/-- A run without drawing instructions draws nothing, wherever it is stopped. -/
theorem drain_silent
    (known : ∀ name, N name → (pictures inputs : InstructionSet ω).contains name = true)
    (positive : ∀ height width, S height width → 0 < height ∧ 0 < width) (fault : State → Fault)
    (n : Nat) (h : s.Alike N S s) : ((pictures inputs).drain fault n s : Task ω State).Silent := by
  intro w
  induction n generalizing s w with
  | zero =>
    unfold drain
    split <;> rfl
  | succ n ih =>
    by_cases empty : s.stack .exec = []
    · rw [drain_of_empty empty]
    · obtain ⟨t, x, t', x', one, one', alike⟩ := step_alike h known positive empty w w
      obtain ⟨rfl, -⟩ := one.unique one'
      have same : x = w := one.snd.symm.trans (step_silent quiet h w)
      rw [drain_of_pending empty, Task.bind_of_yields one, same]
      exact ih alike w

end InstructionSet

end PictureEvolution
