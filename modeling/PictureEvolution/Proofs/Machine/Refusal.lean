import PictureEvolution.Proofs.Machine.Task
import PictureEvolution.Proofs.Program.Occurrences

/-!
# Refused programs

A program is refused for the first name in it that has no action, and the refusal tells where that
name stands. Then nothing of the program is run: the fault is all that comes of it, whatever the
state, the limit and the source.
-/

namespace PictureEvolution.InstructionSet

variable {ω : Type} {set : InstructionSet ω} {p : Program} {fault : Fault}

theorem validate_eq_ok_iff_at? :
    set.validate p = .ok () ↔ ∀ path name,
      (Element.block p).at? path = some (.instruction name) → set.contains name = true := by
  rw [← Element.firstUnknown?_eq_none_iff_at?, validate, Element.firstUnknown?]
  cases Element.firstUnknownFrom? set.contains [] 0 p <;> simp

theorem validate_eq_error_iff :
    set.validate p = .error fault ↔ ∃ name path, fault = .unknownInstruction name path ∧
      Element.IsFirstUnknown set.contains (.block p) name path := by
  simp only [← Element.firstUnknown?_eq_some_iff, validate, Element.firstUnknown?]
  cases Element.firstUnknownFrom? set.contains [] 0 p with
  | none => simp
  | some found =>
    obtain ⟨name, path⟩ := found
    constructor
    · intro refused
      cases refused
      exact ⟨name, path, rfl, rfl⟩
    · rintro ⟨name, path, rfl, same⟩
      cases same
      rfl

/-- A refused program is not run. -/
theorem run_of_refused (refused : set.validate p = .error fault) (limit : Limit) (s : State) :
    set.run limit p s = throw fault := by
  rw [run, refused]

/-- A program passes when every name to which a path leads in it has an action. Otherwise the fault
tells of a name and its path such that the name has no action and all names at lexicographically
smaller paths have one, and a run is this fault, before anything is executed or drawn. -/
theorem refused_at_first_unknown (set : InstructionSet ω) (p : Program) :
    (set.validate p = .ok () ↔ ∀ path name,
      (Element.block p).at? path = some (.instruction name) → set.contains name = true) ∧
    (∀ fault, set.validate p = .error fault ↔ ∃ name path,
      fault = .unknownInstruction name path ∧
        Element.IsFirstUnknown set.contains (.block p) name path) ∧
    ∀ fault, set.validate p = .error fault → ∀ limit s, set.run limit p s = throw fault ∧
      ∀ w, (set.run limit p s).Fails w fault w := by
  refine ⟨validate_eq_ok_iff_at?, fun fault => validate_eq_error_iff,
    fun fault refused limit s => ?_⟩
  have thrown := run_of_refused refused limit s
  exact ⟨thrown, fun w => by rw [thrown, Task.fails_throw]; exact ⟨rfl, rfl⟩⟩

/-- Names without an action at several depths: `warp` stands before `apart` and `late`. -/
def unknownNames : Program :=
  [.instruction "exec_dup",
    .block [.literal (.int 1), .block [.instruction "exec_if"],
      .block [.instruction "warp", .instruction "late"], .instruction "apart"],
    .instruction "late"]

theorem unknownNames_refused :
    (basic : InstructionSet Script).validate unknownNames =
        .error (.unknownInstruction "warp" [1, 2, 0]) ∧
      (basic : InstructionSet Script).run (.steps 0) unknownNames .empty =
        throw (.unknownInstruction "warp" [1, 2, 0]) := by
  have refused : (basic : InstructionSet Script).validate unknownNames =
      .error (.unknownInstruction "warp" [1, 2, 0]) := by rfl
  exact ⟨refused, ((refused_at_first_unknown basic unknownNames).2.2 _ refused (.steps 0) .empty).1⟩

end PictureEvolution.InstructionSet
