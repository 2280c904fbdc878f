import PictureEvolution.Machine.Run
import PictureEvolution.Proofs.Program.Contents

/-!
# Validation

A program passes validation when every name in it, at any depth, has an action. So a program whose
elements all stand in another one passes when that one does.
-/

namespace PictureEvolution

namespace Element

mutual

theorem firstUnknown?_eq_none_iff (known : String → Bool) (path : List Nat) (e : Element) :
    firstUnknown? known path e = none ↔ ∀ name ∈ e.names, known name = true := by
  cases e with
  | literal value => simp [firstUnknown?, names]
  | instruction name =>
    rw [firstUnknown?]
    split <;> simp_all [names]
  | block elements =>
    rw [firstUnknown?, names]
    exact firstUnknownFrom?_eq_none_iff known path 0 elements

theorem firstUnknownFrom?_eq_none_iff (known : String → Bool) (path : List Nat) (place : Nat)
    (elements : List Element) :
    firstUnknownFrom? known path place elements = none ↔
      ∀ name ∈ namesAll elements, known name = true := by
  cases elements with
  | nil => simp [firstUnknownFrom?, namesAll]
  | cons e rest =>
    have first := firstUnknown?_eq_none_iff known (path ++ [place]) e
    have others := firstUnknownFrom?_eq_none_iff known path (place + 1) rest
    rw [firstUnknownFrom?, namesAll, List.forall_mem_append, ← first, ← others]
    split
    next found h => simp [h]
    next h => simp [h]

end

end Element

namespace InstructionSet

variable {ω : Type} {set : InstructionSet ω}

theorem validate_eq_ok_iff {p : Program} :
    set.validate p = .ok () ↔ ∀ name ∈ Element.namesAll p, set.contains name = true := by
  rw [← Element.firstUnknownFrom?_eq_none_iff _ [] 0, validate]
  split
  next h => simp [h]
  next h => simp [h]

/-- What passes validation as a whole passes it in every part. -/
theorem validate_of_subset {p q : Program} (subset : ∀ e ∈ q, e ∈ p)
    (valid : set.validate p = .ok ()) : set.validate q = .ok () := by
  rw [validate_eq_ok_iff] at valid ⊢
  intro name hn
  obtain ⟨e, he, hn⟩ := Element.mem_namesAll.mp hn
  exact valid name (Element.mem_namesAll.mpr ⟨e, subset e he, hn⟩)

end InstructionSet

end PictureEvolution
