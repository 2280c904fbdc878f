import PictureEvolution.Machine.Pictures
import PictureEvolution.Proofs.Machine.Moves

/-!
# The picture instructions as a set

The basic instructions, the filters and merges, and the instructions of some inputs. What a name
means in this set is one of five things, and none of its functions touches the inputs.
-/

namespace PictureEvolution

namespace Table

variable {κ α : Type} [DecidableEq κ] {t : Table κ α} {k : κ} {a : α}

/-- What is found after inserting entries was inserted or there before. -/
theorem get?_insertAll_cases {entries : List (κ × α)} (h : (t.insertAll entries).get? k = some a) :
    (k, a) ∈ entries ∨ t.get? k = some a := by
  induction entries generalizing t with
  | nil => exact .inr h
  | cons e rest ih =>
    rcases ih h with later | before
    · exact .inl (.tail _ later)
    · rw [get?_insert] at before
      split at before
      next same =>
        cases before
        subst same
        exact .inl (.head _)
      next => exact .inr before

/-- Entries of other keys do not change what is found. -/
theorem get?_insertAll_of_not_mem {entries : List (κ × α)} (h : k ∉ entries.map Prod.fst) :
    (t.insertAll entries).get? k = t.get? k := by
  induction entries generalizing t with
  | nil => rfl
  | cons e rest ih =>
    rw [List.map_cons, List.mem_cons, not_or] at h
    exact (ih h.2).trans (by rw [get?_insert, if_neg h.1])

end Table

namespace InstructionSet

variable {ω : Type}

theorem get?_basic_cases {name : String} {action : Action ω} (h : basic.get? name = some action) :
    (name = dupName ∧ action = .dup) ∨ (name = branchName ∧ action = .branch) := by
  rw [Table.get?, basic] at h
  simp only [Table.find] at h
  split at h
  next same =>
    cases h
    exact .inl ⟨same.symm, rfl⟩
  next =>
    split at h
    next same =>
      cases h
      exact .inr ⟨same.symm, rfl⟩
    next => cases h

variable [Source ω]

def pictures (inputs : Nat) : InstructionSet ω :=
  (basic.insertAll Action.pictures).insertAll (Action.inputs inputs)

theorem get?_pictures_cases {inputs : Nat} {name : String} {action : Action ω}
    (h : (pictures inputs).get? name = some action) :
    (name = dupName ∧ action = .dup) ∨ (name = branchName ∧ action = .branch) ∨
      (∃ f : Filter, name = f.name ∧ action = .ofFilter f) ∨
      (∃ m : Merge, name = m.name ∧ action = .ofMerge m) ∨ ∃ key, action = .input key := by
  rcases Table.get?_insertAll_cases h with later | before
  · simp only [Action.inputs, List.mem_map, Prod.mk.injEq] at later
    obtain ⟨i, -, -, rfl⟩ := later
    exact .inr (.inr (.inr (.inr ⟨_, rfl⟩)))
  · rcases Table.get?_insertAll_cases before with picture | first
    · simp only [Action.pictures, List.mem_append, List.mem_map, Prod.mk.injEq] at picture
      rcases picture with ⟨f, -, rfl, rfl⟩ | ⟨m, -, rfl, rfl⟩
      · exact .inr (.inr (.inl ⟨f, rfl, rfl⟩))
      · exact .inr (.inr (.inr (.inl ⟨m, rfl, rfl⟩)))
    · rcases get?_basic_cases first with isDup | isBranch
      · exact .inl isDup
      · exact .inr (.inl isBranch)

/-- The functions of the set take images and return one. -/
theorem value_pictures {inputs : Nat} {name : String} {f : List Value → Task ω Value}
    {args : List StackName} {result : StackName}
    (h : (pictures inputs).get? name = some (.value f args result)) :
    (∀ arg ∈ args, arg = .image) ∧ result = .image := by
  rcases get?_pictures_cases h with ⟨-, he⟩ | ⟨-, he⟩ | ⟨g, -, he⟩ | ⟨m, -, he⟩ | ⟨key, he⟩
  · cases he
  · cases he
  · cases he
    simp
  · cases he
    simp
  · cases he

theorem sparesInputs_pictures (inputs : Nat) :
    (pictures inputs : InstructionSet ω).SparesInputs := by
  intro name f args result h
  obtain ⟨images, rfl⟩ := value_pictures h
  exact ⟨fun mem => absurd (images _ mem) (by decide), by decide⟩

omit [Source ω] in
theorem not_mem_inputs {name : String} (inputs : Nat) (h : name.toList.head? ≠ some 'i') :
    name ∉ (Action.inputs inputs : List (String × Action ω)).map Prod.fst := by
  simp only [Action.inputs, List.map_map, List.mem_map, not_exists, not_and]
  rintro i - rfl
  apply h
  simp [State.inputKey]

@[simp] theorem get?_pictures_dup (inputs : Nat) :
    (pictures inputs : InstructionSet ω).get? dupName = some .dup := by
  rw [pictures, Table.get?_insertAll_of_not_mem (not_mem_inputs inputs (by decide))]
  rfl

@[simp] theorem get?_pictures_branch (inputs : Nat) :
    (pictures inputs : InstructionSet ω).get? branchName = some .branch := by
  rw [pictures, Table.get?_insertAll_of_not_mem (not_mem_inputs inputs (by decide))]
  rfl

end InstructionSet

end PictureEvolution
