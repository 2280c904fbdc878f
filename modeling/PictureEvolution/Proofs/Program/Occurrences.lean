import Mathlib.Data.List.Lex
import PictureEvolution.Machine.Run

/-!
# Where names occur

A path of places leads from an element down through blocks. The names in an element, read from left
to right with the path to each, stand in the lexicographic order of their paths. So the search for a
name that is not known, which goes through an element in that order, finds the one whose path is the
least.
-/

namespace PictureEvolution.Element

/-- The element to which a path of places leads, one block after the other. -/
def at? : (path : List Nat) → Element → Option Element
  | [], e => some e
  | place :: path, block elements => elements[place]?.bind (at? path)
  | _ :: _, _ => none

@[simp] theorem at?_nil (e : Element) : at? [] e = some e := rfl

@[simp] theorem at?_block (place : Nat) (path : List Nat) (elements : List Element) :
    at? (place :: path) (block elements) = elements[place]?.bind (at? path) := rfl

@[simp] theorem at?_literal (place : Nat) (path : List Nat) (value : Literal) :
    at? (place :: path) (literal value) = none := rfl

@[simp] theorem at?_instruction (place : Nat) (path : List Nat) (name : String) :
    at? (place :: path) (instruction name) = none := rfl

mutual

/-- The names in an element from left to right, each with its path; `path` leads to the element. -/
def occurrences (path : List Nat) : Element → List (String × List Nat)
  | literal _ => []
  | instruction name => [(name, path)]
  | block elements => occurrencesFrom path 0 elements

/-- The same for the elements of a block, of which the first one stands at `place`. -/
def occurrencesFrom (path : List Nat) : (place : Nat) → List Element → List (String × List Nat)
  | _, [] => []
  | place, e :: rest => occurrences (path ++ [place]) e ++ occurrencesFrom path (place + 1) rest

end

mutual

theorem firstUnknown?_eq_find? (known : String → Bool) (path : List Nat) (e : Element) :
    firstUnknown? known path e = (occurrences path e).find? fun o => !known o.1 := by
  cases e with
  | literal value => rfl
  | instruction name =>
    rw [firstUnknown?, occurrences, List.find?_singleton]
    cases known name <;> rfl
  | block elements => exact firstUnknownFrom?_eq_find? known path 0 elements

theorem firstUnknownFrom?_eq_find? (known : String → Bool) (path : List Nat) (place : Nat)
    (elements : List Element) :
    firstUnknownFrom? known path place elements =
      (occurrencesFrom path place elements).find? fun o => !known o.1 := by
  cases elements with
  | nil => rfl
  | cons e rest =>
    rw [firstUnknownFrom?, occurrencesFrom, List.find?_append, ← firstUnknown?_eq_find?,
      ← firstUnknownFrom?_eq_find?]
    cases firstUnknown? known (path ++ [place]) e <;> rfl

end

mutual

/-- What occurs in an element is what paths lead to. -/
theorem mem_occurrences {name : String} {found : List Nat} (path : List Nat) (e : Element) :
    (name, found) ∈ occurrences path e ↔
      ∃ rest, found = path ++ rest ∧ e.at? rest = some (instruction name) := by
  cases e with
  | literal value =>
    refine ⟨nofun, fun ⟨rest, _, leads⟩ => ?_⟩
    cases rest <;> cases leads
  | instruction other =>
    rw [occurrences, List.mem_singleton, Prod.mk.injEq]
    constructor
    · rintro ⟨rfl, here⟩
      exact ⟨[], by rw [here, List.append_nil], rfl⟩
    · rintro ⟨rest, rfl, leads⟩
      cases rest with
      | nil =>
        cases leads
        exact ⟨rfl, List.append_nil path⟩
      | cons place rest => cases leads
  | block elements =>
    rw [occurrences, mem_occurrencesFrom path 0 elements]
    constructor
    · rintro ⟨i, rest, rfl, leads⟩
      exact ⟨i :: rest, by rw [Nat.zero_add], leads⟩
    · rintro ⟨rest, rfl, leads⟩
      cases rest with
      | nil => cases leads
      | cons i rest => exact ⟨i, rest, by rw [Nat.zero_add], leads⟩

theorem mem_occurrencesFrom {name : String} {found : List Nat} (path : List Nat) (place : Nat)
    (elements : List Element) :
    (name, found) ∈ occurrencesFrom path place elements ↔
      ∃ i rest, found = path ++ (place + i) :: rest ∧
        elements[i]?.bind (at? rest) = some (instruction name) := by
  cases elements with
  | nil => simp [occurrencesFrom]
  | cons e others =>
    rw [occurrencesFrom, List.mem_append, mem_occurrences (path ++ [place]) e,
      mem_occurrencesFrom path (place + 1) others]
    constructor
    · rintro (⟨rest, rfl, leads⟩ | ⟨i, rest, rfl, leads⟩)
      · exact ⟨0, rest, List.append_assoc path [place] rest, leads⟩
      · exact ⟨i + 1, rest, by rw [Nat.add_right_comm, Nat.add_assoc], leads⟩
    · rintro ⟨i, rest, rfl, leads⟩
      cases i with
      | zero => exact .inl ⟨rest, (List.append_assoc path [place] rest).symm, leads⟩
      | succ i => exact .inr ⟨i, rest, by rw [Nat.add_right_comm, Nat.add_assoc], leads⟩

end

mutual

/-- From left to right the paths grow. -/
theorem pairwise_occurrences (path : List Nat) (e : Element) :
    (occurrences path e).Pairwise fun o o' => o.2 < o'.2 := by
  cases e with
  | literal value => exact .nil
  | instruction name => exact List.pairwise_singleton _ _
  | block elements => exact pairwise_occurrencesFrom path 0 elements

theorem pairwise_occurrencesFrom (path : List Nat) (place : Nat) (elements : List Element) :
    (occurrencesFrom path place elements).Pairwise fun o o' => o.2 < o'.2 := by
  cases elements with
  | nil => exact .nil
  | cons e others =>
    rw [occurrencesFrom, List.pairwise_append]
    refine ⟨pairwise_occurrences _ e, pairwise_occurrencesFrom path (place + 1) others, ?_⟩
    rintro ⟨name, found⟩ first ⟨name', found'⟩ second
    obtain ⟨rest, rfl, -⟩ := (mem_occurrences _ e).mp first
    obtain ⟨i, rest', rfl, -⟩ := (mem_occurrencesFrom path (place + 1) others).mp second
    -- the two paths part at this block, where the first one takes the smaller place
    show path ++ [place] ++ rest < path ++ (place + 1 + i) :: rest'
    rw [List.append_assoc]
    exact List.append_left_lt (List.cons_lt_cons_iff.mpr (.inl (by omega)))

end

/-- At the path stands a name that is not known, and every name at a lexicographically smaller path
is known. -/
structure IsFirstUnknown (known : String → Bool) (e : Element) (name : String) (path : List Nat) :
    Prop where
  leads : e.at? path = some (instruction name)
  unknown : known name = false
  before : ∀ path' name', path' < path → e.at? path' = some (instruction name') →
    known name' = true

variable {known : String → Bool} {e : Element} {name name' : String} {path path' : List Nat}

/-- There is one first name only. -/
theorem IsFirstUnknown.unique (h : IsFirstUnknown known e name path)
    (h' : IsFirstUnknown known e name' path') : name = name' ∧ path = path' := by
  rcases lt_trichotomy path path' with smaller | rfl | greater
  · have found := h'.before path name smaller h.leads
    rw [h.unknown] at found
    cases found
  · have same := h.leads.symm.trans h'.leads
    simp only [Option.some.injEq, instruction.injEq] at same
    exact ⟨same, rfl⟩
  · have found := h.before path' name' greater h'.leads
    rw [h'.unknown] at found
    cases found

theorem isFirstUnknown_of_firstUnknown? (found : firstUnknown? known [] e = some (name, path)) :
    IsFirstUnknown known e name path := by
  have member {name : String} {path : List Nat} :
      (name, path) ∈ occurrences [] e ↔ e.at? path = some (instruction name) := by
    rw [mem_occurrences]
    simp
  have sorted := pairwise_occurrences [] e
  rw [firstUnknown?_eq_find?, List.find?_eq_some_iff_append] at found
  obtain ⟨unknown, before, after, split, known⟩ := found
  rw [split, List.pairwise_append, List.pairwise_cons] at sorted
  obtain ⟨-, ⟨behind, -⟩, -⟩ := sorted
  refine ⟨?_, by simpa using unknown, fun path' name' smaller leads => ?_⟩
  · rw [← member, split]
    exact List.mem_append_right _ List.mem_cons_self
  · rw [← member, split, List.mem_append, List.mem_cons] at leads
    rcases leads with early | same | late
    · simpa using known _ early
    · cases same
      exact absurd smaller (lt_irrefl path)
    · exact absurd smaller (lt_asymm (behind _ late))

/-- The search finds the first name that is not known. -/
theorem firstUnknown?_eq_some_iff :
    firstUnknown? known [] e = some (name, path) ↔ IsFirstUnknown known e name path := by
  refine ⟨isFirstUnknown_of_firstUnknown?, fun first => ?_⟩
  cases found : firstUnknown? known [] e with
  | none =>
    rw [firstUnknown?_eq_find?, List.find?_eq_none] at found
    have occurs := (mem_occurrences [] e).mpr ⟨path, rfl, first.leads⟩
    have contrary := found _ occurs
    rw [first.unknown] at contrary
    exact absurd rfl contrary
  | some other =>
    obtain ⟨rfl, rfl⟩ := (isFirstUnknown_of_firstUnknown? found).unique first
    rfl

/-- The search finds nothing when all names to which paths lead are known. -/
theorem firstUnknown?_eq_none_iff_at? :
    firstUnknown? known [] e = none ↔
      ∀ path name, e.at? path = some (instruction name) → known name = true := by
  rw [firstUnknown?_eq_find?, List.find?_eq_none]
  constructor
  · intro none path name leads
    have occurs := (mem_occurrences [] e).mpr ⟨path, rfl, leads⟩
    simpa using none _ occurs
  · rintro all ⟨name, path⟩ occurs
    obtain ⟨rest, same, leads⟩ := (mem_occurrences [] e).mp occurs
    simpa using all rest name leads

end PictureEvolution.Element
