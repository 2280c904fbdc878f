import PictureEvolution.Proofs.Evolution.Selection
import Mathlib.Data.List.Nodup

/-!
# Two parents

Individuals are told apart by their places only, so that twins remain two. Here the entries of a
population are distinct objects with individuals as their contents: the second parent of a child is
selected from the objects without the first parent, in their order, whatever their contents are.
The selection stops only at a number that no double comes near.
-/

namespace PictureEvolution

theorem Lexicase.select_failsOnly {κ : Type} {rule : Survival κ} {P : κ → Prop} {F : Fault → Prop}
    (faults : ∀ es : List κ, (∀ e ∈ es, P e) → ∀ fault, rule es = .error fault → F fault)
    {ω : Type} [Source ω] {n : Nat} {pos : 0 < n} {errors : Fin n → List κ}
    (sound : ∀ i, ∀ e ∈ errors i, P e) {cases : Nat} (covered : ∀ i, (errors i).length = cases) :
    Task.FailsOnly F (select rule pos errors : Task ω (Fin n)) := by
  unfold select
  have shuffled := Draw.gives_shuffle (ω := ω) (List.range (errors ⟨0, pos⟩).length)
  refine (Task.FailsOnly.ofDraw _).bind (.ofDraw shuffled) fun order perm => ?_
  have within : ∀ i, ∀ case ∈ order, case < (errors i).length := fun i case hc => by
    have lt := List.mem_range.mp (perm.mem_iff.mp hc)
    rwa [covered] at lt ⊢
  split
  next fault winnowed => exact .throw (fault_of_winnow faults sound within winnowed)
  next => exact .ofDraw _
  next => exact .pure _
  next => exact .ofDraw _

namespace Population

/-- The tolerance or an error of somebody comes near no double. -/
def Unreadable (population : List Individual) (epsilon : Option Score) : Prop :=
  ∃ a, (a ∈ epsilon ∨ ∃ i ∈ population, a ∈ i.errors) ∧ ¬ a.Approximable

theorem Unreadable.of_others {population : List Individual} {place : Nat} {epsilon : Option Score}
    (unreadable : Unreadable (others population place) epsilon) :
    Unreadable population epsilon := by
  obtain ⟨a, origin | ⟨i, hi, ha⟩, far⟩ := unreadable
  · exact ⟨a, .inl origin, far⟩
  · exact ⟨a, .inr ⟨i, mem_of_mem_others hi, ha⟩, far⟩

theorem lexicase_failsOnly {ω : Type} [Source ω] {population : List Individual} {cases : Nat}
    (inhabited : population ≠ []) (positive : 0 < cases)
    (covered : ∀ i ∈ population, i.errors.length = cases) (epsilon : Option Score) :
    Task.FailsOnly (fun fault => fault = .score .integerTooLarge ∧ Unreadable population epsilon)
      (lexicase population epsilon : Task ω (Fin population.length)) := by
  rw [lexicase_eq_select inhabited positive covered]
  refine Lexicase.select_failsOnly (fun es members fault h => ?_)
    (fun i e he => (⟨_, List.get_mem population i, he⟩ : ∃ i ∈ population, e ∈ i.errors))
    fun i => covered _ (List.get_mem population i)
  cases ruled : Tolerance.survives epsilon es with
  | ok survives => rw [ruled] at h; cases h
  | error reason =>
    rw [ruled] at h
    cases h
    obtain ⟨a, origin, failed⟩ := Tolerance.error_of_survives ruled
    obtain ⟨rfl, far⟩ := Score.fault_of_toFloat failed
    exact ⟨rfl, a, origin.imp_right (members a), far⟩

end Population

namespace Config

variable {ω : Type} [Source ω] {c : Config}

def vary (c : Config) (first second : Individual) : Task ω Individual := do
  let op ← Task.ofDraw Operator.pick
  let p ← op.apply first.program second.program c.catalog
  return .ofProgram p

theorem child_eq (c : Config) (population : List Individual) :
    (c.child population : Task ω Individual) =
      c.couple population >>= fun parents => c.vary parents.firstParent parents.secondParent := rfl

/-- Both methods select from whom they are given, or stop at a number that no double comes near. -/
theorem selectFrom_failsOnly {pool : List Individual} (inhabited : pool ≠ []) {cases : Nat}
    (positive : 0 < cases) (covered : ∀ i ∈ pool, i.errors.length = cases)
    (size : 1 ≤ c.tournamentSize)
    (method : c.selectionMethod = .tournament ∨ c.selectionMethod = .lexicase) :
    Task.FailsOnly (fun fault => fault = .score .integerTooLarge ∧ c.selectionMethod = .lexicase ∧
      Population.Unreadable pool c.epsilon) (c.selectFrom pool : Task ω (Fin pool.length)) := by
  unfold selectFrom Population.parent
  rcases method with method | method
  · rw [method]
    exact (Population.tournament_succeeds inhabited size).failsOnly
  · rw [method]
    have stops := Population.lexicase_failsOnly (ω := ω) inhabited positive covered c.epsilon
    exact stops.mono fun fault ⟨known, unreadable⟩ => ⟨known, rfl, unreadable⟩

theorem yields_couple {population : List Individual} {parents : Couple population} {w w'' : ω} :
    (c.couple population).Yields w parents w'' ↔ ∃ w',
      (c.selectFrom population).Yields w parents.first w' ∧
      (c.selectFrom (Population.others population parents.first)).Yields w' parents.second w'' := by
  unfold couple
  constructor
  · intro yields
    obtain ⟨first, w', selected, next⟩ := Task.yields_bind.mp yields
    obtain ⟨second, w₂, selected', last⟩ := Task.yields_bind.mp next
    obtain ⟨rfl, rfl⟩ := Task.yields_pure.mp last
    exact ⟨w', selected, selected'⟩
  · rintro ⟨w', selected, selected'⟩
    refine Task.yields_bind.mpr ⟨_, w', selected, ?_⟩
    exact Task.yields_bind.mpr ⟨_, w'', selected', Task.yields_pure.mpr ⟨rfl, rfl⟩⟩

theorem couple_failsOnly {population : List Individual} (inhabited : population ≠ []) {cases : Nat}
    (positive : 0 < cases) (covered : ∀ i ∈ population, i.errors.length = cases)
    (size : 1 ≤ c.tournamentSize)
    (method : c.selectionMethod = .tournament ∨ c.selectionMethod = .lexicase) :
    Task.FailsOnly (fun fault => fault = .score .integerTooLarge ∧ c.selectionMethod = .lexicase ∧
      Population.Unreadable population c.epsilon)
      (c.couple population : Task ω (Couple population)) := by
  have selects := selectFrom_failsOnly (ω := ω) inhabited positive covered size method
  refine selects.bind (.any _) fun first _ => ?_
  have second := selectFrom_failsOnly (ω := ω) (Population.others_ne_nil inhabited first) positive
    (fun i hi => covered i (Population.mem_of_mem_others hi)) size method
  exact (second.mono fun fault ⟨known, lexicase, unreadable⟩ =>
    ⟨known, lexicase, unreadable.of_others⟩).bind (.any _) fun _ _ => .pure _

end Config

section Objects

variable {α : Type} [DecidableEq α] {content : α → Individual} {objects : List α}

/-- What is left of some objects without one of them; all of them, if nothing would be. -/
def without (objects : List α) (chosen : α) : List α :=
  match objects.erase chosen with
  | [] => objects
  | rest => rest

theorem others_map (distinct : objects.Nodup) {place : Nat} (lt : place < objects.length) :
    Population.others (objects.map content) place =
      (without objects objects[place]).map content := by
  unfold Population.others without
  rw [List.eraseIdx_map, distinct.erase_getElem place lt]
  cases objects.eraseIdx place with
  | nil => rfl
  | cons o rest => rfl

theorem mem_of_mem_without {first second : α} (h : second ∈ without objects first) :
    second ∈ objects := by
  unfold without at h
  split at h
  · exact h
  · exact List.mem_of_mem_erase h

theorem without_of_several {first : α} (member : first ∈ objects) (several : 1 < objects.length) :
    without objects first = objects.erase first := by
  have length := List.length_erase_of_mem member
  unfold without
  split
  next empty =>
    rw [empty, List.length_nil] at length
    omega
  next => rfl

/-- The parents are these two objects, the second one among those that are left without the
first. -/
structure Couple.Of (content : α → Individual) (objects : List α)
    (parents : Couple (objects.map content)) (first second : α) : Prop where
  found : objects[parents.first.val]? = some first
  offered : Population.others (objects.map content) parents.first =
    (without objects first).map content
  selected : (without objects first)[parents.second.val]? = some second

variable {parents : Couple (objects.map content)} {first second : α}

theorem Couple.exists_of (distinct : objects.Nodup) (parents : Couple (objects.map content)) :
    ∃ first second, parents.Of content objects first second := by
  obtain ⟨⟨i, hi⟩, ⟨j, hj⟩⟩ := parents
  have lt : i < objects.length := by simpa using hi
  have offered : Population.others (objects.map content) i =
      (without objects objects[i]).map content := others_map distinct lt
  have lt' : j < (without objects objects[i]).length := by simpa [offered] using hj
  exact ⟨objects[i], (without objects objects[i])[j], List.getElem?_eq_getElem lt, offered,
    List.getElem?_eq_getElem lt'⟩

namespace Couple.Of

variable (these : parents.Of content objects first second)

include these

theorem firstParent_eq : parents.firstParent = content first := by
  have found : (objects.map content)[parents.first.val]? = some (content first) := by
    rw [List.getElem?_map, these.found]
    rfl
  exact (List.getElem?_eq_some_iff.mp found).2

theorem secondParent_eq : parents.secondParent = content second := by
  have found : ((without objects first).map content)[parents.second.val]? =
      some (content second) := by
    rw [List.getElem?_map, these.selected]
    rfl
  rw [← these.offered] at found
  exact (List.getElem?_eq_some_iff.mp found).2

theorem first_mem : first ∈ objects := List.mem_of_getElem? these.found

theorem second_mem : second ∈ objects := mem_of_mem_without (List.mem_of_getElem? these.selected)

theorem second_ne_first (distinct : objects.Nodup) (several : 1 < objects.length) :
    second ≠ first := by
  have selected := List.mem_of_getElem? these.selected
  rw [without_of_several these.first_mem several] at selected
  exact (distinct.mem_erase_iff.mp selected).1

theorem second_eq_first (single : objects.length = 1) : second = first := by
  obtain ⟨only, rfl⟩ := List.length_eq_one_iff.mp single
  exact (List.mem_singleton.mp these.second_mem).trans
    (List.mem_singleton.mp these.first_mem).symm

end Couple.Of

namespace Config

variable {c : Config}

/-- A child of distinct objects has two of them as parents: the second one is selected from the
objects without the first, in their order, and is another one unless there is no other. Otherwise
its selection stops, case by case, at a number that no double comes near. -/
theorem parents_apart (distinct : objects.Nodup) (inhabited : objects ≠ []) {cases : Nat}
    (positive : 0 < cases) (covered : ∀ o ∈ objects, (content o).errors.length = cases)
    (size : 1 ≤ c.tournamentSize)
    (method : c.selectionMethod = .tournament ∨ c.selectionMethod = .lexicase)
    (ω : Type) [Source ω] (w : ω) :
    (∃ (parents : Couple (objects.map content)) (first second : α) (w' w'' : ω),
      parents.Of content objects first second ∧
      (c.selectFrom (objects.map content)).Yields w parents.first w' ∧
      (c.selectFrom (Population.others (objects.map content) parents.first)).Yields w'
        parents.second w'' ∧
      c.child (objects.map content) w = c.vary (content first) (content second) w'' ∧
      first ∈ objects ∧ second ∈ objects ∧
      (1 < objects.length → without objects first = objects.erase first ∧ second ≠ first) ∧
      (objects.length = 1 → second = first)) ∨
    ∃ w', (c.child (objects.map content)).Fails w (.score .integerTooLarge) w' ∧
      c.selectionMethod = .lexicase ∧
      Population.Unreadable (objects.map content) c.epsilon := by
  rcases (c.couple (objects.map content)).yields_or_fails w with ⟨parents, w'', yields⟩ | failed
  · obtain ⟨first, second, these⟩ := parents.exists_of distinct
    obtain ⟨w', selected, selected'⟩ := yields_couple.mp yields
    refine .inl ⟨parents, first, second, w', w'', these, selected, selected', ?_, these.first_mem,
      these.second_mem, fun several => ⟨without_of_several these.first_mem several, ?_⟩,
      these.second_eq_first⟩
    · rw [child_eq, Task.bind_of_yields yields, these.firstParent_eq, these.secondParent_eq]
    · exact these.second_ne_first distinct several
  · obtain ⟨fault, w', fails⟩ := failed
    obtain ⟨rfl, lexicase, unreadable⟩ :=
      couple_failsOnly (by simpa using inhabited) positive (by simpa using covered) size method w
        fault w' fails
    exact .inr ⟨w', Task.bind_of_fails fails, lexicase, unreadable⟩

/-- With a tolerance that is not a number nobody is left by the cases, and anyone is taken. -/
def nanTolerance : Config := { standard with epsilon := some (.real (0 / 0)) }

def twin (_ : Bool) : Individual := ⟨[], [.int 1, .int 0], .int 1⟩

theorem twins_apart : ∃ (first second : Bool) (w' : Script), second ≠ first ∧
    nanTolerance.child ([false, true].map twin) ⟨[0, 1]⟩ =
      nanTolerance.vary (twin first) (twin second) w' := by
  have covered : ∀ o ∈ [false, true], (twin o).errors.length = 2 := fun _ _ => rfl
  have size : 1 ≤ nanTolerance.tournamentSize := by decide
  rcases parents_apart (by decide) (List.cons_ne_nil false [true]) (by decide) covered size
      (.inr rfl) Script ⟨[0, 1]⟩ with
    ⟨-, first, second, -, w'', -, -, -, child, -, -, several, -⟩ | ⟨-, -, -, unreadable⟩
  · exact ⟨first, second, w'', (several (by decide)).2, child⟩
  · obtain ⟨a, given | ⟨i, hi, ha⟩, far⟩ := unreadable
    · cases given
      exact absurd (Score.approximable_real _) far
    · have sound : ∀ i ∈ [false, true].map twin, ∀ e ∈ i.errors, e.Approximable := by decide
      exact absurd (sound i hi a ha) far

end Config

end Objects

end PictureEvolution
