import PictureEvolution.Proofs.Evolution.Variation
import PictureEvolution.Proofs.Score

/-!
# Selection succeeds

Where every individual has an error for each of the same cases, of which there is one at least, and
every error comes near a double, both methods select a parent, whatever the source answers: so they
do of a whole population and of the others of any first parent. Winnowing stops only when the rule
of survival does, and that stops only at a number that is not read as a double.
-/

namespace PictureEvolution

def Score.Approximable (a : Score) : Prop := ∃ x, a.toFloat = .ok x

@[simp] theorem Score.approximable_real (x : Float) : (Score.real x).Approximable := ⟨x, rfl⟩

theorem Score.approximable_iff {a : Score} : a.Approximable ↔ a.toFloat.isOk = true := by
  unfold Approximable
  cases a.toFloat with
  | error fault => simp [Except.isOk, Except.toBool]
  | ok x => simp [Except.isOk, Except.toBool]

instance (a : Score) : Decidable a.Approximable := decidable_of_iff _ Score.approximable_iff.symm

theorem Score.fault_of_toFloat {a : Score} {fault : ScoreFault} (h : a.toFloat = .error fault) :
    fault = .integerTooLarge ∧ ¬ a.Approximable := by
  constructor
  · cases a with
    | real x => cases h
    | int n =>
      unfold toFloat at h
      dsimp only at h
      split at h <;> cases h
      rfl
  · rintro ⟨x, converted⟩
    rw [h] at converted
    cases converted

namespace Tolerance

variable {given : Option Score} {errors : List Score} {fault : ScoreFault}

theorem error_of_mapM_toFloat (h : errors.mapM Score.toFloat = .error fault) :
    ∃ a ∈ errors, a.toFloat = .error fault := by
  induction errors with
  | nil => cases h
  | cons a rest ih =>
    rw [List.mapM_cons] at h
    cases first : a.toFloat with
    | error other =>
      rw [first] at h
      cases h
      exact ⟨a, List.mem_cons_self, first⟩
    | ok x =>
      cases others : rest.mapM Score.toFloat with
      | error other =>
        rw [first, others] at h
        cases h
        obtain ⟨b, hb, failed⟩ := ih others
        exact ⟨b, List.mem_cons_of_mem a hb, failed⟩
      | ok xs => rw [first, others] at h; cases h

theorem error_of_value (h : value given errors = .error fault) :
    ∃ a, (a ∈ given ∨ a ∈ errors) ∧ a.toFloat = .error fault := by
  cases given with
  | some epsilon => exact ⟨epsilon, .inl rfl, h⟩
  | none =>
    unfold value Reading.value at h
    dsimp only [Reading.ofScores] at h
    cases converted : errors.mapM Score.toFloat with
    | error other =>
      rw [converted] at h
      cases h
      obtain ⟨a, ha, failed⟩ := error_of_mapM_toFloat converted
      exact ⟨a, .inr ha, failed⟩
    | ok xs => rw [converted] at h; cases h

/-- Survival stops only at a number that is not read as a double. -/
theorem error_of_survives (h : Tolerance.survives given errors = .error fault) :
    ∃ a, (a ∈ given ∨ a ∈ errors) ∧ a.toFloat = .error fault := by
  cases errors with
  | nil => cases h
  | cons first rest =>
    unfold survives Reading.survives at h
    dsimp only at h
    cases tolerated : Reading.ofScores.value given (first :: rest) with
    | error other =>
      rw [tolerated] at h
      cases h
      exact error_of_value tolerated
    | ok x =>
      rw [tolerated] at h
      dsimp only [Reading.ofScores] at h
      cases least : (Score.least first rest).toFloat with
      | error other =>
        rw [least] at h
        cases h
        exact ⟨_, .inr (Score.leastOn_mem id first rest), least⟩
      | ok y => rw [least] at h; cases h

end Tolerance

namespace Lexicase

variable {ι κ : Type} {rule : Survival κ} {errors : ι → List κ}

section Keep

variable {case : Nat} {error : ι → κ} {candidates : List ι}

theorem errorsOn_eq (found : ∀ i ∈ candidates, (errors i)[case]? = some (error i)) :
    errorsOn errors case candidates = .ok (candidates.map fun i => (i, error i)) := by
  unfold errorsOn
  refine mapM_eq_map fun i member => ?_
  rw [found i member]

theorem keep_eq_map (found : ∀ i ∈ candidates, (errors i)[case]? = some (error i)) :
    keep rule errors case candidates = (rule (candidates.map error)).map fun survives =>
      candidates.filter fun i => survives (error i) := by
  have column : (candidates.map fun i => (i, error i)).map Prod.snd = candidates.map error := by
    rw [List.map_map]
    rfl
  unfold keep
  rw [errorsOn_eq found]
  dsimp only [Bind.bind, Except.bind]
  rw [column]
  cases rule (candidates.map error) with
  | error fault => rfl
  | ok survives =>
    dsimp only
    rw [List.filter_map, List.map_map]
    exact congrArg Except.ok (List.map_id _)

/-- Those are kept whose error survives. -/
theorem keep_eq {survives : κ → Bool}
    (found : ∀ i ∈ candidates, (errors i)[case]? = some (error i))
    (ruled : rule (candidates.map error) = .ok survives) :
    keep rule errors case candidates = .ok (candidates.filter fun i => survives (error i)) := by
  rw [keep_eq_map found, ruled]
  rfl

end Keep

section Winnow

@[simp] theorem winnow_nil_candidates (cases : List Nat) :
    winnow rule errors cases [] = .ok [] := by
  cases cases with
  | nil => rfl
  | cons case cases => rfl

theorem winnow_of_several {candidates : List ι} (several : 1 < candidates.length) (case : Nat)
    (cases : List Nat) : winnow rule errors (case :: cases) candidates =
      (keep rule errors case candidates).bind (winnow rule errors cases) := by
  match candidates with
  | [] => simp at several
  | [i] => simp at several
  | i :: j :: rest => rfl

theorem singleton_or_several {candidates : List ι} (inhabited : candidates ≠ []) :
    (∃ i, candidates = [i]) ∨ 1 < candidates.length := by
  rcases Nat.lt_or_ge 1 candidates.length with several | few
  · exact .inr several
  · have single : candidates.length = 1 :=
      Nat.le_antisymm few (List.length_pos_iff.mpr inhabited)
    exact .inl (List.length_eq_one_iff.mp single)

theorem several_of_ne {candidates : List ι} {i j : ι} (hi : i ∈ candidates) (hj : j ∈ candidates)
    (other : i ≠ j) : 1 < candidates.length := by
  rcases singleton_or_several (List.ne_nil_of_mem hi) with ⟨only, rfl⟩ | several
  · exact absurd ((List.mem_singleton.mp hi).trans (List.mem_singleton.mp hj).symm) other
  · exact several

theorem winnow_singleton (rule : Survival κ) (errors : ι → List κ) (cases : List Nat) (i : ι) :
    winnow rule errors cases [i] = .ok [i] := by
  cases cases with
  | nil => rfl
  | cons case cases => rfl

/-- Winnowing goes on from what the first cases have left. -/
theorem winnow_append (before after : List Nat) (candidates : List ι) :
    winnow rule errors (before ++ after) candidates =
      (winnow rule errors before candidates).bind (winnow rule errors after) := by
  induction before generalizing candidates with
  | nil => rfl
  | cons case cases ih =>
    match candidates with
    | [] => simp [Except.bind]
    | [i] => simp [winnow_singleton, Except.bind]
    | i :: j :: rest =>
      have several : 1 < (i :: j :: rest).length := by simp
      rw [List.cons_append, winnow_of_several several, winnow_of_several several]
      cases keep rule errors case (i :: j :: rest) with
      | error fault => rfl
      | ok kept => exact ih kept

end Winnow

section Stops

variable {P : κ → Prop} {F : Fault → Prop}
  (faults : ∀ es : List κ, (∀ e ∈ es, P e) → ∀ fault, rule es = .error fault → F fault)
  (sound : ∀ i, ∀ e ∈ errors i, P e)

include faults sound

theorem fault_of_keep {case : Nat} (within : ∀ i, case < (errors i).length) {candidates : List ι}
    {fault : Fault} (h : keep rule errors case candidates = .error fault) : F fault := by
  let error (i : ι) : κ := (errors i).get ⟨case, within i⟩
  have found (i : ι) : (errors i)[case]? = some (error i) := List.getElem?_eq_getElem (within i)
  have members : ∀ e ∈ candidates.map error, P e := fun e he => by
    obtain ⟨i, -, rfl⟩ := List.mem_map.mp he
    exact sound i _ (List.get_mem _ _)
  rw [keep_eq_map fun i _ => found i] at h
  cases ruled : rule (candidates.map error) with
  | ok survives => rw [ruled] at h; cases h
  | error other =>
    rw [ruled] at h
    cases h
    exact faults _ members _ ruled

/-- Where everybody has an error for each case, winnowing stops only when the rule does. -/
theorem fault_of_winnow {cases : List Nat} (within : ∀ i, ∀ case ∈ cases, case < (errors i).length)
    {candidates : List ι} {fault : Fault}
    (h : winnow rule errors cases candidates = .error fault) : F fault := by
  induction cases generalizing candidates with
  | nil => cases h
  | cons case cases ih =>
    match candidates with
    | [] => cases h
    | [i] => cases h
    | i :: j :: others =>
      rw [winnow_of_several (by simp)] at h
      cases keeps : keep rule errors case (i :: j :: others) with
      | error other =>
        rw [keeps] at h
        cases h
        exact fault_of_keep faults sound (fun i => within i case List.mem_cons_self) keeps
      | ok kept =>
        rw [keeps] at h
        exact ih (fun i c hc => within i c (List.mem_cons_of_mem case hc)) h

end Stops

theorem winnow_succeeds {P : κ → Prop}
    (total : ∀ es : List κ, (∀ e ∈ es, P e) → ∃ survives, rule es = .ok survives)
    (sound : ∀ i, ∀ e ∈ errors i, P e) {cases : List Nat}
    (within : ∀ i, ∀ case ∈ cases, case < (errors i).length) (candidates : List ι) :
    ∃ left, winnow rule errors cases candidates = .ok left := by
  cases winnowed : winnow rule errors cases candidates with
  | ok left => exact ⟨left, rfl⟩
  | error fault =>
    refine (fault_of_winnow (F := fun _ => False) (fun es members fault failed => ?_) sound within
      winnowed).elim
    obtain ⟨survives, ruled⟩ := total es members
    rw [ruled] at failed
    cases failed

variable {ω : Type} [Source ω] {n : Nat} {pos : 0 < n}

/-- Somebody is taken of what winnowing leaves in some order of the cases, if it leaves anybody. -/
theorem select_succeeds {errors : Fin n → List κ}
    (winnows : ∀ order : List Nat, (∀ case ∈ order, case < (errors ⟨0, pos⟩).length) →
      ∃ left, winnow rule errors order (List.finRange n) = .ok left) :
    Task.Succeeds (fun i => ∃ order left, order.Perm (List.range (errors ⟨0, pos⟩).length) ∧
        winnow rule errors order (List.finRange n) = .ok left ∧ (left ≠ [] → i ∈ left))
      (select rule pos errors : Task ω (Fin n)) := by
  have shuffled := Task.Succeeds.ofDraw (Draw.gives_shuffle (ω := ω)
    (List.range (errors ⟨0, pos⟩).length))
  refine shuffled.bind fun order perm => ?_
  obtain ⟨left, found⟩ := winnows order fun case hc => List.mem_range.mp (perm.mem_iff.mp hc)
  rw [found]
  match left with
  | [] => exact (Task.Succeeds.ofDraw (.any _)).mono fun i _ => ⟨order, [], perm, found, absurd rfl⟩
  | [i] => exact .pure ⟨order, [i], perm, found, fun _ => List.mem_cons_self⟩
  | i :: j :: rest =>
    exact (Task.Succeeds.ofDraw (Draw.gives_choose (i :: j :: rest) (by simp))).mono fun k member =>
      ⟨order, i :: j :: rest, perm, found, fun _ => member⟩

end Lexicase

structure Individual.Scored (cases : Nat) (i : Individual) : Prop where
  length : i.errors.length = cases
  approximable : ∀ e ∈ i.errors, e.Approximable

namespace Population

variable {ω : Type} [Source ω] {population : List Individual} {cases : Nat}
  (inhabited : population ≠ [])

include inhabited

theorem tournament_succeeds {size : Int} (positive : 1 ≤ size) :
    Task.Succeeds (fun _ => True)
      (tournament population size : Task ω (Fin population.length)) := by
  unfold tournament
  rw [dif_pos (List.length_pos_iff.mpr inhabited), if_neg (Int.not_lt.mpr positive)]
  refine (Task.Succeeds.ofDraw (.any _)).bind fun first _ => ?_
  exact (Task.Succeeds.ofDraw (.any _)).bind fun rest _ => .pure trivial

/-- Where everybody has as many errors, and one at least, lexicase selection begins at once. -/
theorem lexicase_eq_select (positive : 0 < cases)
    (covered : ∀ i ∈ population, i.errors.length = cases) (epsilon : Option Score) :
    (lexicase population epsilon : Task ω (Fin population.length)) =
      Lexicase.select (fun errors => (Tolerance.survives epsilon errors).mapError .score)
        (List.length_pos_iff.mpr inhabited) fun i => (population.get i).errors := by
  have evaluated : population.all (·.isEvaluated) = true := by
    rw [List.all_eq_true]
    intro i hi
    have length := covered i hi
    rw [Individual.isEvaluated, Bool.not_eq_true', List.isEmpty_eq_false_iff,
      ← List.length_pos_iff]
    omega
  unfold lexicase
  rw [dif_pos (List.length_pos_iff.mpr inhabited), if_pos evaluated]

/-- The tolerance is not looked at when there is nobody to choose from. -/
theorem lexicase_succeeds (positive : 0 < cases) (scored : ∀ i ∈ population, i.Scored cases)
    {epsilon : Option Score}
    (tolerance : 1 < population.length → ∀ a ∈ epsilon, a.Approximable) :
    Task.Succeeds (fun _ => True)
      (lexicase population epsilon : Task ω (Fin population.length)) := by
  have known (i : Fin population.length) := scored _ (List.get_mem population i)
  have nonempty := List.length_pos_iff.mpr inhabited
  rw [lexicase_eq_select inhabited positive fun i hi => (scored i hi).length]
  refine (Lexicase.select_succeeds fun order within => ?_).mono fun _ _ => trivial
  by_cases several : 1 < population.length
  · refine Lexicase.winnow_succeeds (P := Score.Approximable) (fun es sound => ?_)
      (fun i => (known i).approximable) (fun i case hc => ?_) _
    · cases ruled : Tolerance.survives epsilon es with
      | ok survives => exact ⟨survives, rfl⟩
      | error fault =>
        obtain ⟨a, origin, failed⟩ := Tolerance.error_of_survives ruled
        exact absurd (origin.elim (tolerance several a) (sound a)) (Score.fault_of_toFloat failed).2
    · have lt := within case hc
      rw [(known _).length] at lt ⊢
      exact lt
  · -- one candidate is taken before any case is looked at, so the tolerance does not matter
    have single : (List.finRange population.length).length = 1 := by
      rw [List.length_finRange]
      omega
    obtain ⟨i, only⟩ := List.length_eq_one_iff.mp single
    refine ⟨[i], ?_⟩
    rw [only]
    exact Lexicase.winnow_singleton _ _ order i

omit inhabited [Source ω] in
theorem length_others_le (population : List Individual) (place : Nat) :
    (others population place).length ≤ population.length := by
  unfold others
  split
  · exact Nat.le_refl _
  · exact List.length_eraseIdx_le population place

omit [Source ω] in
theorem others_ne_nil (place : Nat) : others population place ≠ [] := by
  unfold others
  split
  next => exact inhabited
  next left => exact left

end Population

/-- What selection demands of the settings: the method is one of the two that there are, tournaments
have somebody in them, and the tolerance comes near a double, unless there is nobody to choose
from. -/
structure Config.Selects (c : Config) : Prop where
  tournamentSize : 1 ≤ c.tournamentSize
  method : c.selectionMethod = .tournament ∨ c.selectionMethod = .lexicase
  tolerance : c.selectionMethod = .lexicase → 1 < c.populationSize →
    ∀ a ∈ c.epsilon, a.Approximable

namespace Config

variable {ω : Type} [Source ω] {c : Config} {population : List Individual} {cases : Nat}
  (selects : c.Selects) (positive : 0 < cases)

include selects positive

theorem selectFrom_succeeds {pool : List Individual} (inhabited : pool ≠ [])
    (small : (pool.length : Int) ≤ c.populationSize) (scored : ∀ i ∈ pool, i.Scored cases) :
    Task.Succeeds (fun _ => True) (c.selectFrom pool : Task ω (Fin pool.length)) := by
  unfold selectFrom Population.parent
  rcases selects.method with method | method
  · rw [method]
    exact Population.tournament_succeeds inhabited selects.tournamentSize
  · rw [method]
    refine Population.lexicase_succeeds inhabited positive scored fun several => ?_
    exact selects.tolerance method (by omega)

/-- Both parents of a child are selected. -/
theorem couple_succeeds (inhabited : population ≠ [])
    (size : (population.length : Int) = c.populationSize)
    (scored : ∀ i ∈ population, i.Scored cases) :
    Task.Succeeds (fun _ => True) (c.couple population : Task ω (Couple population)) := by
  have first := selectFrom_succeeds (ω := ω) selects positive inhabited (Int.le_of_eq size) scored
  refine first.bind fun i _ => ?_
  have fewer := Population.length_others_le population i
  have second := selectFrom_succeeds (ω := ω) selects positive
    (Population.others_ne_nil inhabited i) (by omega)
    fun j hj => scored j (Population.mem_of_mem_others hj)
  exact second.bind fun j _ => .pure trivial

end Config

end PictureEvolution
