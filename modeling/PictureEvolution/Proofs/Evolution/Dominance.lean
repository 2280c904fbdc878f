import PictureEvolution.Proofs.Evolution.Survivors

/-!
# Nobody dominates a survivor

Somebody who is no worse than a survivor on any case survives as well, so that both contest every
case; and whoever is left after contesting a case is no worse on it than any rival. Without a
tolerance, lexicase selection therefore takes an individual that no other one dominates.
-/

namespace PictureEvolution

namespace Lexicase

section Survivor

variable {ι κ : Type} {P : List κ → Prop} {near : κ → κ → Prop} {rule : Survival κ}
  {errors : ι → List κ} {order : List Nat} {everybody left : List ι}

/-- When more than one candidate is left at the end, they have contested every case. -/
theorem contested_of_several (winnowed : winnow rule errors order everybody = .ok left)
    (several : 1 < left.length) {case : Nat} (member : case ∈ order) :
    ∃ rivals, Contested rule errors order everybody case rivals ∧ left ⊆ rivals := by
  obtain ⟨before, after, rfl⟩ := List.append_of_mem member
  rw [winnow_append] at winnowed
  cases stage : winnow rule errors before everybody with
  | error fault => rw [stage] at winnowed; cases winnowed
  | ok rivals =>
    rw [stage] at winnowed
    have later : winnow rule errors (case :: after) rivals = .ok left := winnowed
    have sublist := winnow_sublist later
    exact ⟨rivals, ⟨before, after, rfl, stage, several.trans_le sublist.length_le⟩, sublist.subset⟩

variable (comparative : Comparative P near rule)
  (within : ∀ case ∈ order, ∀ i, case < (errors i).length)
  (sound : ∀ case rivals, Contested rule errors order everybody case rivals →
    P (column errors case rivals))
  (winnowed : winnow rule errors order everybody = .ok left)

include comparative within sound winnowed

theorem mem_left_iff {i : ι} (member : i ∈ everybody) :
    i ∈ left ↔ Passes near rule errors order everybody i := by
  obtain ⟨left', winnowed', -, passes⟩ :=
    winnow_comparative comparative within (List.ne_nil_of_mem member) sound
  cases winnowed.symm.trans winnowed'
  exact passes i member

variable {i j : ι} (survivor : i ∈ left) (member : j ∈ everybody) (other : i ≠ j)

include survivor member other

/-- A survivor is near, on each case, whoever is near all that the survivor is near. -/
theorem nearOn_of_survivor
    (nearer : ∀ case ∈ order, ∀ k, NearOn near errors case i k → NearOn near errors case j k)
    {case : Nat} (found : case ∈ order) : NearOn near errors case i j := by
  have present : i ∈ everybody := (winnow_sublist winnowed).subset survivor
  have passed := (mem_left_iff comparative within sound winnowed present).mp survivor
  have survives : j ∈ left :=
    (mem_left_iff comparative within sound winnowed member).mpr fun c rivals contested k hk => by
      have looked : c ∈ order := by
        obtain ⟨before, after, rfl, -⟩ := contested
        exact List.mem_append_right before List.mem_cons_self
      exact nearer c looked k (passed c rivals contested k hk)
  obtain ⟨rivals, contested, subset⟩ :=
    contested_of_several winnowed (several_of_ne survivor survives other) found
  exact passed case rivals contested j (subset survives)

/-- A survivor is near everybody else on the first case. -/
theorem nearOn_first_of_survivor {first : Nat} {rest : List Nat} (begins : order = first :: rest) :
    NearOn near errors first i j := by
  have present : i ∈ everybody := (winnow_sublist winnowed).subset survivor
  have passed := (mem_left_iff comparative within sound winnowed present).mp survivor
  subst begins
  exact passed first everybody (contested_first (several_of_ne present member other)) j member

end Survivor

end Lexicase

namespace Tolerance

/-- Integers of which the least is a double. -/
structure Unrounded (errors : List Score) : Prop where
  integers : ∀ e ∈ errors, ∃ n, e = .int n
  least : ∀ low ∈ errors, (∀ e ∈ errors, low.AtMost e) → low.IsDouble

/-- With a tolerance of zero, the least errors survive if no rounding is needed. -/
theorem survives_zero {epsilon : Score} (zero : epsilon.isZero = true) {errors : List Score}
    (inhabited : errors ≠ []) (unrounded : Unrounded errors) :
    ∃ survives, Tolerance.survives (some epsilon) errors = .ok survives ∧
      (∀ e ∈ errors, survives e = true ↔ ∀ b ∈ errors, e.AtMost b) ∧
      ∃ e ∈ errors, survives e = true := by
  obtain ⟨ns, rfl⟩ := Score.exists_map_int unrounded.integers
  cases ns with
  | nil => exact absurd rfl inhabited
  | cons first rest =>
    obtain ⟨attained, least⟩ := foldl_min_least first rest
    have double := unrounded.least _ (List.mem_map_of_mem attained) (by simpa using least)
    obtain ⟨y, tolerance, isZero⟩ := Score.toFloat_of_isZero zero
    obtain ⟨x, converted, bounds⟩ := double.atMost_add_zero isZero
    refine ⟨fun e => e.le (.real (x + y)), ?_, fun e he => ?_, _, List.mem_map_of_mem attained, ?_⟩
    · rw [List.map_cons]
      unfold Tolerance.survives Reading.survives Reading.value
      dsimp only [Reading.ofScores]
      rw [tolerance, Score.least_map_int, converted]
      rfl
    · obtain ⟨n, hn, rfl⟩ := List.mem_map.mp he
      refine (bounds n).trans ?_
      simp only [List.forall_mem_map, Score.int_atMost_int]
      exact ⟨fun low m hm => low.trans (least m hm), fun low => low _ attained⟩
    · exact (bounds _).mpr (Int.le_refl _)

end Tolerance

namespace Lexicase

/-- Of two rows of errors, the first is no worse on any case, and better on one. -/
structure Dominates (row row' : List Score) : Prop where
  noWorse : ∀ case : Nat, ∀ a ∈ row[case]?, ∀ b ∈ row'[case]?, a.AtMost b
  better : ∃ case : Nat, ∃ a ∈ row[case]?, ∃ b ∈ row'[case]?, a.lt b = true

def tolerating (epsilon : Option Score) : Survival Score :=
  fun errors => (Tolerance.survives epsilon errors).mapError .score

theorem comparative_zero {epsilon : Score} (zero : epsilon.isZero = true) :
    Comparative Tolerance.Unrounded Score.AtMost (tolerating (some epsilon)) := by
  intro es inhabited unrounded
  obtain ⟨survives, ruled, compared, last⟩ := Tolerance.survives_zero zero inhabited unrounded
  exact ⟨survives, congrArg (Except.mapError Fault.score) ruled, compared, last⟩

section Dominance

variable {ι : Type} {errors : ι → List Score} {rule : Survival Score} {P : List Score → Prop}
  {order : List Nat} {everybody left : List ι} (comparative : Comparative P Score.AtMost rule)
  (integers : ∀ i, ∀ e ∈ errors i, ∃ n, e = .int n)
  (complete : ∀ i case, case < (errors i).length ↔ case ∈ order)
  (sound : ∀ case rivals, Contested rule errors order everybody case rivals →
    P (column errors case rivals))
  (winnowed : winnow rule errors order everybody = .ok left) {i j : ι} (survivor : i ∈ left)
  (member : j ∈ everybody)

include comparative integers complete sound winnowed survivor member

/-- Where the least errors survive, nobody dominates a survivor of all cases. -/
theorem not_dominates_survivor : ¬ Dominates (errors j) (errors i) := by
  intro dominates
  obtain ⟨case, b, hb, a, ha, less⟩ := dominates.better
  have integer {i : ι} {c : Nat} {e : Score} (he : (errors i)[c]? = some e) : ∃ n, e = .int n :=
    integers i e (List.mem_of_getElem? he)
  have nearer (c : Nat) (hc : c ∈ order) (l : ι) (near : NearOn Score.AtMost errors c i l) :
      NearOn Score.AtMost errors c j l := fun b hb d hd => by
    have ha := List.getElem?_eq_getElem ((complete i c).mpr hc)
    have below := dominates.noWorse c b hb _ ha
    have above := near _ ha d hd
    obtain ⟨ka, isA⟩ := integer ha
    obtain ⟨kb, rfl⟩ := integer hb
    obtain ⟨kd, rfl⟩ := integer hd
    rw [isA, Score.int_atMost_int] at below above
    exact Score.int_atMost_int.mpr (below.trans above)
  obtain ⟨m, rfl⟩ := integer ha
  obtain ⟨n, rfl⟩ := integer hb
  rw [Score.int_lt_int, decide_eq_true_iff] at less
  have other : i ≠ j := by
    rintro rfl
    cases ha.symm.trans hb
    exact Int.lt_irrefl _ less
  have found : case ∈ order := (complete j case).mp (List.getElem?_eq_some_iff.mp hb).1
  have near := nearOn_of_survivor comparative (fun c hc i => (complete i c).mpr hc) sound winnowed
    survivor member other nearer found _ ha _ hb
  exact Int.not_lt.mpr (Score.int_atMost_int.mp near) less

/-- Where the least errors survive, nobody is better than a survivor on the first case. -/
theorem atMost_first_of_survivor {first : Nat} {rest : List Nat} (begins : order = first :: rest) :
    ∃ a, (errors i)[first]? = some a ∧ ∃ b, (errors j)[first]? = some b ∧ a.AtMost b := by
  have within (case : Nat) (hc : case ∈ order) (i : ι) := (complete i case).mpr hc
  have here : first ∈ order := begins ▸ List.mem_cons_self
  have ha := List.getElem?_eq_getElem (within first here i)
  have hb := List.getElem?_eq_getElem (within first here j)
  refine ⟨_, ha, _, hb, ?_⟩
  by_cases same : i = j
  · subst same
    obtain ⟨n, isA⟩ := integers i _ (List.mem_of_getElem? ha)
    rw [isA]
    exact Score.int_atMost_int.mpr (Int.le_refl n)
  · exact nearOn_first_of_survivor comparative within sound winnowed survivor member same begins
      _ ha _ hb

end Dominance

end Lexicase

namespace Population

/-- The errors are integers, and in an order of the cases no least error of rivals on a contested
case is rounded when it is read as a double. -/
structure Unrounded (population : List Individual) (epsilon : Score) (order : List Nat) : Prop where
  integers : ∀ i ∈ population, ∀ e ∈ i.errors, ∃ n, e = .int n
  least : ∀ case rivals, Lexicase.Contested (Lexicase.tolerating (some epsilon))
      (fun place => (population.get place).errors) order (List.finRange population.length) case
      rivals →
    ∀ place ∈ rivals, ∀ low ∈ (population.get place).errors[case]?,
      (∀ rival ∈ rivals, ∀ e ∈ (population.get rival).errors[case]?, low.AtMost e) → low.IsDouble

variable {population : List Individual} {cases : Nat} {epsilon : Score}

theorem Unrounded.column {order : List Nat} (unrounded : Unrounded population epsilon order)
    (case : Nat) (rivals : List (Fin population.length))
    (contested : Lexicase.Contested (Lexicase.tolerating (some epsilon))
      (fun place => (population.get place).errors) order (List.finRange population.length) case
      rivals) :
    Tolerance.Unrounded
      (Lexicase.column (fun place => (population.get place).errors) case rivals) where
  integers e he := by
    obtain ⟨place, -, found⟩ := List.mem_filterMap.mp he
    exact unrounded.integers _ (List.get_mem population place) e (List.mem_of_getElem? found)
  least low hlow bound := by
    obtain ⟨place, member, found⟩ := List.mem_filterMap.mp hlow
    refine unrounded.least case rivals contested place member low found fun rival hr e he => ?_
    exact bound e (List.mem_filterMap.mpr ⟨rival, hr, he⟩)

/-- Integers that are doubles are never rounded. -/
theorem unrounded_of_isDouble (doubles : ∀ i ∈ population, ∀ e ∈ i.errors, e.IsDouble)
    (order : List Nat) : Unrounded population epsilon order where
  integers i hi e he := by
    have double := doubles i hi e he
    cases e with
    | int n => exact ⟨n, rfl⟩
    | real x => cases double
  least _ _ _ place _ low hlow _ :=
    doubles _ (List.get_mem population place) low (List.mem_of_getElem? hlow)

/-- Without a tolerance, lexicase selection takes an individual that no member of the population
dominates, and whose error on the case drawn first is the least one in the population, whatever the
source answers. The errors are integers, and the least ones that it looks for are not rounded. -/
theorem lexicase_undominated (inhabited : population ≠ []) (positive : 0 < cases)
    (covered : ∀ i ∈ population, i.errors.length = cases) (zero : epsilon.isZero = true)
    (ω : Type) [Source ω] (w : ω)
    (unrounded : Unrounded population epsilon (Draw.shuffle (List.range cases) w).1) :
    ∃ place w', (lexicase population (some epsilon) : Task ω _).Yields w place w' ∧
      (∀ j ∈ population, ¬ Lexicase.Dominates j.errors (population.get place).errors) ∧
      ∃ first rest, (Draw.shuffle (List.range cases) w).1 = first :: rest ∧
        ∀ j ∈ population, ∃ a, (population.get place).errors[first]? = some a ∧
          ∃ b, j.errors[first]? = some b ∧ a.AtMost b := by
  have comparative := Lexicase.comparative_zero zero
  have length (i : Fin population.length) : (population.get i).errors.length = cases :=
    covered _ (List.get_mem population i)
  have integers (i : Fin population.length) : ∀ e ∈ (population.get i).errors, ∃ n, e = .int n :=
    unrounded.integers _ (List.get_mem population i)
  have perm := Draw.gives_shuffle (ω := ω) (List.range cases) w
  generalize ordered : (Draw.shuffle (List.range cases) w).1 = order at perm unrounded
  have complete (i : Fin population.length) (case : Nat) :
      case < (population.get i).errors.length ↔ case ∈ order := by
    rw [length, perm.mem_iff, List.mem_range]
  have pos := List.length_pos_iff.mpr inhabited
  obtain ⟨left, winnowed, last, -⟩ := Lexicase.winnow_comparative comparative
    (fun case hc i => (complete i case).mpr hc)
    (List.ne_nil_of_mem (List.mem_finRange ⟨0, pos⟩)) unrounded.column
  have drawn : Lexicase.winnow (Lexicase.tolerating (some epsilon))
      (fun place => (population.get place).errors)
      (Draw.shuffle (List.range (population.get ⟨0, pos⟩).errors.length) w).1
      (List.finRange population.length) = .ok left := by
    rw [length, ordered]
    exact winnowed
  obtain ⟨place, survivor, w', yields⟩ := Lexicase.select_yields drawn last
  rw [lexicase_eq_select inhabited positive covered]
  refine ⟨place, w', yields, fun j hj => ?_, ?_⟩
  · obtain ⟨k, rfl⟩ := List.get_of_mem hj
    exact Lexicase.not_dominates_survivor comparative integers complete unrounded.column winnowed
      survivor (List.mem_finRange k)
  · cases order with
    | nil => exact absurd ((complete place 0).mp ((length place).symm ▸ positive)) List.not_mem_nil
    | cons first rest =>
      refine ⟨first, rest, rfl, fun j hj => ?_⟩
      obtain ⟨k, rfl⟩ := List.get_of_mem hj
      exact Lexicase.atMost_first_of_survivor comparative integers complete unrounded.column
        winnowed survivor (List.mem_finRange k) rfl

/-- The first two are specialists; the second one dominates the last. -/
def specialists : List Individual :=
  [⟨[], [.int 0, .int 5], .int 5⟩, ⟨[], [.int 1, .int 1], .int 2⟩, ⟨[], [.int 1, .int 2], .int 3⟩]

theorem specialist_selected : ∃ place w',
    (lexicase specialists (some (.int 0)) : Task Script _).Yields ⟨[1, 0]⟩ place w' ∧
      place.val ≠ 2 := by
  have covered : ∀ i ∈ specialists, i.errors.length = 2 := by decide
  have doubles : ∀ i ∈ specialists, ∀ e ∈ i.errors, e.IsDouble := by decide +kernel
  have zero : (Score.int 0).isZero = true := rfl
  obtain ⟨place, w', yields, undominated, -⟩ := lexicase_undominated (by decide) (by decide) covered
    zero Script ⟨[1, 0]⟩ (unrounded_of_isDouble doubles _)
  refine ⟨place, w', yields, fun last => ?_⟩
  obtain rfl : place = ⟨2, by decide⟩ := Fin.ext last
  refine undominated specialists[1] (List.getElem_mem (by decide)) ⟨fun case => ?_, 1, ?_⟩
  · match case with
    | 0 => decide
    | 1 => decide
    | n + 2 => simp [specialists]
  · exact ⟨.int 1, rfl, .int 2, rfl, by decide⟩

end Population

end PictureEvolution
