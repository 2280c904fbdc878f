import PictureEvolution.Proofs.Evolution.Discrimination

/-!
# Who survives

When errors survive by comparison with each other, winnowing can be told without its steps: a
candidate is left at the end exactly if on every case at which more than one candidate was left, its
error is near those of all of them. Somebody always is. In which order the candidates stand makes no
difference. An example is a fixed tolerance: near is what is no more than the tolerance above.
-/

namespace PictureEvolution

namespace Lexicase

variable {ι κ : Type}

/-- Of errors that together have a property, those survive that are near each one of them, and some
do. -/
def Comparative (P : List κ → Prop) (near : κ → κ → Prop) (rule : Survival κ) : Prop :=
  ∀ es, es ≠ [] → P es → ∃ survives, rule es = .ok survives ∧
    (∀ e ∈ es, survives e = true ↔ ∀ b ∈ es, near e b) ∧ ∃ e ∈ es, survives e = true

def column (errors : ι → List κ) (case : Nat) (candidates : List ι) : List κ :=
  candidates.filterMap fun i => (errors i)[case]?

/-- The error of one candidate on a case is near that of another one. -/
def NearOn (near : κ → κ → Prop) (errors : ι → List κ) (case : Nat) (i j : ι) : Prop :=
  ∀ a ∈ (errors i)[case]?, ∀ b ∈ (errors j)[case]?, near a b

/-- These candidates, more than one, were left of everybody when a case of the order came. -/
def Contested (rule : Survival κ) (errors : ι → List κ) (order : List Nat) (everybody : List ι)
    (case : Nat) (rivals : List ι) : Prop :=
  ∃ before after, order = before ++ case :: after ∧
    winnow rule errors before everybody = .ok rivals ∧ 1 < rivals.length

/-- On every contested case the error of the candidate is near those of all rivals. -/
def Passes (near : κ → κ → Prop) (rule : Survival κ) (errors : ι → List κ) (order : List Nat)
    (everybody : List ι) (i : ι) : Prop :=
  ∀ case rivals, Contested rule errors order everybody case rivals →
    ∀ j ∈ rivals, NearOn near errors case i j

section Contested

variable {rule : Survival κ} {errors : ι → List κ} {first case : Nat} {order : List Nat}
  {everybody kept rivals : List ι}

theorem not_contested_nil : ¬ Contested rule errors [] everybody case rivals := by
  rintro ⟨before, after, split, -⟩
  cases before <;> cases split

theorem not_contested_singleton (i : ι) : ¬ Contested rule errors order [i] case rivals := by
  rintro ⟨before, after, -, winnowed, several⟩
  rw [winnow_singleton] at winnowed
  cases winnowed
  exact absurd several (Nat.lt_irrefl 1)

theorem contested_first (several : 1 < everybody.length) :
    Contested rule errors (first :: order) everybody first everybody :=
  ⟨[], order, rfl, rfl, several⟩

theorem contested_cons_iff (several : 1 < everybody.length)
    (keeps : keep rule errors first everybody = .ok kept) :
    Contested rule errors (first :: order) everybody case rivals ↔
      case = first ∧ rivals = everybody ∨ Contested rule errors order kept case rivals := by
  constructor
  · rintro ⟨before, after, split, winnowed, many⟩
    cases before with
    | nil =>
      cases split
      cases winnowed
      exact .inl ⟨rfl, rfl⟩
    | cons case' before =>
      cases split
      rw [winnow_of_several several, keeps] at winnowed
      exact .inr ⟨before, after, rfl, winnowed, many⟩
  · rintro (⟨rfl, rfl⟩ | ⟨before, after, rfl, winnowed, many⟩)
    · exact contested_first several
    · refine ⟨first :: before, after, rfl, ?_, many⟩
      rw [winnow_of_several several, keeps]
      exact winnowed

end Contested

section Passes

variable {near : κ → κ → Prop} {rule : Survival κ} {errors : ι → List κ} {first : Nat}
  {order : List Nat} {everybody kept : List ι} {i : ι}

theorem passes_nil : Passes near rule errors [] everybody i :=
  fun _ _ contested => absurd contested not_contested_nil

theorem passes_singleton (j : ι) : Passes near rule errors order [j] i :=
  fun _ _ contested => absurd contested (not_contested_singleton j)

theorem passes_cons_iff (several : 1 < everybody.length)
    (keeps : keep rule errors first everybody = .ok kept) :
    Passes near rule errors (first :: order) everybody i ↔
      (∀ j ∈ everybody, NearOn near errors first i j) ∧
        Passes near rule errors order kept i := by
  constructor
  · intro all
    refine ⟨all first everybody (contested_first several), fun case rivals contested => ?_⟩
    exact all case rivals ((contested_cons_iff several keeps).mpr (.inr contested))
  · rintro ⟨here, later⟩ case rivals contested
    rcases (contested_cons_iff several keeps).mp contested with ⟨rfl, rfl⟩ | contested
    · exact here
    · exact later case rivals contested

end Passes

section Sublist

variable {rule : Survival κ} {errors : ι → List κ}

theorem errorsOn_cons (i : ι) (case : Nat) (rest : List ι) :
    errorsOn errors case (i :: rest) = match (errors i)[case]? with
      | some e => (errorsOn errors case rest).map ((i, e) :: ·)
      | none => .error .missingCase := by
  unfold errorsOn
  rw [List.mapM_cons]
  cases (errors i)[case]? with
  | none => rfl
  | some e => rfl

theorem map_fst_errorsOn {case : Nat} {candidates : List ι} {scored : List (ι × κ)}
    (found : errorsOn errors case candidates = .ok scored) : scored.map Prod.fst = candidates := by
  induction candidates generalizing scored with
  | nil => cases found; rfl
  | cons i rest ih =>
    rw [errorsOn_cons] at found
    cases here : (errors i)[case]? with
    | none => rw [here] at found; cases found
    | some e =>
      cases others : errorsOn errors case rest with
      | error fault => rw [here, others] at found; cases found
      | ok scoredRest =>
        rw [here, others] at found
        cases found
        rw [List.map_cons, ih others]

theorem keep_sublist {case : Nat} {candidates kept : List ι}
    (keeps : keep rule errors case candidates = .ok kept) : kept.Sublist candidates := by
  unfold keep at keeps
  cases found : errorsOn errors case candidates with
  | error fault => rw [found] at keeps; cases keeps
  | ok scored =>
    rw [found] at keeps
    simp only [Bind.bind, Except.bind] at keeps
    cases ruled : rule (scored.map Prod.snd) with
    | error fault => rw [ruled] at keeps; cases keeps
    | ok survives =>
      rw [ruled] at keeps
      cases keeps
      rw [← map_fst_errorsOn found]
      exact List.filter_sublist.map Prod.fst

/-- The candidates that are left stand in the order in which they stood. -/
theorem winnow_sublist {order : List Nat} {candidates left : List ι}
    (winnowed : winnow rule errors order candidates = .ok left) : left.Sublist candidates := by
  induction order generalizing candidates with
  | nil => cases winnowed; exact .refl _
  | cons case cases ih =>
    match candidates with
    | [] => cases winnowed; exact .refl _
    | [i] => cases winnowed; exact .refl _
    | i :: j :: rest =>
      rw [winnow_of_several (by simp)] at winnowed
      cases keeps : keep rule errors case (i :: j :: rest) with
      | error fault => rw [keeps] at winnowed; cases winnowed
      | ok kept =>
        rw [keeps] at winnowed
        exact (ih winnowed).trans (keep_sublist keeps)

end Sublist

section Map

variable {ι' : Type} {rule : Survival κ} {errors : ι' → List κ}

theorem errorsOn_map (f : ι → ι') (case : Nat) (candidates : List ι) :
    errorsOn errors case (candidates.map f) =
      (errorsOn (errors ∘ f) case candidates).map (List.map (Prod.map f id)) := by
  induction candidates with
  | nil => rfl
  | cons i rest ih =>
    rw [List.map_cons, errorsOn_cons, errorsOn_cons, ih, Function.comp_apply]
    cases (errors (f i))[case]? with
    | none => rfl
    | some e => cases errorsOn (errors ∘ f) case rest <;> rfl

theorem keep_map (f : ι → ι') (case : Nat) (candidates : List ι) :
    keep rule errors case (candidates.map f) =
      (keep rule (errors ∘ f) case candidates).map (List.map f) := by
  unfold keep
  rw [errorsOn_map]
  cases errorsOn (errors ∘ f) case candidates with
  | error fault => rfl
  | ok scored =>
    have column : (scored.map (Prod.map f id)).map Prod.snd = scored.map Prod.snd := by
      rw [List.map_map]
      rfl
    simp only [Except.map, Bind.bind, Except.bind, column]
    cases rule (scored.map Prod.snd) with
    | error fault => rfl
    | ok survives =>
      simp only [Pure.pure, Except.pure, List.filter_map, List.map_map]
      rfl

/-- It does not matter what the candidates are, as long as their errors are the same. -/
theorem winnow_map (f : ι → ι') (order : List Nat) (candidates : List ι) :
    winnow rule errors order (candidates.map f) =
      (winnow rule (errors ∘ f) order candidates).map (List.map f) := by
  induction order generalizing candidates with
  | nil => rfl
  | cons case cases ih =>
    match candidates with
    | [] => rfl
    | [i] => rfl
    | i :: j :: rest =>
      rw [winnow_of_several (by simp), winnow_of_several (by simp), keep_map]
      cases keep rule (errors ∘ f) case (i :: j :: rest) with
      | error fault => rfl
      | ok kept => exact ih kept

end Map

section Comparative

variable {P : List κ → Prop} {near : κ → κ → Prop} {rule : Survival κ} {errors : ι → List κ}

/-- A case keeps the candidates whose errors are near those of all. -/
theorem keep_comparative (comparative : Comparative P near rule) {case : Nat}
    (within : ∀ i, case < (errors i).length) {candidates : List ι} (inhabited : candidates ≠ [])
    (sound : P (column errors case candidates)) :
    ∃ survives : ι → Bool,
      keep rule errors case candidates = .ok (candidates.filter survives) ∧
      (∀ i ∈ candidates, survives i = true ↔ ∀ j ∈ candidates, NearOn near errors case i j) ∧
      candidates.filter survives ≠ [] := by
  let error (i : ι) : κ := (errors i).get ⟨case, within i⟩
  have found (i : ι) : (errors i)[case]? = some (error i) := List.getElem?_eq_getElem (within i)
  have nearOn (i j : ι) : NearOn near errors case i j ↔ near (error i) (error j) := by
    simp [NearOn, found]
  have scored : column errors case candidates = candidates.map error := by
    simp only [column, found, List.filterMap_eq_map']
  obtain ⟨survives, ruled, compared, e, he, some⟩ :=
    comparative (candidates.map error) (by simpa using inhabited) (scored ▸ sound)
  refine ⟨fun i => survives (error i), keep_eq (fun i _ => found i) ruled, fun i hi => ?_, ?_⟩
  · rw [compared _ (List.mem_map_of_mem hi), List.forall_mem_map]
    simp only [nearOn]
  · obtain ⟨i, hi, rfl⟩ := List.mem_map.mp he
    exact List.ne_nil_of_mem (List.mem_filter.mpr ⟨hi, some⟩)

/-- Winnowing leaves somebody: the candidates that pass every contested case. -/
theorem winnow_comparative (comparative : Comparative P near rule) {order : List Nat}
    (within : ∀ case ∈ order, ∀ i, case < (errors i).length) {candidates : List ι}
    (inhabited : candidates ≠ []) (sound : ∀ case rivals,
      Contested rule errors order candidates case rivals → P (column errors case rivals)) :
    ∃ left, winnow rule errors order candidates = .ok left ∧ left ≠ [] ∧
      ∀ i ∈ candidates, i ∈ left ↔ Passes near rule errors order candidates i := by
  induction order generalizing candidates with
  | nil => exact ⟨candidates, rfl, inhabited, fun i hi => iff_of_true hi passes_nil⟩
  | cons case cases ih =>
    rcases singleton_or_several inhabited with ⟨i, rfl⟩ | several
    · refine ⟨[i], winnow_singleton _ _ _ i, inhabited, fun j hj => ?_⟩
      exact iff_of_true hj (passes_singleton i)
    · obtain ⟨survives, keeps, compared, some⟩ := keep_comparative comparative
        (within case List.mem_cons_self) inhabited (sound case candidates (contested_first several))
      obtain ⟨left, winnowed, last, passes⟩ :=
        ih (fun c hc => within c (List.mem_cons_of_mem case hc)) some fun c rivals contested =>
          sound c rivals ((contested_cons_iff several keeps).mpr (.inr contested))
      refine ⟨left, ?_, last, fun i hi => ?_⟩
      · rw [winnow_of_several several, keeps]
        exact winnowed
      · rw [passes_cons_iff several keeps, ← compared i hi]
        constructor
        · intro member
          have kept := (winnow_sublist winnowed).subset member
          exact ⟨(List.mem_filter.mp kept).2, (passes i kept).mp member⟩
        · rintro ⟨here, later⟩
          exact (passes i (List.mem_filter.mpr ⟨hi, here⟩)).mpr later

/-- Rearranged candidates leave the same ones, rearranged. -/
theorem winnow_perm (comparative : Comparative (fun _ => True) near rule) {order : List Nat}
    (within : ∀ case ∈ order, ∀ i, case < (errors i).length)
    {candidates candidates' left left' : List ι} (perm : candidates.Perm candidates')
    (inhabited : candidates ≠ [])
    (winnowed : winnow rule errors order candidates = .ok left)
    (winnowed' : winnow rule errors order candidates' = .ok left') : left.Perm left' := by
  induction order generalizing candidates candidates' with
  | nil =>
    cases winnowed
    cases winnowed'
    exact perm
  | cons case cases ih =>
    rcases singleton_or_several inhabited with ⟨i, rfl⟩ | several
    · cases List.singleton_perm.mp perm
      rw [winnow_singleton] at winnowed winnowed'
      cases winnowed
      cases winnowed'
      exact perm
    · have several' : 1 < candidates'.length := perm.length_eq ▸ several
      have inhabited' : candidates' ≠ [] := List.ne_nil_of_length_pos (Nat.zero_lt_of_lt several')
      have here := within case List.mem_cons_self
      obtain ⟨survives, keeps, compared, some⟩ :=
        keep_comparative comparative here inhabited trivial
      obtain ⟨survives', keeps', compared', -⟩ :=
        keep_comparative comparative here inhabited' trivial
      rw [winnow_of_several several, keeps] at winnowed
      rw [winnow_of_several several', keeps'] at winnowed'
      refine ih (fun c hc => within c (List.mem_cons_of_mem case hc)) ?_ some winnowed winnowed'
      -- whom a case keeps depends on who is there, not on where
      have same : ∀ i ∈ candidates', survives i = survives' i := fun i hi => by
        rw [Bool.eq_iff_iff, compared i (perm.mem_iff.mpr hi), compared' i hi]
        simp only [perm.mem_iff]
      rw [← List.filter_congr same]
      exact perm.filter survives

end Comparative

section Select

variable {ω : Type} [Source ω] {n : Nat} {pos : 0 < n} {rule : Survival κ}
  {errors : Fin n → List κ}

/-- One of those is selected that are left in the order drawn for the cases. -/
theorem select_yields {w : ω} {left : List (Fin n)}
    (winnowed : winnow rule errors (Draw.shuffle (List.range (errors ⟨0, pos⟩).length) w).1
      (List.finRange n) = .ok left) (some : left ≠ []) :
    ∃ i ∈ left, ∃ w', (select rule pos errors : Task ω (Fin n)).Yields w i w' := by
  generalize drawn : Draw.shuffle (List.range (errors ⟨0, pos⟩).length) w = shuffled at winnowed
  obtain ⟨order, w'⟩ := shuffled
  unfold select Task.Yields
  rw [Task.bind_of_yields (Task.yields_ofDraw.mpr drawn), winnowed]
  match left with
  | [] => exact absurd rfl some
  | [i] => exact ⟨i, List.mem_cons_self, w', rfl⟩
  | i :: j :: rest =>
    let chosen : Draw ω (Fin n) := Draw.choose (i :: j :: rest) (by simp)
    exact ⟨(chosen w').1, Draw.gives_choose _ _ w', (chosen w').2, rfl⟩

end Select

noncomputable def fixed (tolerance : ℝ) : Survival ℝ :=
  fun errors => (Tolerance.Reading.exact.survives (some tolerance) errors).mapError .score

theorem comparative_fixed {tolerance : ℝ} (nonneg : 0 ≤ tolerance) :
    Comparative (fun _ => True) (fun a b => a ≤ b + tolerance) (fixed tolerance) := by
  intro es inhabited _
  have tolerated : Tolerance.Reading.exact.value (some tolerance) es = .ok tolerance := rfl
  obtain ⟨low, attained, least, survives⟩ :=
    Tolerance.Reading.exact_survives_of_value inhabited tolerated
  refine ⟨_, by rw [fixed, survives]; rfl, fun e _ => ?_, low, attained, ?_⟩
  · rw [decide_eq_true_iff]
    exact ⟨fun up b hb => by linarith [least b hb], fun up => up low attained⟩
  · exact decide_eq_true (le_add_of_nonneg_right nonneg)

/-- With exact errors and a fixed tolerance that is not below zero, somebody is left in whatever
order of the cases: those whose error, on each case at which there was more than one candidate left,
is at most that of each of these candidates plus the tolerance. When the individuals change places,
the same ones are left. One of those that are left in the drawn order is selected. -/
theorem fixed_tolerance_leaves {n : Nat} (pos : 0 < n) {cases : Nat} {errors : Fin n → List ℝ}
    (covered : ∀ i, (errors i).length = cases) {tolerance : ℝ} (nonneg : 0 ≤ tolerance) :
    (∀ order : List Nat, order.Perm (List.range cases) → ∃ left,
      winnow (fixed tolerance) errors order (List.finRange n) = .ok left ∧ left ≠ [] ∧
      (∀ i, i ∈ left ↔ Passes (fun a b => a ≤ b + tolerance) (fixed tolerance) errors order
        (List.finRange n) i) ∧
      ∀ move : Equiv.Perm (Fin n), ∃ left',
        winnow (fixed tolerance) (errors ∘ move) order (List.finRange n) = .ok left' ∧
          (left'.map move).Perm left) ∧
    ∀ (ω : Type) [Source ω] (w : ω), ∃ order left i w',
      (Draw.shuffle (List.range cases) w).1 = order ∧ order.Perm (List.range cases) ∧
      winnow (fixed tolerance) errors order (List.finRange n) = .ok left ∧ i ∈ left ∧
      (select (fixed tolerance) pos errors : Task ω (Fin n)).Yields w i w' := by
  have comparative := comparative_fixed nonneg
  have everybody : List.finRange n ≠ [] := List.ne_nil_of_mem (List.mem_finRange ⟨0, pos⟩)
  have within {order : List Nat} (perm : order.Perm (List.range cases)) :
      ∀ case ∈ order, ∀ i, case < (errors i).length := fun case hc i => by
    rw [covered i]
    exact List.mem_range.mp (perm.mem_iff.mp hc)
  have winnows {order : List Nat} (perm : order.Perm (List.range cases)) :=
    winnow_comparative comparative (within perm) everybody fun _ _ _ => trivial
  refine ⟨fun order perm => ?_, fun ω _ w => ?_⟩
  · obtain ⟨left, winnowed, some, passes⟩ := winnows perm
    refine ⟨left, winnowed, some, fun i => passes i (List.mem_finRange i), fun move => ?_⟩
    have within' : ∀ case ∈ order, ∀ i, case < ((errors ∘ move) i).length :=
      fun case hc i => within perm case hc (move i)
    obtain ⟨left', winnowed', -⟩ :=
      winnow_comparative comparative within' everybody fun _ _ _ => trivial
    refine ⟨left', winnowed', ?_⟩
    have moved : winnow (fixed tolerance) errors order ((List.finRange n).map move) =
        .ok (left'.map move) := by
      rw [winnow_map, winnowed']
      rfl
    exact (winnow_perm comparative (within perm) (Equiv.Perm.map_finRange_perm move).symm everybody
      winnowed moved).symm
  · have perm := Draw.gives_shuffle (ω := ω) (List.range cases) w
    obtain ⟨left, winnowed, some, -⟩ := winnows perm
    have drawn : winnow (fixed tolerance) errors
        (Draw.shuffle (List.range (errors ⟨0, pos⟩).length) w).1 (List.finRange n) = .ok left := by
      rwa [covered]
    obtain ⟨i, member, w', yields⟩ := select_yields drawn some
    exact ⟨_, left, i, w', rfl, perm, winnowed, member, yields⟩

/-- Two cases: the first one is hard for the last candidate, the second one for the first. -/
noncomputable def contest : Fin 3 → List ℝ
  | 0 => [0, 5]
  | 1 => [0, 0]
  | 2 => [3, 0]

theorem contest_left : ∃ left, winnow (fixed 1) contest [0, 1] (List.finRange 3) = .ok left ∧
    left ≠ [] ∧ 2 ∉ left := by
  have covered (i : Fin 3) : (contest i).length = 2 := by
    match i with
    | 0 | 1 | 2 => rfl
  obtain ⟨orders, -⟩ := fixed_tolerance_leaves (by decide) covered zero_le_one
  obtain ⟨left, winnowed, some, passes, -⟩ := orders [0, 1] (List.Perm.refl _)
  refine ⟨left, winnowed, some, fun member => ?_⟩
  have first := (passes 2).mp member 0 (List.finRange 3) (contested_first (by decide)) 0
    (List.mem_finRange 0) 3 (by simp [contest]) 0 (by simp [contest])
  norm_num at first

end Lexicase

end PictureEvolution
