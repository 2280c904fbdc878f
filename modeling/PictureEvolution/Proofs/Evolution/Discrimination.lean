import PictureEvolution.Proofs.Evolution.Selection
import PictureEvolution.Proofs.Evolution.Spread

/-!
# Cases discriminate

With exact numbers for errors and the tolerance that is computed from them, a case that does not tie
the candidates removes some: half of the range lies between the least error and the greatest one,
and the tolerance is no more than that. Those with the least error stay, so somebody always does,
and selection never falls back on the whole population.
-/

namespace PictureEvolution

namespace Tolerance

noncomputable def Reading.exact : Reading ℝ ℝ where
  number := .ok
  least first rest := rest.foldl min first
  atMost error threshold := decide (error ≤ threshold)

/-- Exact errors survive up to the least one plus the tolerance. -/
theorem Reading.exact_survives_of_value {given : Option ℝ} {errors : List ℝ}
    (inhabited : errors ≠ []) {tolerance : ℝ}
    (tolerated : exact.value given errors = .ok tolerance) :
    ∃ low ∈ errors, (∀ e ∈ errors, low ≤ e) ∧ exact.survives given errors =
      .ok fun e => decide (e ≤ low + tolerance) := by
  cases errors with
  | nil => exact absurd rfl inhabited
  | cons first rest =>
    obtain ⟨attained, least⟩ := foldl_min_least first rest
    refine ⟨rest.foldl min first, attained, least, ?_⟩
    unfold survives
    dsimp only
    rw [tolerated]
    rfl

/-- Without a given tolerance, that is the standard deviation of all errors. -/
theorem Reading.exact_survives {errors : List ℝ} (inhabited : errors ≠ []) :
    ∃ low ∈ errors, (∀ e ∈ errors, low ≤ e) ∧ exact.survives none errors =
      .ok fun e => decide (e ≤ low + deviation errors.toArray) := by
  have read : errors.mapM exact.number = .ok (errors.map id) := List.mapM_pure
  refine exact_survives_of_value inhabited ?_
  unfold value
  dsimp only
  rw [read, List.map_id]
  rfl

end Tolerance

namespace Lexicase

/-- The rule of survival for exact errors, with the tolerance that is computed from them. -/
noncomputable def exact : Survival ℝ :=
  fun errors => (Tolerance.Reading.exact.survives none errors).mapError .score

structure Discriminates {ι : Type} (error : ι → ℝ) (candidates kept : List ι) : Prop where
  /-- those up to some error are left, in their order -/
  upTo : ∃ x, kept = candidates.filter fun i => decide (error i ≤ x)
  /-- those with the least error stay -/
  least : ∀ i ∈ candidates, (∀ j ∈ candidates, error i ≤ error j) → i ∈ kept
  /-- nobody is left beyond the middle between the least error and the greatest -/
  middle : ∀ i ∈ kept, ∀ l ∈ candidates, ∀ h ∈ candidates,
    (∀ j ∈ candidates, error l ≤ error j ∧ error j ≤ error h) →
      error i ≤ (error l + error h) / 2
  tied : (∀ i ∈ candidates, ∀ j ∈ candidates, error i = error j) → kept = candidates
  untied : (∃ i ∈ candidates, ∃ j ∈ candidates, error i ≠ error j) →
    kept.length < candidates.length
  inhabited : kept ≠ []

section Discriminates

variable {ι : Type} {error : ι → ℝ} {candidates : List ι}

/-- A threshold from the least error to the middle of the range discriminates. -/
theorem discriminates_of_threshold {low threshold : ℝ} (attained : ∃ i ∈ candidates, error i = low)
    (above : ∀ i ∈ candidates, low ≤ error i) (reached : low ≤ threshold)
    (half : ∀ h ∈ candidates, (∀ j ∈ candidates, error j ≤ error h) →
      threshold ≤ (low + error h) / 2) :
    Discriminates error candidates (candidates.filter fun i => decide (error i ≤ threshold)) := by
  obtain ⟨first, member, rfl⟩ := attained
  have kept {i : ι} : i ∈ candidates.filter (fun i => decide (error i ≤ threshold)) ↔
      i ∈ candidates ∧ error i ≤ threshold := by
    rw [List.mem_filter, decide_eq_true_iff]
  obtain ⟨last, greatest, beyond⟩ : ∃ h ∈ candidates, ∀ j ∈ candidates, error j ≤ error h := by
    have some : candidates.map error ≠ [] := List.ne_nil_of_mem (List.mem_map_of_mem member)
    obtain ⟨h, hh, most⟩ := List.mem_map.mp (List.max_mem some)
    exact ⟨h, hh, fun j hj => most ▸ List.le_max_of_mem (List.mem_map_of_mem hj)⟩
  refine ⟨⟨threshold, rfl⟩, fun i hi least => ?_, fun i hi l hl h hh range => ?_, fun tied => ?_,
    fun ⟨i, hi, j, hj, apart⟩ => ?_, ?_⟩
  · exact kept.mpr ⟨hi, (least first member).trans reached⟩
  · have lowest : error first = error l := le_antisymm (above l hl) (range first member).1
    rw [← lowest]
    exact (kept.mp hi).2.trans (half h hh fun j hj => (range j hj).2)
  · refine List.filter_eq_self.mpr fun i hi => decide_eq_true ?_
    exact (tied i hi first member).le.trans reached
  · -- the one with the greatest error goes: its error is beyond the middle
    refine List.length_filter_lt_length_iff_exists.mpr ⟨last, greatest, ?_⟩
    have spread : error first < error last := by
      refine lt_of_le_of_ne (above last greatest) fun same => apart ?_
      have at_first (k : ι) (hk : k ∈ candidates) : error k = error first :=
        le_antisymm (same ▸ beyond k hk) (above k hk)
      rw [at_first i hi, at_first j hj]
    have middle := half last greatest beyond
    rw [decide_eq_true_iff, not_le]
    linarith
  · exact List.ne_nil_of_mem (kept.mpr ⟨member, reached⟩)

/-- Every case keeps some of the candidates that have an error for it, as the discrimination
says. -/
theorem keep_discriminates {errors : ι → List ℝ} {case : Nat} (inhabited : candidates ≠ [])
    (within : ∀ i ∈ candidates, case < (errors i).length) :
    ∃ kept, keep exact errors case candidates = .ok kept ∧
      Discriminates (fun i => (errors i).getD case 0) candidates kept := by
  have found (i : ι) (hi : i ∈ candidates) :
      (errors i)[case]? = some ((errors i).getD case 0) := by
    rw [List.getD_eq_getElem?_getD, List.getElem?_eq_getElem (within i hi), Option.getD_some]
  let error (i : ι) : ℝ := (errors i).getD case 0
  have some : candidates.map error ≠ [] := by simpa using inhabited
  obtain ⟨low, attained, above, survives⟩ := Tolerance.Reading.exact_survives some
  refine ⟨_, keep_eq found (by rw [exact, survives]; rfl), ?_⟩
  refine discriminates_of_threshold (List.mem_map.mp attained)
    (fun i hi => above _ (List.mem_map_of_mem hi)) ?_ fun h hh most => ?_
  · exact le_add_of_nonneg_right (Tolerance.deviation_nonneg _)
  · have half : Tolerance.deviation (candidates.map error).toArray ≤ (error h - low) / 2 := by
      refine Tolerance.deviation_le some fun x hx => ⟨above x hx, ?_⟩
      obtain ⟨j, hj, rfl⟩ := List.mem_map.mp hx
      exact most j hj
    show low + _ ≤ (low + error h) / 2
    linarith

end Discriminates

section Winnow

variable {ι : Type}

/-- Of some candidates with an error for each case winnowing leaves some. -/
theorem winnow_inhabited {errors : ι → List ℝ} {order : List Nat}
    (within : ∀ case ∈ order, ∀ i, case < (errors i).length) {candidates : List ι}
    (inhabited : candidates ≠ []) :
    ∃ left, winnow exact errors order candidates = .ok left ∧ left ≠ [] := by
  induction order generalizing candidates with
  | nil => exact ⟨candidates, rfl, inhabited⟩
  | cons case cases ih =>
    rcases singleton_or_several inhabited with ⟨i, rfl⟩ | several
    · exact ⟨[i], winnow_singleton _ _ _ i, inhabited⟩
    · obtain ⟨kept, keeps, discriminates⟩ :=
        keep_discriminates inhabited fun i _ => within case List.mem_cons_self i
      rw [winnow_of_several several, keeps]
      exact ih (fun c hc => within c (List.mem_cons_of_mem case hc)) discriminates.inhabited

end Winnow

/-- The candidates before and after each case of an order. -/
theorem winnow_discriminates {ι : Type} {errors : ι → List ℝ} {before after : List Nat} {case : Nat}
    (within : ∀ c ∈ before ++ case :: after, ∀ i, c < (errors i).length) {everybody : List ι}
    (inhabited : everybody ≠ []) :
    ∃ candidates kept, winnow exact errors before everybody = .ok candidates ∧ candidates ≠ [] ∧
      winnow exact errors (before ++ [case]) everybody = .ok kept ∧ kept ≠ [] ∧
      (candidates.length = 1 → kept = candidates) ∧
      (1 < candidates.length → keep exact errors case candidates = .ok kept ∧
        Discriminates (fun i => (errors i).getD case 0) candidates kept) := by
  obtain ⟨candidates, winnowed, some⟩ := winnow_inhabited
    (fun c hc => within c (List.mem_append_left _ hc)) inhabited
  have next : winnow exact errors (before ++ [case]) everybody =
      winnow exact errors [case] candidates := by
    rw [winnow_append, winnowed]
    rfl
  rcases singleton_or_several some with ⟨i, rfl⟩ | several
  · refine ⟨[i], [i], winnowed, some, ?_, some, fun _ => rfl, fun several => ?_⟩
    · rw [next, winnow_singleton]
    · exact absurd several (Nat.lt_irrefl 1)
  · obtain ⟨kept, keeps, discriminates⟩ := keep_discriminates some fun i _ =>
      within case (List.mem_append_right _ List.mem_cons_self) i
    refine ⟨candidates, kept, winnowed, some, ?_, discriminates.inhabited, fun single => ?_,
      fun _ => ⟨keeps, discriminates⟩⟩
    · rw [next, winnow_of_several several, keeps]
      rfl
    · exact absurd several (Nat.not_lt.mpr single.le)

/-- With exact errors and the standard deviation for a tolerance, each case either ties all
candidates or removes some: at least everybody beyond the middle of the range, and nobody with the
least error. Somebody is left after every case of whatever order, and one of those that are left at
the end is selected. -/
theorem automatic_tolerance_discriminates {n : Nat} (pos : 0 < n) {errors : Fin n → List ℝ}
    (covered : ∀ i, (errors ⟨0, pos⟩).length ≤ (errors i).length) :
    (∀ es : List ℝ, es ≠ [] → ∃ low ∈ es, (∀ e ∈ es, low ≤ e) ∧ exact es = .ok fun e => decide
      (e ≤ low + √((es.map fun x => (x - es.sum / es.length) ^ 2).sum / es.length))) ∧
    (∀ (case : Nat) (candidates : List (Fin n)), candidates ≠ [] →
      (∀ i ∈ candidates, case < (errors i).length) →
        ∃ kept, keep exact errors case candidates = .ok kept ∧
          Discriminates (fun i => (errors i).getD case 0) candidates kept) ∧
    (∀ before case after, (∀ c ∈ before ++ case :: after, c < (errors ⟨0, pos⟩).length) →
      ∃ candidates kept, winnow exact errors before (List.finRange n) = .ok candidates ∧
        candidates ≠ [] ∧
        winnow exact errors (before ++ [case]) (List.finRange n) = .ok kept ∧ kept ≠ [] ∧
        (candidates.length = 1 → kept = candidates) ∧
        (1 < candidates.length → keep exact errors case candidates = .ok kept ∧
          Discriminates (fun i => (errors i).getD case 0) candidates kept)) ∧
    ∀ (ω : Type) [Source ω], Task.Succeeds
      (fun i => ∃ order left, order.Perm (List.range (errors ⟨0, pos⟩).length) ∧
        winnow exact errors order (List.finRange n) = .ok left ∧ i ∈ left)
      (select exact pos errors : Task ω (Fin n)) := by
  have everybody : List.finRange n ≠ [] := List.ne_nil_of_mem (List.mem_finRange ⟨0, pos⟩)
  have within {order : List Nat} (cases : ∀ c ∈ order, c < (errors ⟨0, pos⟩).length) :
      ∀ c ∈ order, ∀ i, c < (errors i).length :=
    fun c hc i => (cases c hc).trans_le (covered i)
  refine ⟨fun es inhabited => ?_, fun case candidates inhabited found => ?_,
    fun before case after cases => ?_, fun ω _ => ?_⟩
  · obtain ⟨low, attained, least, survives⟩ := Tolerance.Reading.exact_survives inhabited
    refine ⟨low, attained, least, ?_⟩
    rw [exact, survives, Tolerance.deviation_eq]
    rfl
  · exact keep_discriminates inhabited found
  · exact winnow_discriminates (within cases) everybody
  · have selects : Task.Succeeds _ (select exact pos errors : Task ω (Fin n)) :=
      select_succeeds fun order cases => by
        obtain ⟨left, winnowed, -⟩ := winnow_inhabited (within cases) everybody
        exact ⟨left, winnowed⟩
    refine selects.mono fun i ⟨order, left, perm, winnowed, taken⟩ => ?_
    have cases : ∀ c ∈ order, c < (errors ⟨0, pos⟩).length :=
      fun c hc => List.mem_range.mp (perm.mem_iff.mp hc)
    obtain ⟨left', winnowed', inhabited⟩ := winnow_inhabited (within cases) everybody
    cases winnowed.symm.trans winnowed'
    exact ⟨order, left, perm, winnowed, taken inhabited⟩

/-- Three candidates and one case; the last of them has the least error. -/
noncomputable def outlier (i : Fin 3) : List ℝ := [if i = 2 then 0 else 1]

theorem outlier_getD (i : Fin 3) : (outlier i).getD 0 0 = if i = 2 then 0 else 1 := rfl

theorem outlier_wins :
    ∃ kept, keep exact outlier 0 (List.finRange 3) = .ok kept ∧ ∀ i, i ∈ kept ↔ i = 2 := by
  have covered (i : Fin 3) : (outlier 0).length ≤ (outlier i).length := Nat.le_refl 1
  obtain ⟨-, discriminates, -⟩ := automatic_tolerance_discriminates (by decide) covered
  obtain ⟨kept, keeps, found⟩ := discriminates 0 (List.finRange 3) (by decide)
    fun _ _ => Nat.one_pos
  have low : (outlier 2).getD 0 0 = 0 := by rw [outlier_getD, if_pos rfl]
  have high {i : Fin 3} (other : i ≠ 2) : (outlier i).getD 0 0 = 1 := by
    rw [outlier_getD, if_neg other]
  have first := high (show (0 : Fin 3) ≠ 2 by decide)
  have range (i : Fin 3) : 0 ≤ (outlier i).getD 0 0 ∧ (outlier i).getD 0 0 ≤ 1 := by
    by_cases last : i = 2
    · rw [last, low]
      norm_num
    · rw [high last]
      norm_num
  refine ⟨kept, keeps, fun i => ⟨fun hi => ?_, ?_⟩⟩
  · by_contra other
    have middle := found.middle i hi 2 (List.mem_finRange 2) 0 (List.mem_finRange 0) fun j _ => by
      rw [low, first]
      exact range j
    rw [low, high other, first] at middle
    norm_num at middle
  · rintro rfl
    refine found.least 2 (List.mem_finRange 2) fun j _ => ?_
    rw [low]
    exact (range j).1

end Lexicase

end PictureEvolution
