import Mathlib
import PictureEvolution.Evolution.Tolerance

/-!
# The spread of exact numbers

Read over the reals, the sum in blocks is the sum, and the tolerance computed from some errors is
their standard deviation. It is at most half of the range: the squares about the mean sum up to no
more than those about the middle of the range.
-/

namespace PictureEvolution.Tolerance

open Finset

noncomputable instance : Arithmetic ℝ where
  ofNat n := n
  sqrt := Real.sqrt

@[simp] theorem ofNat_real (n : ℕ) : (Arithmetic.ofNat n : ℝ) = n := rfl

@[simp] theorem sqrt_real (x : ℝ) : Arithmetic.sqrt x = √x := rfl

section Sum

theorem fold_add (f : ℕ → ℝ) (count : ℕ) (initial : ℝ) :
    Nat.fold count (fun i _ sum => sum + f i) initial = initial + ∑ i ∈ range count, f i := by
  induction count with
  | zero => simp
  | succ count ih => rw [Nat.fold_succ, ih, sum_range_succ, add_assoc]

/-- Every eighth number, the first of them apart. -/
theorem lane_eq (f : ℕ → ℝ) {rounds : ℕ} (positive : 0 < rounds) :
    f 0 + ∑ i ∈ range (rounds - 1), f (8 * (i + 1)) = ∑ i ∈ range rounds, f (8 * i) := by
  obtain ⟨more, rfl⟩ := Nat.exists_eq_succ_of_ne_zero positive.ne'
  rw [sum_range_succ', Nat.succ_sub_one, mul_zero, add_comm]

theorem sum_eights (f : ℕ → ℝ) (rounds : ℕ) :
    ∑ k ∈ range (8 * rounds), f k = ∑ i ∈ range rounds, ∑ j ∈ range 8, f (8 * i + j) := by
  induction rounds with
  | zero => simp
  | succ rounds ih =>
    rw [Nat.mul_succ, sum_range_add, ih, sum_range_succ fun i => ∑ j ∈ range 8, f (8 * i + j)]

variable (xs : Array ℝ)

/-- The sum of some numbers from a place on; beyond the end there are zeros. -/
theorem sumPlain_eq (first count : ℕ) :
    sumPlain xs first count = ∑ i ∈ range count, xs.getD (first + i) 0 := by
  unfold sumPlain
  rw [fold_add fun i => xs.getD (first + i) (Arithmetic.ofNat 0)]
  simp

theorem sumEight_eq {first count : ℕ} (eight : 8 ≤ count) :
    sumEight xs first count = ∑ i ∈ range count, xs.getD (first + i) 0 := by
  have positive : 0 < count / 8 := by omega
  have lane (j : ℕ) :
      Nat.fold (count / 8 - 1)
          (fun i _ sum => sum + xs.getD (first + 8 * (i + 1) + j) (Arithmetic.ofNat 0))
          (xs.getD (first + j) (Arithmetic.ofNat 0)) =
        ∑ i ∈ range (count / 8), xs.getD (first + (8 * i + j)) 0 := by
    rw [fold_add fun i => xs.getD (first + 8 * (i + 1) + j) (Arithmetic.ofNat 0)]
    have lanes := lane_eq (fun k => xs.getD (first + (k + j)) (0 : ℝ)) positive
    simpa [add_assoc] using lanes
  have split : count = 8 * (count / 8) + (count - 8 * (count / 8)) := by omega
  unfold sumEight
  dsimp only
  rw [fold_add fun i => xs.getD (first + 8 * (count / 8) + i) (Arithmetic.ofNat 0)]
  simp only [lane]
  conv_rhs => rw [split, sum_range_add, sum_eights, sum_comm]
  simp only [sum_range_succ, range_zero, sum_empty, ofNat_real, Nat.cast_zero, ← add_assoc]
  ring

theorem sumBlocks_eq (first count : ℕ) :
    sumBlocks xs first count = ∑ i ∈ range count, xs.getD (first + i) 0 := by
  induction first, count using sumBlocks.induct with
  | case1 first count few =>
    rw [sumBlocks, if_pos few, sumPlain_eq]
  | case2 first count many short =>
    rw [sumBlocks, if_neg many, if_pos short, sumEight_eq xs (Nat.le_of_not_lt many)]
  | case3 first count many long half front back =>
    have split : count = half + (count - half) := by omega
    rw [sumBlocks, if_neg many, if_neg long]
    dsimp only
    rw [front, back]
    conv_rhs => rw [split, sum_range_add]
    simp only [add_assoc]

end Sum

variable (xs : List ℝ)

theorem sum_getD : ∑ i ∈ range xs.length, xs.getD i 0 = xs.sum := by
  induction xs with
  | nil => rfl
  | cons x rest ih =>
    rw [List.length_cons, sum_range_succ', List.sum_cons, ← ih, add_comm]
    rfl

theorem mean_eq : mean xs.toArray = xs.sum / xs.length := by
  unfold mean
  rw [sumBlocks_eq, ← sum_getD]
  simp

/-- The standard deviation of the whole population. -/
theorem deviation_eq :
    deviation xs.toArray =
      √((xs.map fun x => (x - xs.sum / xs.length) ^ 2).sum / xs.length) := by
  unfold deviation
  dsimp only
  rw [mean_eq, List.map_toArray, mean_eq, List.length_map, sqrt_real]
  simp only [pow_two]

theorem sum_squares (c : ℝ) :
    (xs.map fun x => (x - c) ^ 2).sum =
      (xs.map fun x => x ^ 2).sum - 2 * c * xs.sum + xs.length * c ^ 2 := by
  induction xs with
  | nil => simp
  | cons x rest ih =>
    simp only [List.map_cons, List.sum_cons, List.length_cons, ih, Nat.cast_succ]
    ring

variable {xs}

/-- The squares about the mean sum up to the least. -/
theorem sum_squares_mean_le (inhabited : xs ≠ []) (c : ℝ) :
    (xs.map fun x => (x - xs.sum / xs.length) ^ 2).sum ≤ (xs.map fun x => (x - c) ^ 2).sum := by
  have count : (0 : ℝ) < xs.length := by
    exact_mod_cast List.length_pos_iff.mpr inhabited
  have apart : (xs.map fun x => (x - c) ^ 2).sum =
      (xs.map fun x => (x - xs.sum / xs.length) ^ 2).sum +
        xs.length * (xs.sum / xs.length - c) ^ 2 := by
    rw [sum_squares, sum_squares]
    field_simp
    ring
  rw [apart]
  have square : 0 ≤ xs.length * (xs.sum / xs.length - c) ^ 2 := by positivity
  linarith

theorem deviation_nonneg (xs : Array ℝ) : 0 ≤ deviation xs := Real.sqrt_nonneg _

/-- The standard deviation is at most half of the range. -/
theorem deviation_le {low high : ℝ} (inhabited : xs ≠ [])
    (within : ∀ x ∈ xs, low ≤ x ∧ x ≤ high) : deviation xs.toArray ≤ (high - low) / 2 := by
  have count : (0 : ℝ) < xs.length := by
    exact_mod_cast List.length_pos_iff.mpr inhabited
  have ordered : low ≤ high := by
    obtain ⟨x, hx⟩ := List.exists_mem_of_ne_nil xs inhabited
    exact (within x hx).1.trans (within x hx).2
  have about : (xs.map fun x => (x - (low + high) / 2) ^ 2).sum ≤
      xs.length * ((high - low) / 2) ^ 2 := by
    have bound : ∀ y ∈ xs.map fun x => (x - (low + high) / 2) ^ 2, y ≤ ((high - low) / 2) ^ 2 := by
      intro y hy
      obtain ⟨x, hx, rfl⟩ := List.mem_map.mp hy
      obtain ⟨above, below⟩ := within x hx
      exact sq_le_sq' (by linarith) (by linarith)
    have total := List.sum_le_card_nsmul _ _ bound
    rwa [List.length_map, nsmul_eq_mul] at total
  rw [deviation_eq, Real.sqrt_le_left (by linarith), div_le_iff₀ count, mul_comm]
  exact (sum_squares_mean_le inhabited _).trans about

end PictureEvolution.Tolerance
