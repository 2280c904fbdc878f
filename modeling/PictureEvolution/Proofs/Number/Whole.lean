import Mathlib
import PictureEvolution.Proofs.Number.Parts

/-!
# Whole numbers among the doubles

Every integer below `2 ^ 53` on either side of zero is a double, and sums and products that stay
below it are exact: rounding finds nothing to round. In parts, such a number is shifted until its
mantissa has all its places; all that rounding does is to find this form again.
-/

namespace PictureEvolution

open Float.Model Float.Model.UnpackedFloat

namespace Binary

section Rounding

/-- How far a whole number is shifted to the left so that its mantissa has all its places. -/
def shift (k : Nat) : Nat := 52 - k.log2

def wholeParts (s : Sign) (k : Nat) (pos : 0 < k) : UnpackedFloat :=
  .finite s (k * 2 ^ shift k) (-(shift k : Int)) (Nat.mul_pos pos (Nat.two_pow_pos _))

variable {k : Nat}

theorem log2_mul_two_pow (pos : 0 < k) (j : Nat) : (k * 2 ^ j).log2 = k.log2 + j := by
  have positive : 0 < 2 ^ j := Nat.two_pow_pos j
  refine (Nat.log2_eq_iff (Nat.mul_pos pos positive).ne').mpr ⟨?_, ?_⟩
  · rw [Nat.pow_add]
    exact Nat.mul_le_mul_right _ (Nat.log2_self_le pos.ne')
  · rw [Nat.add_right_comm, Nat.pow_add]
    exact Nat.mul_lt_mul_of_pos_right Nat.lt_log2_self positive

theorem log2_le (pos : 0 < k) (small : k < 2 ^ 53) : k.log2 ≤ 52 :=
  Nat.le_of_lt_succ ((Nat.log2_lt pos.ne').mpr small)

theorem targetExponent_whole (pos : 0 < k) (small : k < 2 ^ 53) (j : Nat) :
    Format.binary64.targetExponent (totalExponent (k * 2 ^ j) (-(j : Int))) = -(shift k : Int) := by
  have places := log2_le pos small
  have total : totalExponent (k * 2 ^ j) (-(j : Int)) = k.log2 + 1 := by
    rw [totalExponent, log2_mul_two_pow pos]
    omega
  rw [total]
  show max ((k.log2 : Int) + 1 - (53 : Nat)) (-1074) = -((52 - k.log2 : Nat) : Int)
  omega

/-- Places that hold nothing are shifted out without a trace. -/
theorem shiftRight_exact (m i : Nat) :
    (⟨m * 2 ^ i, false, false⟩ : ExtendedMantissa) >>> i = ⟨m, false, false⟩ := by
  induction i generalizing m with
  | zero => rw [Nat.pow_zero, Nat.mul_one]; rfl
  | succ i ih =>
    have step : (⟨m * 2 ^ (i + 1), false, false⟩ : ExtendedMantissa) >>> (i + 1) =
        ((⟨m * 2 * 2 ^ i, false, false⟩ : ExtendedMantissa) >>> i).shiftRightOne := by
      rw [Nat.pow_succ', ← Nat.mul_assoc]
      rfl
    rw [step, ih, ExtendedMantissa.shiftRightOne]
    simp

theorem shiftToTargetExponent_whole (pos : 0 < k) (small : k < 2 ^ 53) {j : Nat}
    (full : shift k ≤ j) :
    shiftToTargetExponent .binary64 (k * 2 ^ j) (-(j : Int)) .exact =
      (⟨k * 2 ^ shift k, false, false⟩, -(shift k : Int)) := by
  obtain ⟨i, rfl⟩ := Nat.exists_eq_add_of_le full
  have amount : (-(shift k : Int) - -((shift k + i : Nat) : Int)).toNat = i := by omega
  unfold shiftToTargetExponent shiftToExponent
  rw [targetExponent_whole pos small]
  dsimp only
  rw [amount, ExtendedMantissa.ofMantissaAndAccuracy, Nat.pow_add, ← Nat.mul_assoc,
    shiftRight_exact]
  congr 1
  omega

theorem roundWithAccuracy_whole (s : Sign) (pos : 0 < k) (small : k < 2 ^ 53) {j : Nat}
    (full : shift k ≤ j) :
    roundWithAccuracy .binary64 s (k * 2 ^ j) (-(j : Int)) .exact = wholeParts s k pos := by
  have positive : k * 2 ^ shift k ≠ 0 := (Nat.mul_pos pos (Nat.two_pow_pos _)).ne'
  have rounded : (⟨k * 2 ^ shift k, false, false⟩ : ExtendedMantissa).roundedMantissa =
      k * 2 ^ shift k := rfl
  unfold roundWithAccuracy
  simp only [shiftToTargetExponent_whole pos small full, rounded,
    shiftToTargetExponent_whole pos small le_rfl, dif_neg positive]
  rfl

theorem decreaseExponent_whole (k : Nat) {j : Nat} (full : shift k ≤ j) :
    decreaseExponent (k * 2 ^ shift k) (-(shift k : Int)) (-(j : Int)) =
      (k * 2 ^ j, -(j : Int)) := by
  obtain ⟨i, rfl⟩ := Nat.exists_eq_add_of_le full
  have amount : (-(shift k : Int) - -((shift k + i : Nat) : Int)).toNat = i := by omega
  unfold decreaseExponent
  dsimp only
  rw [amount, Nat.shiftLeft_eq, Nat.mul_assoc, ← Nat.pow_add]
  congr 1
  omega

theorem shift_mul_le (pos : 0 < k) {l : Nat} (pos' : 0 < l) : shift (k * l) ≤ shift k := by
  have larger : k.log2 ≤ (k * l).log2 := by
    rw [Nat.le_log2 (Nat.mul_pos pos pos').ne']
    exact (Nat.log2_self_le pos.ne').trans (Nat.le_mul_of_pos_right k pos')
  unfold shift
  omega

/-- A whole number is rounded to itself, with however many empty places it comes. -/
theorem round_whole (s : Sign) (pos : 0 < k) (small : k < 2 ^ 53) (j : Nat) :
    UnpackedFloat.round .binary64 s (k * 2 ^ j) (-(j : Int)) = wholeParts s k pos := by
  unfold UnpackedFloat.round decreaseExponent
  dsimp only
  rw [targetExponent_whole pos small]
  have amount : (-(j : Int) - -(shift k : Int)).toNat = shift k - j := by omega
  have exponent :
      -(j : Int) - ((shift k - j : Nat) : Int) = -((j + (shift k - j) : Nat) : Int) := by
    omega
  rw [amount, exponent, Nat.shiftLeft_eq, Nat.mul_assoc, ← Nat.pow_add]
  exact roundWithAccuracy_whole s pos small (by omega)

/-- A field that is neither the least nor the greatest one stands before a mantissa with the leading
bit. -/
theorem unpack_normal (s : Sign) {field : BitVec 11} (finite : field ≠ -1#11)
    (normal : field ≠ 0#11)
    (mantissa : BitVec 52) (pos : 0 < 2 ^ 52 + mantissa.toNat) :
    UnpackedFloat.unpack .binary64 (packComponents .binary64 s field mantissa) =
      .finite s (2 ^ 52 + mantissa.toNat) (field.toNat - 1075) pos := by
  have sign :
      Sign.ofBitVec (@unpackSign .binary64 (packComponents .binary64 s field mantissa)) = s :=
    signOf_packComponents s field mantissa
  have leading : (1#1 ++ mantissa).toNat = 2 ^ 52 + mantissa.toNat := toNat_leading mantissa
  unfold UnpackedFloat.unpack
  dsimp only
  simp only [sign, unpackMantissa_packComponents, unpackExponent_packComponents]
  rw [if_neg finite, if_neg normal]
  simp only [leading]
  rfl

/-- A whole number is kept by packing it. -/
theorem unpack_pack_whole (s : Sign) (pos : 0 < k) (small : k < 2 ^ 53) :
    UnpackedFloat.unpack .binary64 (UnpackedFloat.pack .binary64 (wholeParts s k pos)) =
      wholeParts s k pos := by
  have places := log2_le pos small
  have positive : 0 < k * 2 ^ shift k := Nat.mul_pos pos (Nat.two_pow_pos _)
  have bits : (k * 2 ^ shift k).log2 = 52 := by
    rw [log2_mul_two_pow pos, shift]
    omega
  obtain ⟨leading, upper⟩ := (Nat.log2_eq_iff positive.ne').mp bits
  obtain ⟨field, value⟩ : ∃ field : BitVec 11, field.toNat = 1023 + k.log2 :=
    ⟨BitVec.ofNat 11 (1023 + k.log2), by rw [BitVec.toNat_ofNat]; omega⟩
  have finite : field ≠ -1#11 := fun top => by rw [top] at value; change 2047 = _ at value; omega
  have normal : field ≠ 0#11 := fun least => by rw [least] at value; change 0 = _ at value; omega
  have exponent : -(shift k : Int) = field.toNat - 1075 := by
    rw [value, shift]
    omega
  have mantissa : 2 ^ 52 + (BitVec.ofNat 52 (k * 2 ^ shift k)).toNat = k * 2 ^ shift k := by
    rw [BitVec.toNat_ofNat]
    omega
  unfold wholeParts
  simp only [exponent]
  rw [pack_normal s finite leading upper, unpack_normal s finite normal _ (by omega)]
  simp only [mantissa]

end Rounding

section Apply

variable (s t : Sign)

theorem natAbs_apply (k : Nat) : (s.apply k).natAbs = k := by
  cases s
  · exact Int.natAbs_neg k
  · rfl

theorem apply_mul_right (a b : Int) : s.apply (a * b) = s.apply a * b := by
  cases s
  · exact (Int.neg_mul a b).symm
  · rfl

theorem apply_mul_apply (a b : Int) : (s * t).apply (a * b) = s.apply a * t.apply b := by
  cases s <;> cases t
  · exact (Int.neg_mul_neg a b).symm
  · exact (Int.neg_mul a b).symm
  · exact (Int.mul_neg a b).symm
  · rfl

theorem apply_neg (a : Int) : (-s).apply a = -s.apply a := by
  cases s
  · exact (Int.neg_neg a).symm
  · rfl

theorem exists_apply {n : Int} (h : n ≠ 0) : ∃ (s : Sign) (k : Nat), 0 < k ∧ n = s.apply k := by
  rcases Int.lt_or_gt_of_ne h with below | above
  · refine ⟨.negative, n.natAbs, by omega, ?_⟩
    show n = -(n.natAbs : Int)
    omega
  · refine ⟨.positive, n.natAbs, by omega, ?_⟩
    show n = (n.natAbs : Int)
    omega

/-- An integer that is not zero is normalized by rounding its magnitude. -/
theorem normalize_apply {m : Nat} (pos : 0 < m) (e : Int) :
    UnpackedFloat.normalize .binary64 (s.apply m) e t = UnpackedFloat.round .binary64 s m e := by
  unfold UnpackedFloat.normalize
  cases s with
  | negative =>
    have below : Sign.negative.apply m < 0 := by show -(m : Int) < 0; omega
    have magnitude : (-Sign.negative.apply m).toNat = m := by show (- -(m : Int)).toNat = m; omega
    rw [Int.compare_eq_lt.mpr below, magnitude]
  | positive =>
    have above : 0 < Sign.positive.apply m := by show 0 < (m : Int); omega
    rw [Int.compare_eq_gt.mpr above]
    rfl

theorem signed_isMinus (m : Nat) (e : Int) (k : Nat) :
    (⟨isMinus s, m, e⟩ : Binary).signed k = s.apply k := by
  cases s <;> rfl

end Apply

/-- The integer that a number in parts is, below `2 ^ 53` on either side of zero. -/
inductive Whole : UnpackedFloat → Int → Prop where
  | zero (s : Sign) : Whole (.zero s) 0
  | parts (s : Sign) {k : Nat} (pos : 0 < k) (small : k < 2 ^ 53) :
      Whole (wholeParts s k pos) (s.apply k)

namespace Whole

variable {u v : UnpackedFloat} {m n : Int}

theorem unpack_pack (h : Whole u n) :
    UnpackedFloat.unpack .binary64 (UnpackedFloat.pack .binary64 u) = u := by
  cases h with
  | zero s => cases s <;> rfl
  | parts s pos small => exact unpack_pack_whole s pos small

theorem normalize (small : n.natAbs < 2 ^ 53) (j : Nat) (t : Sign) :
    Whole (UnpackedFloat.normalize .binary64 (n * (2 ^ j : Nat)) (-(j : Int)) t) n := by
  by_cases h : n = 0
  · rw [h, Int.zero_mul]
    exact .zero t
  · obtain ⟨s, k, pos, rfl⟩ := exists_apply h
    rw [natAbs_apply] at small
    rw [← apply_mul_right, ← Int.natCast_mul,
      normalize_apply s t (Nat.mul_pos pos (Nat.two_pow_pos j)), round_whole s pos small]
    exact .parts s pos small

theorem neg (h : Whole u n) : Whole u.neg (-n) := by
  cases h with
  | zero s => exact .zero (-s)
  | parts s pos small =>
    rw [← apply_neg]
    exact .parts (-s) pos small

/-- The sum of two whole numbers is exact as long as it is small. -/
theorem add (hu : Whole u m) (hv : Whole v n) (small : (m + n).natAbs < 2 ^ 53) :
    Whole (UnpackedFloat.add .binary64 u v) (m + n) := by
  cases hu with
  | zero s =>
    cases hv with
    | zero t => cases s <;> cases t <;> exact .zero _
    | parts t pos below =>
      rw [Int.zero_add]
      exact .parts t pos below
  | @parts s k pos below =>
    cases hv with
    | zero t =>
      rw [Int.add_zero]
      exact .parts s pos below
    | @parts t l pos' below' =>
      -- both mantissas are brought to the lower one of the two exponents
      have lower : min (-(shift k : Int)) (-(shift l : Int)) =
          -((max (shift k) (shift l) : Nat) : Int) := by omega
      unfold UnpackedFloat.add wholeParts
      dsimp only
      rw [lower, decreaseExponent_whole k (Nat.le_max_left _ _),
        decreaseExponent_whole l (Nat.le_max_right _ _)]
      dsimp only
      rw [Int.natCast_mul, Int.natCast_mul, apply_mul_right, apply_mul_right, ← Int.add_mul]
      exact normalize small _ _

/-- The product of two whole numbers is exact as long as it is small. -/
theorem mul (hu : Whole u m) (hv : Whole v n) (small : (m * n).natAbs < 2 ^ 53) :
    Whole (UnpackedFloat.mul .binary64 u v) (m * n) := by
  cases hu with
  | zero s =>
    rw [Int.zero_mul]
    cases hv <;> exact .zero _
  | @parts s k pos below =>
    cases hv with
    | zero t =>
      rw [Int.mul_zero]
      exact .zero _
    | @parts t l pos' below' =>
      have product : k * 2 ^ shift k * (l * 2 ^ shift l) = k * l * 2 ^ (shift k + shift l) := by
        rw [Nat.pow_add, Nat.mul_mul_mul_comm]
      have exponent : -(shift k : Int) + -(shift l : Int) = -((shift k + shift l : Nat) : Int) := by
        omega
      have full : shift (k * l) ≤ shift k + shift l :=
        (shift_mul_le pos pos').trans (Nat.le_add_right _ _)
      have positive : 0 < k * l := Nat.mul_pos pos pos'
      rw [← apply_mul_apply, ← Int.natCast_mul] at small ⊢
      rw [natAbs_apply] at small
      unfold UnpackedFloat.mul wholeParts
      dsimp only
      simp only [product, exponent]
      rw [roundWithAccuracy_whole (s * t) positive small full]
      exact .parts (s * t) positive small

theorem compareInt (h : Whole u n) :
    ∃ b, ofParts? u = some b ∧ b.compareInt n = .eq := by
  cases h with
  | zero s => exact ⟨_, rfl, compareInt_of_zero rfl 0⟩
  | @parts s k pos small =>
    refine ⟨_, rfl, Int.compare_eq_eq.mpr ?_⟩
    have above : (-(shift k : Int)).toNat = 0 := by omega
    have below : (- -(shift k : Int)).toNat = shift k := by omega
    rw [signed_isMinus, num, den, above, below, ← apply_mul_right, ← Int.natCast_mul]
    exact congrArg (fun m : Nat => s.apply m) (Nat.mul_one _)

end Whole

def Equals (x : Float) (n : Int) : Prop := ∃ b, ofFloat? x = some b ∧ b.compareInt n = .eq

theorem roundDiv_mul (k : Nat) {d : Nat} (pos : 0 < d) : roundDiv (k * d) d = k := by
  unfold roundDiv
  dsimp only
  rw [Nat.mul_mod_left, Nat.mul_div_cancel k pos, if_pos (by omega)]

theorem natAbs_signed (b : Binary) (k : Nat) : (b.signed k).natAbs = k := by
  unfold signed
  split
  · exact Int.natAbs_neg k
  · rfl

theorem signed_mul (b : Binary) (k d : Nat) : b.signed (k * d) = b.signed k * d := by
  unfold signed
  split
  · rw [Int.natCast_mul, Int.neg_mul]
  · rw [Int.natCast_mul]

/-- The integer nearest to a whole number is that number. -/
theorem round_of_compareInt {b : Binary} {n : Int} (h : b.compareInt n = .eq) : b.round = n := by
  have positive := b.den_pos
  have value : b.signed b.num = n * b.den := Int.compare_eq_eq.mp h
  have magnitude : b.num = n.natAbs * b.den := by
    rw [← b.natAbs_signed b.num, value, Int.natAbs_mul, Int.natAbs_natCast]
  have sign : b.signed n.natAbs * b.den = n * b.den := by
    rw [← signed_mul, ← magnitude, value]
  rw [round, magnitude, roundDiv_mul _ positive]
  exact Int.eq_of_mul_eq_mul_right (by omega) sign

/-- A double that is an integer below `2 ^ 53` on either side of zero. -/
def IsWhole (x : Float) (n : Int) : Prop := Whole x.toModel.unpack n

namespace IsWhole

variable {x y : Float} {m n : Int}

/-- A double that is put together from the parts of a whole number. -/
theorem of_packed {u : UnpackedFloat} (whole : Whole u n) (packed : x.toModel.unpack =
    UnpackedFloat.unpack .binary64 (UnpackedFloat.pack .binary64 u)) : IsWhole x n := by
  rw [IsWhole, packed, whole.unpack_pack]
  exact whole

theorem add (hx : IsWhole x m) (hy : IsWhole y n) (small : (m + n).natAbs < 2 ^ 53) :
    IsWhole (x + y) (m + n) :=
  of_packed (Whole.add hx hy small) rfl

theorem mul (hx : IsWhole x m) (hy : IsWhole y n) (small : (m * n).natAbs < 2 ^ 53) :
    IsWhole (x * y) (m * n) :=
  of_packed (Whole.mul hx hy small) rfl

theorem neg (hx : IsWhole x n) : IsWhole x.neg (-n) := of_packed (Whole.neg hx) rfl

theorem zero : IsWhole 0.0 0 := Whole.zero .positive

theorem one : IsWhole 1.0 1 := Whole.parts .positive Nat.one_pos (by decide)

theorem toFloat {w : UInt64} (small : w.toNat < 2 ^ 53) : IsWhole w.toFloat w.toNat := by
  have whole : Whole (UnpackedFloat.normalize .binary64 w.toNat 0 .positive) w.toNat := by
    simpa using Whole.normalize (n := w.toNat) small 0 .positive
  exact of_packed whole rfl

theorem ofNat {k : Nat} (small : k < 2 ^ 53) : IsWhole (Float.ofNat k) k := by
  have word : k.toUInt64.toNat = k := Nat.mod_eq_of_lt (by omega)
  have scaled : Float.ofNat k = k.toUInt64.toFloat * 1.0 := by
    unfold Float.ofNat OfScientific.ofScientific
    show Float.ofScientific k false 0 = _
    unfold Float.ofScientific
    rw [dif_pos ⟨small, by decide⟩]
    rfl
  have whole : IsWhole k.toUInt64.toFloat k := by
    simpa only [word] using toFloat (w := k.toUInt64) (by rwa [word])
  have product := whole.mul one (by rw [Int.mul_one]; exact small)
  rwa [scaled, ← Int.mul_one (k : Int)]

theorem ofInt (small : n.natAbs < 2 ^ 53) : IsWhole (Float.ofInt n) n := by
  cases n with
  | ofNat k => exact ofNat small
  | negSucc k => exact (ofNat (k := k + 1) small).neg

theorem equals (hx : IsWhole x n) : Equals x n := by
  obtain ⟨b, parts, equal⟩ := Whole.compareInt hx
  exact ⟨b, (ofFloat?_eq x).trans parts, equal⟩

end IsWhole

end Binary

end PictureEvolution
