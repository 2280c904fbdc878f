import Mathlib
import PictureEvolution.Number.Binary

/-!
# The parts of a double

Arithmetic on doubles takes them apart into a sign, a mantissa and an exponent, computes with these
and puts the result together again; a number that was taken apart only comes back as it was. A
finite double reads as a binary fraction of the same parts.
What matters most about a double here is how it compares with zero. No sum of doubles is below zero
unless one of them is.
-/

namespace PictureEvolution

open Float.Model Float.Model.UnpackedFloat

namespace Binary

section Fields

variable (b : BitVec 64)

theorem toNat_unpackMantissa : (@unpackMantissa .binary64 b).toNat = b.toNat % leadingBit := by
  simp [unpackMantissa, leadingBit]

theorem toNat_unpackExponent :
    (@unpackExponent .binary64 b).toNat = b.toNat % signBit / leadingBit := by
  simp [unpackExponent, leadingBit, signBit, Nat.shiftRight_eq_div_pow]
  omega

theorem toNat_unpackSign : (@unpackSign .binary64 b).toNat = b.toNat / signBit := by
  have bound : b.toNat < 2 ^ 64 := b.isLt
  simp [unpackSign, signBit, Nat.shiftRight_eq_div_pow]
  omega

theorem unpackExponent_eq_iff (field : BitVec 11) :
    @unpackExponent .binary64 b = field ↔ b.toNat % signBit / leadingBit = field.toNat := by
  rw [← toNat_unpackExponent, BitVec.toNat_inj]

/-- The leading bit stands before the stored places of a mantissa. -/
theorem toNat_leading (mantissa : BitVec 52) :
    (1#1 ++ mantissa).toNat = leadingBit + mantissa.toNat := by
  rw [BitVec.toNat_append, ← Nat.shiftLeft_add_eq_or_of_lt mantissa.isLt]
  rfl

def isMinus : Sign → Bool
  | .negative => true
  | .positive => false

def signOf : Sign := .ofBitVec (@unpackSign .binary64 b)

theorem isMinus_signOf : isMinus (signOf b) = decide (signBit ≤ b.toNat) := by
  have bound : b.toNat < 2 ^ 64 := b.isLt
  have bit := toNat_unpackSign b
  unfold signOf Sign.ofBitVec
  split
  next plus =>
    have clear : b.toNat / signBit = 0 := by rw [← bit, plus]; rfl
    rw [isMinus, eq_comm, decide_eq_false_iff_not]
    simp only [signBit] at clear ⊢
    omega
  next minus =>
    have set : b.toNat / signBit ≠ 0 := fun h => minus (BitVec.eq_of_toNat_eq (bit.trans h))
    rw [isMinus, eq_comm, decide_eq_true_iff]
    simp only [signBit] at set ⊢
    omega

theorem signOf_packComponents (s : Sign) (exponent : BitVec 11) (mantissa : BitVec 52) :
    signOf (packComponents .binary64 s exponent mantissa) = s := by
  simp only [signOf, unpackSign, packComponents, BitVec.extractLsb]
  rw [BitVec.extractLsb'_append_eq_of_le (by decide),
    BitVec.extractLsb'_append_eq_of_le (by decide)]
  cases s <;> rfl

end Fields

def ofParts? : UnpackedFloat → Option Binary
  | .notANumber => none
  | .infinity _ => none
  | .zero s => some ⟨isMinus s, 0, -1074⟩
  | .finite s m e _ => some ⟨isMinus s, m, e⟩

theorem ofFloat?_eq (x : Float) : ofFloat? x = ofParts? x.toModel.unpack := by
  have bits : x.toBits.toNat = x.toModel.toBits.toBitVec.toNat := rfl
  unfold ofFloat? Float.Model.unpack
  simp only [bits]
  generalize x.toModel.toBits.toBitVec = b
  have top := unpackExponent_eq_iff b (-1#11)
  have bottom := unpackExponent_eq_iff b (0#11)
  have mantissa := toNat_unpackMantissa b
  have sign : isMinus (.ofBitVec (@unpackSign .binary64 b)) = _ := isMinus_signOf b
  unfold UnpackedFloat.unpack
  -- the cases of both sides are those of the exponent field
  split
  next infinite =>
    rw [if_pos (top.mpr infinite)]
    split <;> rfl
  next finite =>
    rw [if_neg (mt top.mp finite)]
    split
    next small =>
      rw [if_pos (bottom.mpr small)]
      split
      next zero =>
        rw [zero] at mantissa
        rw [ofParts?, sign, ← mantissa]
        rfl
      next positive =>
        rw [bottom.mpr small, ofParts?, sign, mantissa]
        rfl
    next normal =>
      have whole : (1#1 ++ @unpackMantissa .binary64 b).toNat =
          leadingBit + b.toNat % leadingBit := by
        rw [← mantissa]
        exact toNat_leading _
      rw [if_neg (mt bottom.mp normal), ofParts?, sign, whole, toNat_unpackExponent]
      rfl

section Compare

variable {b : Binary}

theorem den_pos (b : Binary) : 0 < b.den := Nat.pow_pos Nat.two_pos

theorem compareInt_of_zero (h : b.mantissa = 0) (n : Int) : b.compareInt n = compare 0 n := by
  have positive : (0 : Int) < b.den := Int.natCast_pos.mpr b.den_pos
  have whole : b.signed b.num = 0 := by
    rw [num, h, Nat.zero_mul, signed]
    split <;> rfl
  unfold compareInt
  rw [whole]
  rcases Int.lt_trichotomy n 0 with below | rfl | above
  · rw [Int.compare_eq_gt.mpr (Int.mul_neg_of_neg_of_pos below positive),
      Int.compare_eq_gt.mpr below]
  · rw [Int.zero_mul]
  · rw [Int.compare_eq_lt.mpr (Int.mul_pos above positive), Int.compare_eq_lt.mpr above]

/-- A binary fraction that equals an integer compares with all integers like that one. -/
theorem compareInt_of_eq {n : Int} (h : b.compareInt n = .eq) (m : Int) :
    b.compareInt m = compare n m := by
  have positive : (0 : Int) < b.den := Int.natCast_pos.mpr b.den_pos
  have whole : b.signed b.num = n * b.den := Int.compare_eq_eq.mp h
  unfold compareInt
  rw [whole]
  rcases Int.lt_trichotomy n m with below | rfl | above
  · rw [Int.compare_eq_lt.mpr (Int.mul_lt_mul_of_pos_right below positive),
      Int.compare_eq_lt.mpr below]
  · rw [Int.compare_eq_eq.mpr rfl, Int.compare_eq_eq.mpr rfl]
  · rw [Int.compare_eq_gt.mpr (Int.mul_lt_mul_of_pos_right above positive),
      Int.compare_eq_gt.mpr above]

theorem compareInt_zero_of_pos (h : 0 < b.mantissa) :
    b.compareInt 0 = if b.negative then .lt else .gt := by
  have positive : 0 < b.num := Nat.mul_pos h (Nat.pow_pos Nat.two_pos)
  unfold compareInt signed
  rw [Int.zero_mul]
  split
  · exact Int.compare_eq_lt.mpr (by omega)
  · exact Int.compare_eq_gt.mpr (by omega)

def sign? : UnpackedFloat → Option Ordering
  | .notANumber => none
  | .infinity s => some (if isMinus s then .lt else .gt)
  | .zero _ => some .eq
  | .finite s _ _ _ => some (if isMinus s then .lt else .gt)

theorem compare_zero (u : UnpackedFloat) (s : Sign) : u.compare (.zero s) = sign? u := by
  cases u with
  | notANumber => rfl
  | zero _ => rfl
  | infinity t => cases t <;> rfl
  | finite t _ _ _ => cases t <;> rfl

theorem zero_compare (u : UnpackedFloat) (s : Sign) :
    (zero s).compare u = (sign? u).map Ordering.swap := by
  cases u with
  | notANumber => rfl
  | zero _ => rfl
  | infinity t => cases t <;> rfl
  | finite t _ _ _ => cases t <;> rfl

theorem compare_swap (u v : UnpackedFloat) : u.compare v = (v.compare u).map Ordering.swap := by
  cases u with
  | notANumber => cases v <;> rfl
  | zero s =>
    rw [compare_zero, zero_compare]
  | infinity s =>
    cases v with
    | notANumber => cases s <;> rfl
    | zero t => rw [compare_zero, zero_compare, Option.map_map]; cases s <;> rfl
    | infinity t => cases s <;> cases t <;> rfl
    | finite t _ _ _ => cases s <;> cases t <;> rfl
  | finite s m e _ =>
    cases v with
    | notANumber => cases s <;> rfl
    | zero t => rw [compare_zero, zero_compare, Option.map_map]; cases s <;> rfl
    | infinity t => cases s <;> cases t <;> rfl
    | finite t n d _ =>
      have order : ((compare e d).then (compare m n)).swap = (compare d e).then (compare n m) := by
        rw [Ordering.swap_then, Int.compare_swap, Nat.compare_swap]
      cases s <;> cases t <;> simp [UnpackedFloat.compare, ← order]

end Compare

section Pack

theorem toBitVec_signOf (b : BitVec 64) : (signOf b).toBitVec = @unpackSign .binary64 b := by
  unfold signOf Sign.ofBitVec Sign.toBitVec
  generalize @unpackSign .binary64 b = s
  revert s
  decide

theorem packComponents_unpacked (b : BitVec 64) :
    packComponents .binary64 (signOf b) (@unpackExponent .binary64 b)
      (@unpackMantissa .binary64 b) = b := by
  have bound : b.toNat < 2 ^ 64 := b.isLt
  apply BitVec.eq_of_toNat_eq
  unfold packComponents
  rw [toBitVec_signOf, BitVec.toNat_append, BitVec.toNat_append,
    ← Nat.shiftLeft_add_eq_or_of_lt (@unpackMantissa .binary64 b).isLt,
    ← Nat.shiftLeft_add_eq_or_of_lt (@unpackExponent .binary64 b).isLt,
    toNat_unpackMantissa, toNat_unpackExponent, toNat_unpackSign]
  simp only [Nat.shiftLeft_eq, signBit, leadingBit]
  omega

/-- A mantissa without the leading bit goes with the least exponent. -/
theorem pack_small (s : Sign) {m : Nat} (small : m < 2 ^ 52) (pos : 0 < m) :
    UnpackedFloat.pack .binary64 (.finite s m (-1074) pos) =
      packComponents .binary64 s 0#11 (BitVec.ofNat 52 m) := by
  have short : ¬ m.log2 + 1 = Format.binary64.mantissaBits := by
    have bits : m.log2 < 52 := (Nat.log2_lt pos.ne').mpr small
    show ¬ m.log2 + 1 = 53
    omega
  unfold UnpackedFloat.pack
  dsimp only
  rw [if_neg (by decide), if_neg short]

/-- A mantissa with the leading bit goes with an exponent of its own. -/
theorem pack_normal (s : Sign) {field : BitVec 11} (finite : field ≠ -1#11) {m : Nat}
    (leading : 2 ^ 52 ≤ m) (small : m < 2 ^ 53) (pos : 0 < m) :
    UnpackedFloat.pack .binary64 (.finite s m (field.toNat - 1075) pos) =
      packComponents .binary64 s field (BitVec.ofNat 52 m) := by
  have full : m.log2 + 1 = Format.binary64.mantissaBits := by
    have upper : m.log2 < 53 := (Nat.log2_lt pos.ne').mpr small
    have lower : 52 ≤ m.log2 := (Nat.le_log2 pos.ne').mpr leading
    show m.log2 + 1 = 53
    omega
  have biased : ((field.toNat : Int) - 1075 + Format.binary64.exponentBias +
      Format.binary64.mantissaBitsWithoutImplicit).toNat = field.toNat := by
    show ((field.toNat : Int) - 1075 + (1023 : Nat) + (52 : Nat)).toNat = field.toNat
    omega
  have below : ¬ 2 ^ Format.binary64.exponentBits ≤ field.toNat + 1 := by
    have bound := field.isLt
    have apart : field.toNat ≠ 2047 := fun top => finite (BitVec.eq_of_toNat_eq top)
    show ¬ 2 ^ 11 ≤ field.toNat + 1
    omega
  unfold UnpackedFloat.pack
  dsimp only
  rw [biased, if_neg below, if_pos full, BitVec.ofNat_toNat, BitVec.setWidth_eq]

/-- A number that was taken apart is put together again as it was. -/
theorem pack_unpack {b : BitVec 64}
    (number : UnpackedFloat.unpack .binary64 b ≠ .notANumber) :
    UnpackedFloat.pack .binary64 (UnpackedFloat.unpack .binary64 b) = b := by
  have whole := packComponents_unpacked b
  have sign : Sign.ofBitVec (@unpackSign .binary64 b) = signOf b := rfl
  have small : (@unpackMantissa .binary64 b).toNat < 2 ^ 52 := (@unpackMantissa .binary64 b).isLt
  unfold UnpackedFloat.unpack at number ⊢
  dsimp only at number ⊢
  rw [sign] at number ⊢
  -- the cases are those of the exponent field, and of an empty mantissa
  split at number
  next infinite =>
    split at number
    next zero =>
      rw [if_pos infinite, if_pos zero]
      rw [infinite, zero] at whole
      exact whole
    next => exact absurd rfl number
  next finite =>
    rw [if_neg finite]
    split at number
    next least =>
      rw [if_pos least]
      rw [least] at whole
      split at number
      next zero =>
        rw [dif_pos zero]
        rw [zero] at whole
        exact whole
      next positive =>
        rw [dif_neg positive]
        simp only [least]
        refine (pack_small _ small _).trans ?_
        rw [BitVec.ofNat_toNat, BitVec.setWidth_eq]
        exact whole
    next normal =>
      rw [if_neg normal]
      have leading : (1#1 ++ @unpackMantissa .binary64 b).toNat =
          2 ^ 52 + (@unpackMantissa .binary64 b).toNat := toNat_leading _
      have rest : BitVec.ofNat 52 (1#1 ++ @unpackMantissa .binary64 b).toNat =
          @unpackMantissa .binary64 b := by
        apply BitVec.eq_of_toNat_eq
        rw [leading, BitVec.toNat_ofNat, Nat.add_mod_left, Nat.mod_eq_of_lt small]
      refine (pack_normal _ finite (by rw [leading]; omega) (by rw [leading]; omega) _).trans ?_
      rw [rest]
      exact whole

/-- Adding a zero does nothing, except that it may change the sign of a zero. -/
theorem unpack_add_zero {x z : Float} {s : Sign} (hz : z.toModel.unpack = .zero s) :
    (x + z).toModel.unpack = x.toModel.unpack ∨
      ∃ t t', x.toModel.unpack = .zero t ∧ (x + z).toModel.unpack = .zero t' := by
  have sum : (x + z).toModel.unpack = UnpackedFloat.unpack .binary64 (UnpackedFloat.pack .binary64
      (UnpackedFloat.add .binary64 x.toModel.unpack z.toModel.unpack)) := rfl
  have back (number : x.toModel.unpack ≠ .notANumber) :
      UnpackedFloat.unpack .binary64 (UnpackedFloat.pack .binary64 x.toModel.unpack) =
        x.toModel.unpack := congrArg _ (pack_unpack number)
  rw [sum, hz]
  cases parts : x.toModel.unpack with
  | notANumber => cases s <;> exact .inl rfl
  | infinity t =>
    rw [parts] at back
    exact .inl (back nofun)
  | finite t m e pos =>
    rw [parts] at back
    exact .inl (back nofun)
  | zero t =>
    refine .inr ⟨t, ?_⟩
    cases t <;> cases s <;> exact ⟨_, rfl, rfl⟩

end Pack

theorem lt_iff_compare (x y : Float) :
    x < y ↔ x.toModel.unpack.compare y.toModel.unpack = some .lt := by
  show decide ((x.toModel.unpack.compare y.toModel.unpack == some .lt) = true) = true ↔ _
  rw [decide_eq_true_iff, beq_iff_eq]

theorem beq_iff_compare (x y : Float) :
    (x == y) = true ↔ x.toModel.unpack.compare y.toModel.unpack = some .eq := by
  show (x.toModel.unpack.compare y.toModel.unpack == some .eq) = true ↔ _
  rw [beq_iff_eq]

section Add

variable {u v : UnpackedFloat}

theorem sign?_unpack {b : BitVec 64} (plus : isMinus (signOf b) = false) :
    sign? (UnpackedFloat.unpack .binary64 b) ≠ some .lt := by
  have plus : isMinus (.ofBitVec (@unpackSign .binary64 b)) = false := plus
  unfold UnpackedFloat.unpack
  dsimp only
  split
  · split
    · simp [sign?, plus]
    · simp [sign?]
  · split
    · split
      · simp [sign?]
      · simp [sign?, plus]
    · simp [sign?, plus]

/-- Putting a number together again does not bring it below zero. -/
theorem sign?_unpack_pack (h : sign? u ≠ some .lt) :
    sign? (UnpackedFloat.unpack .binary64 (UnpackedFloat.pack .binary64 u)) ≠ some .lt := by
  cases u with
  | notANumber => decide
  | zero s => cases s <;> decide
  | infinity s =>
    cases s with
    | negative => exact absurd rfl h
    | positive => decide
  | finite s m e pos =>
    cases s with
    | negative => exact absurd rfl h
    | positive =>
      apply sign?_unpack
      unfold UnpackedFloat.pack packedInfinity
      dsimp only
      split
      · rw [signOf_packComponents, isMinus]
      · split
        · rw [signOf_packComponents, isMinus]
        · rw [signOf_packComponents, isMinus]

theorem sign?_ofBits {w : UInt64} (plus : w.toNat < signBit) :
    sign? (Float.ofBits w).toModel.unpack ≠ some .lt := by
  have clear : isMinus (signOf w.toBitVec) = false := by
    rw [isMinus_signOf, decide_eq_false_iff_not, Nat.not_le]
    exact plus
  exact sign?_unpack_pack (sign?_unpack clear)

/-- A binary fraction without a minus sign gives a double that is not below zero. -/
theorem sign?_toFloat? {b : Binary} {x : Float} (plus : b.negative = false)
    (h : b.toFloat? = some x) : sign? x.toModel.unpack ≠ some .lt := by
  unfold toFloat? at h
  dsimp only at h
  rw [plus, if_neg Bool.false_ne_true, Nat.add_zero] at h
  generalize (b.exponent + 1074).toNat * leadingBit + b.mantissa = bits at h
  split at h
  next small =>
    rw [← Option.some.inj h]
    have below : bits < signBit := Nat.lt_trans small (by decide)
    apply sign?_ofBits
    rw [UInt64.toNat_ofNat']
    exact Nat.lt_of_le_of_lt (Nat.mod_le bits _) below
  next => cases h

theorem sign?_ofInt? {n : Int} {x : Float} (sound : 0 ≤ n) (h : ofInt? n = some x) :
    sign? x.toModel.unpack ≠ some .lt := by
  unfold ofInt? quotient? at h
  split at h
  · rw [← Option.some.inj h]
    decide
  · exact sign?_toFloat? (decide_eq_false (Int.not_lt.mpr sound)) h

theorem sign?_round (spec : Format) (m : Nat) (e : Int) :
    sign? (UnpackedFloat.round spec .positive m e) ≠ some .lt := by
  unfold UnpackedFloat.round roundWithAccuracy
  dsimp only
  split
  · simp [sign?]
  · simp [sign?, isMinus]

theorem sign?_normalize (spec : Format) {m : Int} (h : 0 ≤ m) (e : Int) (s : Sign) :
    sign? (UnpackedFloat.normalize spec m e s) ≠ some .lt := by
  unfold UnpackedFloat.normalize
  split
  next below => exact absurd (Int.compare_eq_lt.mp below) (by omega)
  next => simp [sign?]
  next => exact sign?_round _ _ _

theorem sign?_add (hu : sign? u ≠ some .lt) (hv : sign? v ≠ some .lt) :
    sign? (UnpackedFloat.add .binary64 u v) ≠ some .lt := by
  cases u with
  | notANumber => simp [UnpackedFloat.add, sign?]
  | zero s =>
    cases v with
    | notANumber => simp [UnpackedFloat.add, sign?]
    | zero t => cases s <;> cases t <;> decide
    | infinity t => exact hv
    | finite t _ _ _ => exact hv
  | infinity s =>
    cases v with
    | notANumber => simp [UnpackedFloat.add, sign?]
    | zero t => exact hu
    | finite t _ _ _ => exact hu
    | infinity t =>
      cases s with
      | negative => exact absurd rfl hu
      | positive =>
        cases t with
        | negative => exact absurd rfl hv
        | positive => decide
  | finite s m e _ =>
    cases v with
    | notANumber => simp [UnpackedFloat.add, sign?]
    | zero t => exact hu
    | infinity t => exact hv
    | finite t n d _ =>
      cases s with
      | negative => exact absurd rfl hu
      | positive =>
        cases t with
        | negative => exact absurd rfl hv
        | positive =>
          exact sign?_normalize _ (Int.add_nonneg (Int.natCast_nonneg _) (Int.natCast_nonneg _)) _ _

theorem sign?_float_add {x y : Float} (hx : sign? x.toModel.unpack ≠ some .lt)
    (hy : sign? y.toModel.unpack ≠ some .lt) : sign? (x + y).toModel.unpack ≠ some .lt :=
  sign?_unpack_pack (sign?_add hx hy)

end Add

end Binary

end PictureEvolution
