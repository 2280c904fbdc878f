import PictureEvolution.Proofs.Number.Parts
import PictureEvolution.Score

/-!
# The least score

A score that is not a number compares with nothing, and all others compare with each other. Whoever
looks for the least of some scores finds a zero among them, if none is below zero, unless the search
begins with a score that is not a number: nothing takes over from that one. Integers that are
doubles compare with each other as they do when a zero was added to one of them.
-/

namespace PictureEvolution

theorem foldl_min_least {α : Type} [LinearOrder α] (first : α) (rest : List α) :
    rest.foldl min first ∈ first :: rest ∧ ∀ a ∈ first :: rest, rest.foldl min first ≤ a :=
  List.min?_eq_some_iff.mp List.min?_cons'

namespace Score

open Binary

variable {a b z : Score}

section Compare

theorem compare?_int_real (n : Int) (x : Float) :
    compare? (int n) (real x) = (compare? (real x) (int n)).map Ordering.swap := by
  rw [compare?, compare?, Option.map_map]
  cases compareInt? n x with
  | none => rfl
  | some o => cases o <;> rfl

theorem compare?_real (x y : Float) :
    compare? (real x) (real y) = x.toModel.unpack.compare y.toModel.unpack := by
  have back := compare_swap y.toModel.unpack x.toModel.unpack
  unfold compare?
  simp only [lt_iff_compare, beq_iff_compare, back]
  cases x.toModel.unpack.compare y.toModel.unpack with
  | none => rfl
  | some o => cases o <;> rfl

theorem compare?_swap (a b : Score) : a.compare? b = (b.compare? a).map Ordering.swap := by
  cases a with
  | int m =>
    cases b with
    | int n => simp [compare?, ← Int.compare_swap m n]
    | real y => exact compare?_int_real m y
  | real x =>
    cases b with
    | int n =>
      rw [compare?_int_real, Option.map_map]
      cases compare? (real x) (int n) with
      | none => rfl
      | some o => cases o <;> rfl
    | real y =>
      rw [compare?_real, compare?_real]
      exact compare_swap _ _

theorem compareInt?_zero (x : Float) :
    compareInt? 0 x = (sign? x.toModel.unpack).map Ordering.swap := by
  have nan : x.isNaN = x.toModel.unpack.isNaN := rfl
  have zero : (0 : Float).toModel.unpack = .zero .positive := rfl
  unfold compareInt?
  simp only [ofFloat?_eq, nan, lt_iff_compare, zero, compare_zero]
  cases x.toModel.unpack with
  | notANumber => rfl
  | infinity s => cases s <;> rfl
  | zero s =>
    simp only [ofParts?, sign?, Option.map_some]
    rw [compareInt_of_zero rfl]
    rfl
  | finite s m e pos =>
    simp only [ofParts?, sign?, Option.map_some]
    rw [compareInt_zero_of_pos pos]

theorem compare?_real_zero (x : Float) : compare? (real x) (int 0) = sign? x.toModel.unpack := by
  rw [compare?, compareInt?_zero, Option.map_map]
  cases sign? x.toModel.unpack with
  | none => rfl
  | some o => cases o <;> rfl

/-- The double is a zero, of either sign. -/
theorem unpack_of_isZero {x : Float} (h : (real x).isZero = true) :
    ∃ s, x.toModel.unpack = .zero s := by
  have h : compare? (real x) (int 0) = some .eq := beq_iff_eq.mp h
  rw [compare?_real_zero] at h
  cases unpacked : x.toModel.unpack with
  | zero s => exact ⟨s, rfl⟩
  | notANumber => simp [sign?, unpacked] at h
  | infinity s => cases s <;> simp [sign?, unpacked, isMinus] at h
  | finite s m e pos => cases s <;> simp [sign?, unpacked, isMinus] at h

/-- Any zero compares like the integer. -/
theorem compare?_of_isZero (hz : z.isZero = true) (a : Score) :
    a.compare? z = a.compare? (int 0) := by
  cases z with
  | int n =>
    have same : compare? (int n) (int 0) = some .eq := beq_iff_eq.mp hz
    have zero : n = 0 := Int.compare_eq_eq.mp (Option.some.inj same)
    rw [zero]
  | real y =>
    obtain ⟨s, unpacked⟩ := unpack_of_isZero hz
    cases a with
    | real x => rw [compare?_real, compare?_real_zero, unpacked, compare_zero]
    | int n =>
      simp only [compare?, compareInt?, ofFloat?_eq, unpacked, ofParts?]
      rw [compareInt_of_zero rfl, Int.compare_swap]

end Compare

section Integer

/-- Not above the other score; both are numbers. -/
def AtMost (a b : Score) : Prop := a.le b = true

instance (a b : Score) : Decidable (a.AtMost b) := inferInstanceAs (Decidable (a.le b = true))

@[simp] theorem int_atMost_int {m n : Int} : (int m).AtMost (int n) ↔ m ≤ n := by
  rw [AtMost, le, compare?, Option.any_some, Int.isLE_compare]

@[simp] theorem int_lt_int (m n : Int) : (int m).lt (int n) = decide (m < n) := by
  rw [lt, compare?, Bool.eq_iff_iff, beq_iff_eq, Option.some.injEq, Int.compare_eq_lt,
    decide_eq_true_iff]

/-- An integer that equals the double nearest to it. -/
def IsDouble : Score → Prop
  | int n => ∃ x ∈ Binary.ofInt? n, compareInt? n x = some .eq
  | real _ => False

instance : DecidablePred IsDouble
  | int n => inferInstanceAs (Decidable (∃ x ∈ Binary.ofInt? n, compareInt? n x = some .eq))
  | real _ => inferInstanceAs (Decidable False)

theorem least_map_int (first : Int) (rest : List Int) :
    least (int first) (rest.map int) = int (rest.foldl min first) := by
  unfold least
  induction rest generalizing first with
  | nil => rfl
  | cons n rest ih =>
    rw [List.map_cons, leastOn, id, id, int_lt_int, List.foldl_cons, ← ih]
    by_cases less : n < first
    · rw [if_pos (decide_eq_true less), Int.min_eq_right (Int.le_of_lt less)]
    · rw [if_neg (by simpa using less), Int.min_eq_left (Int.not_lt.mp less)]

theorem exists_map_int {scores : List Score} (ints : ∀ a ∈ scores, ∃ n, a = int n) :
    ∃ ns : List Int, scores = ns.map int := by
  induction scores with
  | nil => exact ⟨[], rfl⟩
  | cons a rest ih =>
    obtain ⟨n, rfl⟩ := ints a List.mem_cons_self
    obtain ⟨ns, rfl⟩ := ih fun b hb => ints b (List.mem_cons_of_mem _ hb)
    exact ⟨n :: ns, rfl⟩

theorem compareInt?_of_eq {n : Int} {x : Float} (h : compareInt? n x = some .eq) (m : Int) :
    compareInt? m x = some (compare m n) := by
  unfold compareInt? at h ⊢
  split at h
  next b parts =>
    have same : b.compareInt n = .eq := by
      have swapped := congrArg Ordering.swap (Option.some.inj h)
      rwa [Ordering.swap_swap] at swapped
    rw [compareInt_of_eq same m, Int.compare_swap]
  next =>
    exfalso
    split at h
    · cases h
    · split at h <;> cases h

/-- Adding a zero does not change how a double compares with integers. -/
theorem compareInt?_add_zero {x y : Float} (hy : (real y).isZero = true) (n : Int) :
    compareInt? n (x + y) = compareInt? n x := by
  obtain ⟨s, zero⟩ := unpack_of_isZero hy
  have nan (x : Float) : x.isNaN = x.toModel.unpack.isNaN := rfl
  unfold compareInt?
  simp only [ofFloat?_eq, nan, lt_iff_compare]
  rcases unpack_add_zero (x := x) zero with same | ⟨t, t', before, after⟩
  · rw [same]
  · rw [before, after]
    simp only [ofParts?]
    rw [compareInt_of_zero rfl, compareInt_of_zero rfl]

/-- With a zero added to it, an integer that is a double still bounds the integers it bounds. -/
theorem IsDouble.atMost_add_zero {low : Int} (h : (int low).IsDouble) {y : Float}
    (hy : (real y).isZero = true) :
    ∃ x, (int low).toFloat = .ok x ∧ ∀ n, (int n).AtMost (real (x + y)) ↔ n ≤ low := by
  obtain ⟨x, nearest, equal⟩ := h
  refine ⟨x, by rw [toFloat, Option.mem_def.mp nearest], fun n => ?_⟩
  rw [← int_atMost_int, AtMost, AtMost, le, le, compare?, compare?, compareInt?_add_zero hy,
    compareInt?_of_eq equal]

/-- A zero is read as a double that is zero. -/
theorem toFloat_of_isZero (hz : z.isZero = true) :
    ∃ y, z.toFloat = .ok y ∧ (real y).isZero = true := by
  cases z with
  | int n =>
    have same : compare? (int n) (int 0) = some .eq := beq_iff_eq.mp hz
    have zero : n = 0 := Int.compare_eq_eq.mp (Option.some.inj same)
    refine ⟨0.0, by rw [zero]; rfl, ?_⟩
    rw [isZero, compare?_real_zero]
    rfl
  | real y => exact ⟨y, rfl, hz⟩

end Integer

section NaN

def isNaN : Score → Bool
  | int _ => false
  | real x => x.isNaN

theorem isNaN_iff : a.isNaN = true ↔ a.compare? (int 0) = none := by
  cases a with
  | int n => simp [isNaN, compare?]
  | real x =>
    rw [compare?_real_zero]
    show x.toModel.unpack.isNaN = true ↔ _
    cases x.toModel.unpack <;> simp [Float.Model.UnpackedFloat.isNaN, sign?]

theorem compare?_of_isNaN (h : b.isNaN = true) (a : Score) : a.compare? b = none := by
  cases b with
  | int n => cases h
  | real y =>
    have nan : y.toModel.unpack = .notANumber := by
      have h : y.toModel.unpack.isNaN = true := h
      cases unpacked : y.toModel.unpack <;>
        simp [unpacked, Float.Model.UnpackedFloat.isNaN] at h
      rfl
    cases a with
    | int n =>
      have h : y.isNaN = true := h
      rw [compare?, compareInt?, ofFloat?_eq, nan]
      exact if_pos h
    | real x =>
      rw [compare?_real, compare_swap, nan]
      rfl

theorem isNaN_of_lt (h : a.lt b = true) : a.isNaN = false := by
  have h : a.compare? b = some .lt := beq_iff_eq.mp h
  rw [Bool.eq_false_iff]
  intro nan
  rw [compare?_swap, compare?_of_isNaN nan] at h
  cases h

theorem lt_of_isNaN (h : b.isNaN = true) (a : Score) : a.lt b = false := by
  rw [lt, compare?_of_isNaN h]
  rfl

end NaN

section Zero

/-- A number below zero; not-a-number is not. -/
def isNegative (a : Score) : Bool := a.lt (int 0)

theorem lt_of_isZero (hz : z.isZero = true) (a : Score) : a.lt z = a.isNegative := by
  rw [isNegative, lt, lt, compare?_of_isZero hz]

theorem isZero_lt (hz : z.isZero = true) (number : a.isNaN = false)
    (sound : a.isNegative = false) (positive : a.isZero = false) : z.lt a = true := by
  rw [lt, compare?_swap, compare?_of_isZero hz]
  cases order : a.compare? (int 0) with
  | none => rw [isNaN_iff.mpr order] at number; cases number
  | some o =>
    cases o with
    | lt => rw [isNegative, lt, order] at sound; cases sound
    | eq => rw [isZero, order] at positive; cases positive
    | gt => rfl

theorem isNaN_of_isZero (hz : z.isZero = true) : z.isNaN = false := by
  rw [Bool.eq_false_iff]
  intro nan
  rw [isZero, isNaN_iff.mp nan] at hz
  cases hz

end Zero

section Least

variable {α : Type} {f : α → Score}

theorem leastOn_of_isNaN {first : α} (h : (f first).isNaN = true) (rest : List α) :
    leastOn f first rest = first := by
  induction rest with
  | nil => rfl
  | cons b rest ih =>
    rw [leastOn, lt_of_isNaN h, if_neg Bool.false_ne_true]
    exact ih

theorem leastOn_of_isZero {first : α} {rest : List α} (hz : (f first).isZero = true)
    (sound : ∀ b ∈ rest, (f b).isNegative = false) : leastOn f first rest = first := by
  induction rest with
  | nil => rfl
  | cons b rest ih =>
    have stays : (f b).lt (f first) = false :=
      (lt_of_isZero hz (f b)).trans (sound b List.mem_cons_self)
    rw [leastOn, stays, if_neg Bool.false_ne_true]
    exact ih fun c hc => sound c (List.mem_cons_of_mem b hc)

/-- A zero is found, wherever it stands, when the search begins with a number. -/
theorem leastOn_isZero {first : α} {rest : List α} (number : (f first).isNaN = false)
    (sound : ∀ b ∈ first :: rest, (f b).isNegative = false)
    (zero : ∃ b ∈ first :: rest, (f b).isZero = true) :
    (f (leastOn f first rest)).isZero = true := by
  -- the search keeps a number as its least so far, and a zero among that and what is left
  induction rest generalizing first with
  | nil =>
    obtain ⟨b, hb, hz⟩ := zero
    rwa [List.mem_singleton.mp hb] at hz
  | cons b rest ih =>
    by_cases hz : (f first).isZero = true
    · rw [leastOn_of_isZero hz fun c hc => sound c (List.mem_cons_of_mem first hc)]
      exact hz
    · rw [Bool.not_eq_true] at hz
      have soundFirst := sound first List.mem_cons_self
      have soundRest := fun c hc => sound c (List.mem_cons_of_mem first hc)
      obtain ⟨c, hc, zero⟩ := zero
      have hc : c ∈ b :: rest := by
        rcases List.mem_cons.mp hc with rfl | hc
        · rw [hz] at zero
          cases zero
        · exact hc
      rw [leastOn]
      split
      next less => exact ih (isNaN_of_lt less) soundRest ⟨c, hc, zero⟩
      next stays =>
        have other : c ∈ rest := by
          rcases List.mem_cons.mp hc with rfl | hc
          · exact absurd (isZero_lt zero number soundFirst hz) stays
          · exact hc
        refine ih number (fun d hd => ?_) ⟨c, List.mem_cons_of_mem first other, zero⟩
        rcases List.mem_cons.mp hd with rfl | hd
        · exact soundFirst
        · exact soundRest d (List.mem_cons_of_mem b hd)

/-- The least of some scores of which one is zero and none is below zero is zero, except when the
search begins with a score that is not a number. -/
theorem leastOn_isZero_iff {first : α} {rest : List α}
    (sound : ∀ b ∈ first :: rest, (f b).isNegative = false)
    (zero : ∃ b ∈ first :: rest, (f b).isZero = true) :
    (f (leastOn f first rest)).isZero = true ↔ (f first).isNaN = false := by
  constructor
  · intro found
    rw [Bool.eq_false_iff]
    intro nan
    rw [leastOn_of_isNaN nan] at found
    rw [isNaN_of_isZero found] at nan
    cases nan
  · exact fun number => leastOn_isZero number sound zero

end Least

section Sum

theorem isNegative_real (x : Float) :
    (real x).isNegative = false ↔ sign? x.toModel.unpack ≠ some .lt := by
  rw [isNegative, lt, compare?_real_zero, beq_eq_false_iff_ne]

theorem isNegative_int (n : Int) : (int n).isNegative = false ↔ 0 ≤ n := by
  rw [isNegative, lt, compare?, beq_eq_false_iff_ne, Ne, Option.some.injEq, Int.compare_eq_lt,
    Int.not_lt]

theorem sign?_toFloat {x : Float} (sound : a.isNegative = false) (h : a.toFloat = .ok x) :
    sign? x.toModel.unpack ≠ some .lt := by
  cases a with
  | real y =>
    cases h
    exact (isNegative_real _).mp sound
  | int n =>
    unfold toFloat at h
    dsimp only at h
    cases converted : Binary.ofInt? n with
    | none => rw [converted] at h; cases h
    | some y =>
      rw [converted] at h
      cases h
      exact sign?_ofInt? ((isNegative_int n).mp sound) converted

theorem add_cases (a b : Score) :
    (∃ m n, a = int m ∧ b = int n ∧ a.add b = .ok (int (m + n))) ∨
      a.add b = a.toFloat.bind fun x => b.toFloat.bind fun y => .ok (real (x + y)) := by
  cases a with
  | real x => exact .inr rfl
  | int m =>
    cases b with
    | real y => exact .inr rfl
    | int n => exact .inl ⟨m, n, rfl, rfl, rfl⟩

theorem isNegative_add {c : Score} (ha : a.isNegative = false) (hb : b.isNegative = false)
    (h : a.add b = .ok c) : c.isNegative = false := by
  rcases add_cases a b with ⟨m, n, rfl, rfl, added⟩ | added
  · rw [added] at h
    cases h
    rw [isNegative_int] at ha hb ⊢
    omega
  · rw [added] at h
    cases hx : a.toFloat with
    | error fault => rw [hx] at h; cases h
    | ok x =>
      cases hy : b.toFloat with
      | error fault => rw [hx, hy] at h; cases h
      | ok y =>
        rw [hx, hy] at h
        cases h
        rw [isNegative_real]
        exact sign?_float_add (sign?_toFloat ha hx) (sign?_toFloat hb hy)

theorem isNegative_foldlM {scores : List Score} {start total : Score}
    (sound : ∀ a ∈ scores, a.isNegative = false) (begin : start.isNegative = false)
    (h : scores.foldlM add start = .ok total) : total.isNegative = false := by
  induction scores generalizing start with
  | nil =>
    cases h
    exact begin
  | cons a rest ih =>
    rw [List.foldlM_cons] at h
    cases added : start.add a with
    | error fault => rw [added] at h; cases h
    | ok next =>
      rw [added] at h
      refine ih (fun b hb => sound b (List.mem_cons_of_mem a hb)) ?_ h
      exact isNegative_add begin (sound a List.mem_cons_self) added

/-- A sum is below zero only if one of its terms is. -/
theorem isNegative_sum {scores : List Score} {total : Score}
    (sound : ∀ a ∈ scores, a.isNegative = false) (h : sum scores = .ok total) :
    total.isNegative = false :=
  isNegative_foldlM sound rfl h

end Sum

end Score

end PictureEvolution
