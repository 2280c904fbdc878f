import PictureEvolution.Proofs.Image.Shape
import PictureEvolution.Proofs.Number.Whole

/-!
# Convolution by its definition

A filter that weights the pixels around a pixel gives at each pixel the weighted sum of the nine
samples that are nearest to the places of the window. Doubles compute this sum exactly: products and
partial sums of bytes with small weights are small integers, and rounding keeps these.
-/

namespace PictureEvolution

namespace Kernel

section Sum

variable {σ : Type} [Add σ] [Mul σ] (kernel : Kernel σ) (ofByte : UInt8 → σ)
  (sample : Nat → Nat → UInt8)

def term (place : Nat × Nat) : σ :=
  kernel.weight place.1 place.2 * ofByte (sample place.1 place.2)

def sumOver (start : σ) (places : List (Nat × Nat)) : σ :=
  places.foldl (fun sum place => sum + kernel.term ofByte sample place) start

theorem sumOver_concat (start : σ) (places : List (Nat × Nat)) (place : Nat × Nat) :
    kernel.sumOver ofByte sample start (places ++ [place]) =
      kernel.sumOver ofByte sample start places + kernel.term ofByte sample place :=
  List.foldl_concat _ _ _ _

end Sum

def real (kernel : Kernel Int) : Kernel Float where
  weight dy dx := Float.ofInt (kernel.weight dy dx)
  offset := Float.ofInt kernel.offset

section Exact

variable (kernel : Kernel Int) (sample : Nat → Nat → UInt8)

def termInt (place : Nat × Nat) : Int := kernel.term (fun b => (b.toNat : Int)) sample place

def sumInt (places : List (Nat × Nat)) : Int :=
  kernel.sumOver (fun b => (b.toNat : Int)) sample 0 places

def termReal (place : Nat × Nat) : Float :=
  kernel.real.term (fun b => Float.ofNat b.toNat) sample place

def sumReal (places : List (Nat × Nat)) : Float :=
  kernel.real.sumOver (fun b => Float.ofNat b.toNat) sample 0.0 places

def massOver (places : List (Nat × Nat)) : Nat :=
  (places.map fun place => (kernel.weight place.1 place.2).natAbs).sum

theorem natAbs_termInt_le (place : Nat × Nat) :
    (kernel.termInt sample place).natAbs ≤ 255 * (kernel.weight place.1 place.2).natAbs := by
  have byte : (sample place.1 place.2).toNat ≤ 255 := Nat.le_of_lt_succ (UInt8.toNat_lt _)
  rw [termInt, term, Int.natAbs_mul, Int.natAbs_natCast, Nat.mul_comm 255]
  exact Nat.mul_le_mul_left _ byte

theorem massOver_concat (places : List (Nat × Nat)) (place : Nat × Nat) :
    kernel.massOver (places ++ [place]) =
      kernel.massOver places + (kernel.weight place.1 place.2).natAbs := by
  simp [massOver]

theorem natAbs_sumInt_le (places : List (Nat × Nat)) :
    (kernel.sumInt sample places).natAbs ≤ 255 * kernel.massOver places := by
  induction places using List.reverseRecOn with
  | nil => exact Nat.zero_le _
  | append_singleton places place ih =>
    have added := kernel.natAbs_termInt_le sample place
    have sum := Int.natAbs_add_le (kernel.sumInt sample places) (kernel.termInt sample place)
    rw [sumInt, sumOver_concat, massOver_concat, Nat.mul_add]
    exact sum.trans (Nat.add_le_add ih added)

theorem isWhole_termReal (place : Nat × Nat)
    (small : 255 * (kernel.weight place.1 place.2).natAbs < 2 ^ 53) :
    Binary.IsWhole (kernel.termReal sample place) (kernel.termInt sample place) := by
  have byte : (sample place.1 place.2).toNat < 2 ^ 8 := UInt8.toNat_lt _
  exact (Binary.IsWhole.ofInt (by omega)).mul (.ofNat (by omega))
    ((kernel.natAbs_termInt_le sample place).trans_lt small)

theorem isWhole_sumReal (places : List (Nat × Nat))
    (small : 255 * kernel.massOver places < 2 ^ 53) :
    Binary.IsWhole (kernel.sumReal sample places) (kernel.sumInt sample places) := by
  induction places using List.reverseRecOn with
  | nil => exact .zero
  | append_singleton places place ih =>
    have bound := (kernel.natAbs_sumInt_le sample (places ++ [place])).trans_lt small
    rw [massOver_concat, Nat.mul_add] at small
    rw [sumInt, sumOver_concat] at bound
    rw [sumReal, sumInt, sumOver_concat, sumOver_concat]
    exact (ih (by omega)).add (kernel.isWhole_termReal sample place (by omega)) bound

/-- A double that is exactly an integer of at most a given magnitude. -/
def Exactly (bound : Nat) (x : Float) (n : Int) : Prop := Binary.Equals x n ∧ n.natAbs ≤ bound

/-- With doubles, a window is weighted and added up exactly: every product, every partial sum and
the sum with the offset is an integer of at most a given magnitude. -/
structure ComputedExactly (bound : Nat) : Prop where
  product {place : Nat × Nat} : place ∈ Image.window →
    Exactly bound (kernel.termReal sample place) (kernel.termInt sample place)
  partialSum {places : List (Nat × Nat)} : places <+: Image.window →
    Exactly bound (kernel.sumReal sample places) (kernel.sumInt sample places)
  total : Exactly bound (kernel.sumReal sample Image.window + kernel.real.offset)
    (kernel.sumInt sample Image.window + kernel.offset)

def mass : Nat := kernel.massOver Image.window

theorem weight_le_mass {place : Nat × Nat} (h : place ∈ Image.window) :
    (kernel.weight place.1 place.2).natAbs ≤ kernel.mass :=
  List.le_sum_of_mem (List.mem_map_of_mem h)

theorem massOver_le_mass {places : List (Nat × Nat)} (h : places <+: Image.window) :
    kernel.massOver places ≤ kernel.mass := by
  obtain ⟨rest, whole⟩ := h
  rw [mass, ← whole, massOver, massOver, List.map_append, List.sum_append]
  exact Nat.le_add_right _ _

theorem natAbs_total_le : (kernel.sumInt sample Image.window + kernel.offset).natAbs ≤
    255 * kernel.mass + kernel.offset.natAbs :=
  (Int.natAbs_add_le _ _).trans (Nat.add_le_add_right (kernel.natAbs_sumInt_le sample _) _)

variable {kernel} {bound : Nat}

theorem isWhole_total (light : 255 * kernel.mass + kernel.offset.natAbs < 2 ^ 53) :
    Binary.IsWhole (kernel.sumReal sample Image.window + kernel.real.offset)
      (kernel.sumInt sample Image.window + kernel.offset) := by
  have weights : kernel.massOver Image.window = kernel.mass := rfl
  exact (kernel.isWhole_sumReal sample _ (by omega)).add (.ofInt (by omega))
    ((kernel.natAbs_total_le sample).trans_lt light)

/-- A kernel of small weights is computed exactly. -/
theorem computedExactly (light : 255 * kernel.mass + kernel.offset.natAbs ≤ bound)
    (small : bound < 2 ^ 53) : kernel.ComputedExactly sample bound where
  product {place} h := by
    have weight := kernel.weight_le_mass h
    have size := kernel.natAbs_termInt_le sample place
    exact ⟨(kernel.isWhole_termReal sample place (by omega)).equals, by omega⟩
  partialSum {places} h := by
    have weights := kernel.massOver_le_mass h
    have size := kernel.natAbs_sumInt_le sample places
    exact ⟨(kernel.isWhole_sumReal sample places (by omega)).equals, by omega⟩
  total := ⟨(isWhole_total sample (by omega)).equals, (kernel.natAbs_total_le sample).trans light⟩

end Exact

end Kernel

namespace Image

def nearest (img : Image) (y x : Int) (c : Nat) : UInt8 :=
  img.get (max 0 (min y (img.height - 1))).toNat (max 0 (min x (img.width - 1))).toNat c

def around (img : Image) (y x c dy dx : Nat) : UInt8 :=
  img.nearest (y + dy - 1) (x + dx - 1) c

def weighted (kernel : Kernel Int) (img : Image) (y x c : Nat) : Int :=
  ∑ dy ∈ Finset.range 3, ∑ dx ∈ Finset.range 3,
    kernel.weight dy dx * (img.nearest (y + dy - 1) (x + dx - 1) c).toNat

variable {img : Image} {y x c : Nat}

theorem mem_window {place : Nat × Nat} : place ∈ window ↔ place.1 < 3 ∧ place.2 < 3 := by
  obtain ⟨dy, dx⟩ := place
  simp [window]

/-- A frame of one pixel is enough for the window. -/
theorem get_frame (hy : y < img.height) (hx : x < img.width) (hc : c < img.layout.samples)
    {place : Nat × Nat} (h : place ∈ window) :
    img.frame.get (y + place.1) (x + place.2) c = img.around y x c place.1 place.2 := by
  obtain ⟨low, left⟩ := mem_window.mp h
  have row : min (y + place.1 - 1) (img.height - 1) =
      (max 0 (min ((y : Int) + place.1 - 1) (img.height - 1))).toNat := by omega
  have column : min (x + place.2 - 1) (img.width - 1) =
      (max 0 (min ((x : Int) + place.2 - 1) (img.width - 1))).toNat := by omega
  rw [frame, get_ofFn (by omega) (by omega) hc, row, column]
  rfl

theorem convolveWith?_eq {σ : Type} [Add σ] [Mul σ] (start : σ) (ofByte : UInt8 → σ)
    (toByte : σ → UInt8) (kernel : Kernel σ) (pixels : img.isEmpty = false) :
    convolveWith? start ofByte toByte kernel img =
      some (ofFn img.height img.width img.layout fun y x c =>
        toByte (kernel.sumOver ofByte (img.around y x c) start window + kernel.offset)) := by
  unfold convolveWith?
  rw [pixels, if_neg Bool.false_ne_true]
  refine congrArg some (ofFn_congr fun y hy x hx c hc => ?_)
  refine congrArg (fun sum => toByte (sum + kernel.offset)) ?_
  refine List.foldl_ext _ _ start fun sum place h => ?_
  exact congrArg (fun sample => sum + kernel.weight place.1 place.2 * ofByte sample)
    (get_frame hy hx hc h)

theorem sumInt_window (kernel : Kernel Int) :
    kernel.sumInt (img.around y x c) window = img.weighted kernel y x c := by
  have places : window =
      [(0, 0), (0, 1), (0, 2), (1, 0), (1, 1), (1, 2), (2, 0), (2, 1), (2, 2)] := rfl
  simp only [weighted, Finset.sum_range_succ, Finset.sum_range_zero, Int.zero_add]
  rw [places]
  simp only [Kernel.sumInt, Kernel.sumOver, Kernel.term, List.foldl_cons, List.foldl_nil, around,
    Int.zero_add]
  ring

theorem toNat_clip (n : Int) : ((clip n).toNat : Int) = max 0 (min 255 n) := by
  unfold clip
  split
  · show (0 : Int) = _
    omega
  · split
    · show (255 : Int) = _
      omega
    · rw [Nat.toUInt8, UInt8.toNat_ofNat']
      omega

theorem clipReal_of_equals {r : Float} {n : Int} (h : Binary.Equals r n) : clipReal r = clip n := by
  obtain ⟨b, some, equal⟩ := h
  unfold clipReal
  rw [some]
  exact congrArg clip (Binary.round_of_compareInt equal)

/-- Doubles give the same image as integers. -/
theorem convolveReal?_eq {kernel : Kernel Int}
    (light : 255 * kernel.mass + kernel.offset.natAbs < 2 ^ 53) (img : Image) :
    img.convolveReal? kernel.real = img.convolve? kernel := by
  by_cases pixels : img.isEmpty = true
  · unfold convolveReal? convolve? convolveWith?
    rw [if_pos pixels, if_pos pixels]
  · rw [Bool.not_eq_true] at pixels
    unfold convolveReal? convolve?
    rw [convolveWith?_eq _ _ _ _ pixels, convolveWith?_eq _ _ _ _ pixels]
    refine congrArg some (congrArg _ (funext fun y => funext fun x => funext fun c => ?_))
    exact clipReal_of_equals (Kernel.isWhole_total (img.around y x c) light).equals

end Image

namespace Filter

open Image

def kernel? : Filter → Option (Kernel Int)
  | laplace => some .laplace
  | emboss => some .emboss
  | edge => some .edge
  | _ => none

variable {ω : Type} [Source ω] {f : Filter} {kernel : Kernel Int} {img : Image}

theorem apply_of_kernel? (h : f.kernel? = some kernel) (img : Image) :
    (f.apply img : Task ω Image) = .ofOption .noPixels (img.convolve? kernel) := by
  cases f <;> cases h <;> rfl

theorem light_of_kernel? (h : f.kernel? = some kernel) :
    255 * kernel.mass + kernel.offset.natAbs ≤ 2 ^ 12 := by
  cases f <;> cases h <;> decide

/-- The filters that weight pixels give at each pixel the weighted sum around it, within a byte.
Computed with doubles it comes to the same image, without any rounding. -/
theorem clipped_weighted_sum (h : f.kernel? = some kernel) (height : 0 < img.height)
    (width : 0 < img.width) (w : ω) :
    ∃ result, (f.apply img : Task ω Image).Yields w result w ∧ result.SameShape img ∧
      img.convolveReal? kernel.real = some result ∧
      ∀ y < img.height, ∀ x < img.width, ∀ c < img.layout.samples,
        ((result.get y x c).toNat : Int) =
          max 0 (min 255 (img.weighted kernel y x c + kernel.offset)) ∧
        kernel.ComputedExactly (img.around y x c) (2 ^ 12) := by
  have light := light_of_kernel? h
  have pixels := isEmpty_eq_false height width
  have computed := convolveWith?_eq 0 (fun b => (b.toNat : Int)) clip kernel pixels
  refine ⟨_, ?_, sameShape_ofFn img _, (convolveReal?_eq (by omega) img).trans computed,
    fun y hy x hx c hc => ⟨?_, Kernel.computedExactly _ light (by decide)⟩⟩
  · rw [apply_of_kernel? h, convolve?, computed]
    exact Task.yields_pure.mpr ⟨rfl, rfl⟩
  · rw [get_ofFn hy hx hc, toNat_clip, ← sumInt_window]
    rfl

/-- Two pixels in a row: the window reaches beyond the image on all sides. -/
theorem emboss_pair :
    let pair := Image.ofFn 1 2 .gray fun _ x _ => 10 * x.toUInt8 + 10
    emboss.kernel? = some .emboss ∧ 0 < pair.height ∧ 0 < pair.width ∧
      ∃ result, (emboss.apply pair : Task Script Image).Yields ⟨[]⟩ result ⟨[]⟩ ∧
        pair.convolveReal? Kernel.emboss.real = some result ∧
        result.get 0 0 0 = 168 ∧ result.get 0 1 0 = 178 := by
  intro pair
  have height : 0 < pair.height := by decide
  have width : 0 < pair.width := by decide
  obtain ⟨result, yields, -, doubles, values⟩ :=
    clipped_weighted_sum (f := emboss) rfl height width (⟨[]⟩ : Script)
  have value {x : Nat} (hx : x < 2) {b : UInt8} (h : max 0 (min 255
      (pair.weighted Kernel.emboss 0 x 0 + Kernel.emboss.offset)) = (b.toNat : Int)) :
      result.get 0 x 0 = b := by
    have byte := (values 0 (by decide) x hx 0 (by decide)).1.trans h
    exact UInt8.toNat_inj.mp (Int.natCast_inj.mp byte)
  exact ⟨rfl, height, width, result, yields, doubles,
    value (by decide) (by decide), value (by decide) (by decide)⟩

end Filter

end PictureEvolution
