import Mathlib.Algebra.BigOperators.Intervals
import PictureEvolution.Proofs.Image.Convolution
import PictureEvolution.Proofs.Image.Splitting

/-!
# Symmetries of the filters

A filter that weights the pixels around each pixel inherits the symmetries of its kernel: a kernel
that is the same with rows and columns exchanged treats a transposed image alike, and one whose rows
can be reversed treats a reversed image alike. Both hold up to the border, since the outermost
pixels are repeated there. A kernel whose weights add up to nothing sees differences of samples
only.
-/

namespace PictureEvolution

namespace Kernel

def Symmetric (kernel : Kernel Int) : Prop :=
  ∀ dy < 3, ∀ dx < 3, kernel.weight dx dy = kernel.weight dy dx

/-- The rows of the weights can be reversed. -/
def Upright (kernel : Kernel Int) : Prop :=
  ∀ dy < 3, ∀ dx < 3, kernel.weight (2 - dy) dx = kernel.weight dy dx

/-- The weights add up to nothing, and nothing is added at the end. -/
def Balanced (kernel : Kernel Int) : Prop :=
  ∑ dy ∈ Finset.range 3, ∑ dx ∈ Finset.range 3, kernel.weight dy dx = 0 ∧ kernel.offset = 0

/-- All directions weigh alike, and only differences count. -/
structure Isotropic (kernel : Kernel Int) : Prop where
  symmetric : kernel.Symmetric
  upright : kernel.Upright
  balanced : kernel.Balanced

section Decidable

variable (kernel : Kernel Int)

instance : Decidable kernel.Symmetric :=
  inferInstanceAs (Decidable (∀ dy < 3, ∀ dx < 3, kernel.weight dx dy = kernel.weight dy dx))

instance : Decidable kernel.Upright :=
  inferInstanceAs (Decidable (∀ dy < 3, ∀ dx < 3,
    kernel.weight (2 - dy) dx = kernel.weight dy dx))

instance : Decidable kernel.Balanced :=
  inferInstanceAs (Decidable (_ = _ ∧ kernel.offset = 0))

end Decidable

theorem symmetric_emboss : emboss.Symmetric := by decide

theorem isotropic_laplace : laplace.Isotropic := ⟨by decide, by decide, by decide⟩

theorem isotropic_edge : edge.Isotropic := ⟨by decide, by decide, by decide⟩

end Kernel

namespace Image

variable {kernel : Kernel Int} {img other : Image} {c : Nat}

/-! ### Reversing and turning -/

def flip (img : Image) : Image :=
  ofFn img.height img.width img.layout fun y x c => img.get (img.height - 1 - y) x c

theorem get_flip (img : Image) {y x : Nat} (hy : y < img.height) (hx : x < img.width)
    (hc : c < img.layout.samples) : img.flip.get y x c = img.get (img.height - 1 - y) x c :=
  get_ofFn hy hx hc

/-- A turn is an exchange of rows and columns followed by a reversal of the rows. -/
theorem rotate_eq_flip (img : Image) : img.rotate = img.transpose.flip := by
  apply ofFn_congr
  intro y hy x hx c hc
  have reversed : img.width - 1 - y < img.width := by omega
  exact (get_transpose img reversed hx hc).symm

/-! ### Weighted sums under symmetries -/

theorem nearest_transpose (height : 0 < img.height) (width : 0 < img.width)
    (hc : c < img.layout.samples) (y x : Int) :
    img.transpose.nearest y x c = img.nearest x y c := by
  unfold nearest
  simp only [height_transpose, width_transpose]
  exact get_transpose img (by omega) (by omega) hc

/-- Beyond the border as well as inside, the nearest sample of the reversed image is the one at the
reversed row. -/
theorem nearest_flip (height : 0 < img.height) (width : 0 < img.width)
    (hc : c < img.layout.samples) (y x : Int) :
    img.flip.nearest y x c = img.nearest (img.height - 1 - y) x c := by
  have row : img.height - 1 - (max 0 (min y (img.height - 1))).toNat =
      (max 0 (min ((img.height : Int) - 1 - y) (img.height - 1))).toNat := by omega
  have flipped := get_flip img (y := (max 0 (min y (img.height - 1))).toNat)
    (x := (max 0 (min x (img.width - 1))).toNat) (by omega) (by omega) hc
  rw [row] at flipped
  exact flipped

theorem weighted_transpose (symmetric : kernel.Symmetric) (height : 0 < img.height)
    (width : 0 < img.width) (hc : c < img.layout.samples) (y x : Nat) :
    img.transpose.weighted kernel y x c = img.weighted kernel x y c := by
  unfold weighted
  rw [Finset.sum_comm]
  apply Finset.sum_congr rfl
  intro dx hdx
  apply Finset.sum_congr rfl
  intro dy hdy
  rw [symmetric dx (Finset.mem_range.mp hdx) dy (Finset.mem_range.mp hdy),
    nearest_transpose height width hc]

theorem weighted_flip (upright : kernel.Upright) (width : 0 < img.width)
    (hc : c < img.layout.samples) {y : Nat} (hy : y < img.height) (x : Nat) :
    img.flip.weighted kernel y x c = img.weighted kernel (img.height - 1 - y) x c := by
  unfold weighted
  rw [← Finset.sum_range_reflect]
  apply Finset.sum_congr rfl
  intro dy hdy
  have low : dy < 3 := Finset.mem_range.mp hdy
  have row : (img.height : Int) - 1 - (y + (3 - 1 - dy : Nat) - 1) =
      (img.height - 1 - y : Nat) + dy - 1 := by omega
  apply Finset.sum_congr rfl
  intro dx hdx
  rw [upright dy low dx (Finset.mem_range.mp hdx), nearest_flip (by omega) width hc, row]

/-! ### Brightness and contrast -/

/-- One image is another one with all samples multiplied by a number, and a number added. -/
structure Adjusted (contrast brightness : Int) (img other : Image) : Prop where
  shape : other.SameShape img
  get : ∀ y < img.height, ∀ x < img.width, ∀ c < img.layout.samples,
    ((other.get y x c).toNat : Int) = contrast * (img.get y x c).toNat + brightness

theorem adjusted_invert (img : Image) : Adjusted (-1) 255 img img.invert where
  shape := sameShape_ofFn img _
  get y hy x hx c hc := by
    have byte := UInt8.toNat_lt (img.get y x c)
    have difference : (255 - img.get y x c).toNat = 255 - (img.get y x c).toNat :=
      UInt8.toNat_sub_of_le 255 _ (UInt8.le_iff_toNat_le.mpr (Nat.le_of_lt_succ byte))
    rw [get_invert img hy hx hc, difference]
    omega

/-- A balanced kernel does not see the brightness. -/
theorem weighted_adjusted (balanced : kernel.Balanced) {contrast brightness : Int}
    (adjusted : Adjusted contrast brightness img other) (height : 0 < img.height)
    (width : 0 < img.width) (hc : c < img.layout.samples) (y x : Nat) :
    other.weighted kernel y x c = contrast * img.weighted kernel y x c := by
  obtain ⟨sameHeight, sameWidth, -⟩ := adjusted.shape
  have sample (y x : Int) : ((other.nearest y x c).toNat : Int) =
      contrast * (img.nearest y x c).toNat + brightness := by
    unfold nearest
    rw [sameHeight, sameWidth]
    exact adjusted.get _ (by omega) _ (by omega) c hc
  calc other.weighted kernel y x c
      = ∑ dy ∈ Finset.range 3, ∑ dx ∈ Finset.range 3,
          (contrast * (kernel.weight dy dx * (img.nearest (y + dy - 1) (x + dx - 1) c).toNat) +
            brightness * kernel.weight dy dx) := by
        unfold weighted
        apply Finset.sum_congr rfl
        intro dy _
        apply Finset.sum_congr rfl
        intro dx _
        rw [sample]
        ring
    _ = contrast * img.weighted kernel y x c + brightness *
          ∑ dy ∈ Finset.range 3, ∑ dx ∈ Finset.range 3, kernel.weight dy dx := by
        simp only [Finset.sum_add_distrib, ← Finset.mul_sum, weighted]
    _ = contrast * img.weighted kernel y x c := by
        rw [balanced.1, mul_zero, add_zero]

/-! ### Images of weighted sums -/

def convolved (kernel : Kernel Int) (img : Image) : Image :=
  ofFn img.height img.width img.layout fun y x c =>
    clip (img.weighted kernel y x c + kernel.offset)

@[simp] theorem height_convolved (kernel : Kernel Int) (img : Image) :
    (img.convolved kernel).height = img.height := rfl

theorem get_convolved {y x : Nat} (hy : y < img.height) (hx : x < img.width)
    (hc : c < img.layout.samples) :
    (img.convolved kernel).get y x c = clip (img.weighted kernel y x c + kernel.offset) :=
  get_ofFn hy hx hc

theorem convolve?_eq_convolved (height : 0 < img.height) (width : 0 < img.width) :
    img.convolve? kernel = some (img.convolved kernel) := by
  unfold convolve? convolved
  rw [convolveWith?_eq _ _ _ _ (isEmpty_eq_false height width)]
  simp only [← sumInt_window]
  rfl

theorem convolved_transpose (symmetric : kernel.Symmetric) (height : 0 < img.height)
    (width : 0 < img.width) :
    img.transpose.convolved kernel = (img.convolved kernel).transpose := by
  apply ofFn_congr
  intro y hy x hx c hc
  rw [get_convolved hx hy hc, weighted_transpose symmetric height width hc]

theorem convolved_flip (upright : kernel.Upright) (width : 0 < img.width) :
    img.flip.convolved kernel = (img.convolved kernel).flip := by
  apply ofFn_congr
  intro y hy x hx c hc
  have inside : img.height - 1 - y < img.height := Nat.sub_lt_of_lt (Nat.sub_one_lt_of_lt hy)
  have reversed : (img.convolved kernel).get (img.height - 1 - y) x c = _ :=
    get_convolved inside hx hc
  rw [height_convolved, reversed, weighted_flip upright width hc hy]

theorem convolved_rotate (symmetric : kernel.Symmetric) (upright : kernel.Upright)
    (height : 0 < img.height) (width : 0 < img.width) :
    img.rotate.convolved kernel = (img.convolved kernel).rotate := by
  rw [rotate_eq_flip, rotate_eq_flip, convolved_flip upright height,
    convolved_transpose symmetric height width]

theorem pixels_turns (height : 0 < img.height) (width : 0 < img.width) (turns : Nat) :
    0 < (rotate^[turns] img).height ∧ 0 < (rotate^[turns] img).width := by
  induction turns generalizing img with
  | zero => exact ⟨height, width⟩
  | succ turns ih => exact ih width height

theorem convolved_turns (symmetric : kernel.Symmetric) (upright : kernel.Upright)
    (height : 0 < img.height) (width : 0 < img.width) (turns : Nat) :
    (rotate^[turns] img).convolved kernel = rotate^[turns] (img.convolved kernel) := by
  induction turns generalizing img with
  | zero => rfl
  | succ turns ih =>
    rw [Function.iterate_succ_apply, Function.iterate_succ_apply, ih width height,
      convolved_rotate symmetric upright height width]

theorem clip_of_nonpos {n : Int} (h : n ≤ 0) : clip n = 0 := by
  have value : ((clip n).toNat : Int) = 0 := by
    rw [toNat_clip]
    omega
  exact UInt8.toNat_inj.mp (Int.natCast_inj.mp value)

theorem convolved_brightened (balanced : kernel.Balanced) {brightness : Int}
    (adjusted : Adjusted 1 brightness img other) (height : 0 < img.height) (width : 0 < img.width) :
    other.convolved kernel = img.convolved kernel := by
  obtain ⟨sameHeight, sameWidth, sameLayout⟩ := adjusted.shape
  unfold convolved
  rw [sameHeight, sameWidth, sameLayout]
  apply ofFn_congr
  intro y _ x _ c hc
  rw [weighted_adjusted balanced adjusted height width hc, one_mul]

theorem convolved_flat (balanced : kernel.Balanced) {b : UInt8}
    (flat : ∀ y < img.height, ∀ x < img.width, ∀ c < img.layout.samples, img.get y x c = b)
    (height : 0 < img.height) (width : 0 < img.width) :
    img.convolved kernel = img.map fun _ => 0 := by
  have adjusted : Adjusted 0 b.toNat img img := by
    refine ⟨.refl img, ?_⟩
    intro y hy x hx c hc
    rw [flat y hy x hx c hc, zero_mul, zero_add]
  apply ofFn_congr
  intro y _ x _ c hc
  rw [weighted_adjusted balanced adjusted height width hc, balanced.2]
  exact clip_of_nonpos (by omega)

theorem convolved_invert (balanced : kernel.Balanced) (height : 0 < img.height)
    (width : 0 < img.width) {y x : Nat} (hy : y < img.height) (hx : x < img.width)
    (hc : c < img.layout.samples) :
    (img.convolved kernel).get y x c = 0 ∨ (img.invert.convolved kernel).get y x c = 0 := by
  have opposite : img.invert.weighted kernel y x c = -1 * img.weighted kernel y x c :=
    weighted_adjusted balanced (adjusted_invert img) height width hc y x
  have inverted : (img.invert.convolved kernel).get y x c =
      clip (img.invert.weighted kernel y x c + kernel.offset) := get_convolved hy hx hc
  rw [get_convolved hy hx hc, inverted, opposite, balanced.2]
  rcases le_total (img.weighted kernel y x c) 0 with low | high
  · left
    exact clip_of_nonpos (by omega)
  · right
    exact clip_of_nonpos (by omega)

end Image

namespace Filter

open Image

variable (ω : Type) [Source ω] {f : Filter} {kernel : Kernel Int} {img : Image}

def Makes (f : Filter) (img result : Image) : Prop :=
  ∀ w : ω, (f.apply img : Task ω Image).Yields w result w

theorem makes_convolved (h : f.kernel? = some kernel) (height : 0 < img.height)
    (width : 0 < img.width) : Makes ω f img (img.convolved kernel) := by
  intro w
  rw [apply_of_kernel? h, convolve?_eq_convolved height width]
  exact Task.yields_pure.mpr ⟨rfl, rfl⟩

theorem exists_symmetric (h : f ∈ [laplace, emboss, edge]) :
    ∃ kernel, f.kernel? = some kernel ∧ kernel.Symmetric := by
  simp only [List.mem_cons, List.not_mem_nil, or_false] at h
  rcases h with rfl | rfl | rfl
  · exact ⟨.laplace, rfl, Kernel.isotropic_laplace.symmetric⟩
  · exact ⟨.emboss, rfl, Kernel.symmetric_emboss⟩
  · exact ⟨.edge, rfl, Kernel.isotropic_edge.symmetric⟩

theorem exists_isotropic (h : f ∈ [laplace, edge]) :
    ∃ kernel, f.kernel? = some kernel ∧ kernel.Isotropic := by
  simp only [List.mem_cons, List.not_mem_nil, or_false] at h
  rcases h with rfl | rfl
  · exact ⟨.laplace, rfl, Kernel.isotropic_laplace⟩
  · exact ⟨.edge, rfl, Kernel.isotropic_edge⟩

/-- The filters that weight pixels make the transposed result of a transposed image. Those that find
edges turn with the image; they do not see its brightness, so that nothing remains of a flat image;
and where they leave something of an image they leave nothing of the inverted one. -/
theorem inherits_symmetries (height : 0 < img.height) (width : 0 < img.width) :
    (∀ f ∈ [laplace, emboss, edge], ∃ kernel, f.kernel? = some kernel ∧
      Makes ω f img (img.convolved kernel) ∧
      Makes ω f img.transpose (img.convolved kernel).transpose) ∧
    ∀ f ∈ [laplace, edge], ∃ kernel, f.kernel? = some kernel ∧
      (∀ turns,
        Makes ω f (Image.rotate^[turns] img) (Image.rotate^[turns] (img.convolved kernel))) ∧
      (∀ brightness other, Adjusted 1 brightness img other →
        Makes ω f other (img.convolved kernel)) ∧
      (∀ b, (∀ y < img.height, ∀ x < img.width, ∀ c < img.layout.samples, img.get y x c = b) →
        Makes ω f img (img.map fun _ => 0)) ∧
      Makes ω f img.invert (img.invert.convolved kernel) ∧
      ∀ y < img.height, ∀ x < img.width, ∀ c < img.layout.samples,
        (img.convolved kernel).get y x c = 0 ∨ (img.invert.convolved kernel).get y x c = 0 := by
  constructor
  · intro f member
    obtain ⟨kernel, weights, symmetric⟩ := exists_symmetric member
    refine ⟨kernel, weights, makes_convolved ω weights height width, ?_⟩
    rw [← convolved_transpose symmetric height width]
    exact makes_convolved ω weights width height
  · intro f member
    obtain ⟨kernel, weights, isotropic⟩ := exists_isotropic member
    refine ⟨kernel, weights, ?_, ?_, ?_, ?_, ?_⟩
    · intro turns
      obtain ⟨height', width'⟩ := pixels_turns height width turns
      rw [← convolved_turns isotropic.symmetric isotropic.upright height width]
      exact makes_convolved ω weights height' width'
    · intro brightness other adjusted
      obtain ⟨sameHeight, sameWidth, -⟩ := adjusted.shape
      rw [← convolved_brightened isotropic.balanced adjusted height width]
      exact makes_convolved ω weights (by omega) (by omega)
    · intro b flat
      rw [← convolved_flat isotropic.balanced flat height width]
      exact makes_convolved ω weights height width
    · exact makes_convolved ω weights height width
    · intro y hy x hx c hc
      exact convolved_invert isotropic.balanced height width hy hx hc

/-- Stairs from one corner to the other, turned and made brighter, and a wall. -/
theorem stairs_inherit_symmetries :
    let stairs := Image.ofFn 2 3 .gray fun y x _ => 10 * (y.toUInt8 + x.toUInt8)
    let wall := Image.ofFn 1 2 .gray fun _ _ _ => 7
    (0 < stairs.height ∧ 0 < stairs.width ∧ 0 < wall.height ∧ 0 < wall.width) ∧
    Makes Script emboss stairs.transpose (stairs.convolved .emboss).transpose ∧
    Makes Script edge stairs.rotate (stairs.convolved .edge).rotate ∧
    Adjusted 1 5 stairs (stairs.map (· + 5)) ∧
    Makes Script edge (stairs.map (· + 5)) (stairs.convolved .edge) ∧
    Makes Script laplace wall (wall.map fun _ => 0) ∧
    (stairs.convolved .edge).get 1 2 0 = 60 ∧ (stairs.invert.convolved .edge).get 1 2 0 = 0 := by
  intro stairs wall
  have height : 0 < stairs.height := by decide
  have width : 0 < stairs.width := by decide
  have height' : 0 < wall.height := by decide
  have width' : 0 < wall.width := by decide
  have brighter : Adjusted 1 5 stairs (stairs.map (· + 5)) := ⟨⟨rfl, rfl, rfl⟩, by decide⟩
  obtain ⟨transposed, detected⟩ := inherits_symmetries Script height width
  obtain ⟨_, ⟨⟩, -, mirrored⟩ := transposed emboss (by simp)
  obtain ⟨_, ⟨⟩, turned, brightened, -, -, alternate⟩ := detected edge (by simp)
  obtain ⟨-, walls⟩ := inherits_symmetries Script height' width'
  obtain ⟨_, -, -, -, flat, -⟩ := walls laplace (by simp)
  have corner : (stairs.convolved .edge).get 1 2 0 = 60 := by decide
  have gone := alternate 1 (by decide) 2 (by decide) 0 (by decide)
  rw [corner] at gone
  exact ⟨⟨height, width, height', width'⟩, mirrored, turned 1, brighter, brightened 5 _ brighter,
    flat 7 (by decide), corner, gone.resolve_left (by decide)⟩

end Filter

end PictureEvolution
