import PictureEvolution.Proofs.Image.Splitting

/-!
# Bitwise merges

A bitwise merge combines the samples of two images where both have pixels, and shows the second
image elsewhere. Since the result has the shape of the second image, it can be merged with the first
one again, and meets it in the same pixels. So each law of the operation on bytes is a law of the
merge, whatever the two sizes are.
-/

namespace PictureEvolution

namespace Image

/-! ### Bytes -/

section Bytes

variable (p q : UInt8)

theorem sub_eq_complement : 255 - p = ~~~p := by
  apply UInt8.toBitVec_inj.mp
  exact BitVec.allOnes_sub_eq_not p.toBitVec

theorem complement_and : 255 - (p &&& q) = (255 - p) ||| (255 - q) := by
  simp only [sub_eq_complement]
  apply UInt8.toBitVec_inj.mp
  simp [BitVec.not_and]

theorem complement_or : 255 - (p ||| q) = (255 - p) &&& (255 - q) := by
  simp only [sub_eq_complement]
  apply UInt8.toBitVec_inj.mp
  simp [BitVec.not_or]

theorem and_absorbs_or : p &&& (p ||| q) = p := by
  apply UInt8.toBitVec_inj.mp
  ext i
  simp only [UInt8.toBitVec_and, UInt8.toBitVec_or, BitVec.getElem_and, BitVec.getElem_or]
  cases p.toBitVec[i] <;> simp

theorem or_absorbs_and : p ||| (p &&& q) = p := by
  apply UInt8.toBitVec_inj.mp
  ext i
  simp only [UInt8.toBitVec_and, UInt8.toBitVec_or, BitVec.getElem_and, BitVec.getElem_or]
  cases p.toBitVec[i] <;> simp

end Bytes

/-! ### Overlays -/

structure Combines (f : UInt8 → UInt8 → UInt8) (a b result : Image) : Prop where
  shape : result.SameShape b
  overlap : ∀ y < min a.height b.height, ∀ x < min a.width b.width, ∀ c < b.layout.samples,
    result.get y x c = f (a.get y x c) (b.get y x c)
  rest : ∀ y < b.height, ∀ x < b.width, ¬ (y < a.height ∧ x < a.width) →
    ∀ c < b.layout.samples, result.get y x c = b.get y x c

section Overlay

variable {a b : Image} {f g : UInt8 → UInt8 → UInt8} {y x c : Nat}

@[simp] theorem height_overlay : (overlay f a b).height = b.height := rfl
@[simp] theorem width_overlay : (overlay f a b).width = b.width := rfl
@[simp] theorem layout_overlay : (overlay f a b).layout = b.layout := rfl

theorem combines_overlay (f : UInt8 → UInt8 → UInt8) (same : a.layout = b.layout) :
    Combines f a b (overlay f a b) where
  shape := sameShape_ofFn b _
  overlap y hy x hx c hc := by
    rw [get_overlay same (by omega) (by omega) hc f, if_pos (by omega)]
  rest y hy x hx outside c hc := by
    rw [get_overlay same hy hx hc f, if_neg outside]

/-- A second overlay meets the first image in the same pixels. -/
theorem overlay_overlay (f g : UInt8 → UInt8 → UInt8) (same : a.layout = b.layout) :
    overlay f a (overlay g a b) = overlay (fun p q => f p (g p q)) a b := by
  refine ext_get rfl rfl rfl ?_
  intro y hy x hx c hc
  simp only [height_overlay, width_overlay, layout_overlay] at hy hx hc
  have again := get_overlay (b := overlay g a b) same hy hx hc f
  rw [again, get_overlay same hy hx hc g, get_overlay same hy hx hc]
  by_cases covered : y < a.height ∧ x < a.width <;> simp [covered]

theorem overlay_of_second (same : a.layout = b.layout) (second : ∀ p q, f p q = q) :
    overlay f a b = b := by
  refine ext_get rfl rfl rfl ?_
  intro y hy x hx c hc
  simp only [height_overlay, width_overlay, layout_overlay] at hy hx hc
  rw [get_overlay same hy hx hc f, second, ite_self]

/-- Inverting the result is merging the inverted images by the dual operation. -/
theorem invert_overlay (same : a.layout = b.layout)
    (dual : ∀ p q, 255 - f p q = g (255 - p) (255 - q)) :
    (overlay f a b).invert = overlay g a.invert b.invert := by
  refine ext_get rfl rfl rfl ?_
  intro y hy x hx c hc
  simp only [height_invert, width_invert, layout_invert, height_overlay, width_overlay,
    layout_overlay] at hy hx hc
  have merged := get_overlay (a := a.invert) (b := b.invert) same hy hx hc g
  have inverted := get_invert (overlay f a b) hy hx hc
  rw [inverted, get_overlay same hy hx hc f, merged, get_invert b hy hx hc]
  by_cases covered : y < a.height ∧ x < a.width
  · have covered' : y < a.invert.height ∧ x < a.invert.width := covered
    rw [if_pos covered, if_pos covered', dual, get_invert a covered.1 covered.2 (same ▸ hc)]
  · have covered' : ¬ (y < a.invert.height ∧ x < a.invert.width) := covered
    rw [if_neg covered, if_neg covered']

end Overlay

end Image

namespace Merge

open Image

def operation? : Merge → Option (UInt8 → UInt8 → UInt8)
  | and => some (· &&& ·)
  | or => some (· ||| ·)
  | xor => some (· ^^^ ·)
  | _ => none

variable {ω : Type} [Source ω] {m : Merge} {f : UInt8 → UInt8 → UInt8} {a b : Image}

theorem apply_of_operation? (h : m.operation? = some f) (same : a.layout = b.layout) :
    (m.apply a b : Task ω Image) = pure (overlay f a b) := by
  unfold Merge.apply
  rw [if_pos same]
  cases m <;> cases h <;> rfl

/-- Two merges with the same first image, one after the other. -/
theorem apply_apply {m' : Merge} {g : UInt8 → UInt8 → UInt8} (h : m.operation? = some f)
    (h' : m'.operation? = some g) (same : a.layout = b.layout) :
    (m.apply a b >>= m'.apply a : Task ω Image) =
      pure (overlay (fun p q => g p (f p q)) a b) := by
  have same' : a.layout = (overlay f a b).layout := same
  rw [apply_of_operation? h same, pure_bind, apply_of_operation? h' same',
    overlay_overlay _ _ same]

theorem apply_invert {m' : Merge} {g : UInt8 → UInt8 → UInt8} (h : m.operation? = some f)
    (h' : m'.operation? = some g) (same : a.layout = b.layout)
    (dual : ∀ p q, 255 - f p q = g (255 - p) (255 - q)) :
    (m.apply a b >>= Filter.invert.apply : Task ω Image) = m'.apply a.invert b.invert := by
  have same' : a.invert.layout = b.invert.layout := same
  rw [apply_of_operation? h same, pure_bind, apply_of_operation? h' same',
    ← invert_overlay same dual]
  rfl

/-- The bitwise merges of images of any two sizes obey the laws of a Boolean algebra. -/
theorem boolean_algebra (same : a.layout = b.layout) :
    (∀ (m : Merge) f, m.operation? = some f → ∃ result,
      (m.apply a b : Task ω Image) = pure result ∧ Combines f a b result) ∧
    (xor.apply a b >>= xor.apply a : Task ω Image) = pure b ∧
    (and.apply a b >>= and.apply a : Task ω Image) = and.apply a b ∧
    (or.apply a b >>= or.apply a : Task ω Image) = or.apply a b ∧
    (and.apply a b >>= Filter.invert.apply : Task ω Image) = or.apply a.invert b.invert ∧
    (or.apply a b >>= Filter.invert.apply : Task ω Image) = and.apply a.invert b.invert ∧
    ∃ pasted, Combines (fun p _ => p) a b pasted ∧
      (and.apply a b >>= or.apply a : Task ω Image) = pure pasted ∧
      (or.apply a b >>= and.apply a : Task ω Image) = pure pasted := by
  refine ⟨?_, ?_, ?_, ?_, ?_, ?_, overlay (fun p _ => p) a b, combines_overlay _ same, ?_, ?_⟩
  · intro m f h
    exact ⟨_, apply_of_operation? h same, combines_overlay f same⟩
  · rw [apply_apply rfl rfl same, overlay_of_second same]
    intro p q
    simp only [← UInt8.xor_assoc, UInt8.xor_self, UInt8.zero_xor]
  · rw [apply_apply rfl rfl same, apply_of_operation? rfl same]
    simp only [← UInt8.and_assoc, UInt8.and_self]
  · rw [apply_apply rfl rfl same, apply_of_operation? rfl same]
    simp only [← UInt8.or_assoc, UInt8.or_self]
  · exact apply_invert rfl rfl same complement_and
  · exact apply_invert rfl rfl same complement_or
  · rw [apply_apply rfl rfl same]
    simp only [or_absorbs_and]
  · rw [apply_apply rfl rfl same]
    simp only [and_absorbs_or]

/-- A low wide image and a high narrow one, neither of which covers the other. -/
theorem crossed_boolean_algebra :
    let low := Image.ofFn 1 3 .gray fun _ x _ => 12 + x.toUInt8
    let high := Image.ofFn 2 2 .gray fun y _ _ => 10 + y.toUInt8
    low.layout = high.layout ∧
    (xor.apply low high >>= xor.apply low : Task Script Image) = pure high ∧
    (and.apply low high >>= Filter.invert.apply : Task Script Image) =
      or.apply low.invert high.invert ∧
    ∃ result, (and.apply low high : Task Script Image) = pure result ∧
      result.get 0 1 0 = 8 ∧ result.get 1 1 0 = 11 := by
  intro low high
  have same : low.layout = high.layout := rfl
  obtain ⟨combined, back, -, -, dual, -, -⟩ := @boolean_algebra Script _ low high same
  obtain ⟨result, yields, combines⟩ := combined and _ rfl
  refine ⟨same, back, dual, result, yields, ?_, ?_⟩
  · rw [combines.overlap 0 (by decide) 1 (by decide) 0 (by decide)]
    decide
  · rw [combines.rest 1 (by decide) 1 (by decide) (by decide) 0 (by decide)]
    decide

end Merge

end PictureEvolution
