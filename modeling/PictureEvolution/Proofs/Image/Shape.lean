import PictureEvolution.Machine.Pictures
import PictureEvolution.Proofs.Machine.Task

/-!
# Shapes under the picture instructions

A filter gives an image of the shape that it was given, and a merge one of the shape of the second
image. Neither can fail on images of one layout that have pixels.
-/

namespace PictureEvolution

namespace Image

def SameShape (a b : Image) : Prop :=
  a.height = b.height ∧ a.width = b.width ∧ a.layout = b.layout

namespace SameShape

variable {a b c : Image}

theorem refl (a : Image) : a.SameShape a := ⟨rfl, rfl, rfl⟩

theorem symm (h : a.SameShape b) : b.SameShape a := ⟨h.1.symm, h.2.1.symm, h.2.2.symm⟩

theorem trans (h : a.SameShape b) (h' : b.SameShape c) : a.SameShape c :=
  ⟨h.1.trans h'.1, h.2.1.trans h'.2.1, h.2.2.trans h'.2.2⟩

end SameShape

theorem sameShape_ofFn (img : Image) (f : Nat → Nat → Nat → UInt8) :
    (ofFn img.height img.width img.layout f).SameShape img := ⟨rfl, rfl, rfl⟩

theorem isEmpty_eq_false {img : Image} (height : 0 < img.height) (width : 0 < img.width) :
    img.isEmpty = false := by
  unfold isEmpty
  simp only [Bool.or_eq_false_iff, beq_eq_false_iff_ne]
  omega

theorem convolve?_sameShape (kernel : Kernel Int) {img : Image} (h : img.isEmpty = false) :
    ∃ result, img.convolve? kernel = some result ∧ result.SameShape img := by
  unfold convolve? convolveWith?
  rw [h]
  exact ⟨_, rfl, sameShape_ofFn img _⟩

variable {ω : Type} [Source ω]

theorem gives_addNoise (img : Image) :
    Draw.Gives (·.SameShape img) (img.addNoise : Draw ω Image) :=
  (Draw.Gives.any _).bind fun _ _ => .pure (sameShape_ofFn img _)

theorem gives_rotateSection (img : Image) :
    Draw.Gives (·.SameShape img) (img.rotateSection : Draw ω Image) := by
  unfold rotateSection
  split
  · refine (Draw.Gives.any _).bind fun x _ => (Draw.Gives.any _).bind fun y _ => ?_
    refine (Draw.Gives.any _).bind fun side _ => (Draw.Gives.any _).bind fun turns _ => ?_
    exact .pure (sameShape_ofFn img _)
  · exact .pure (.refl img)

theorem gives_scrambleQuadrants (img : Image) :
    Draw.Gives (·.SameShape img) (img.scrambleQuadrants : Draw ω Image) := by
  unfold scrambleQuadrants
  split
  · exact .pure (.refl img)
  · exact (Draw.Gives.any _).bind fun _ _ => .pure (shape_overwriteAll _)

theorem gives_splitRows (a b : Image) :
    Draw.Gives (·.SameShape b) (splitRows a b : Draw ω Image) := by
  unfold splitRows
  split
  · exact (Draw.Gives.any _).bind fun _ _ => .pure (sameShape_ofFn b _)
  · exact .pure (.refl b)

theorem gives_splitColumns (a b : Image) :
    Draw.Gives (·.SameShape b) (splitColumns a b : Draw ω Image) := by
  unfold splitColumns
  split
  · exact (Draw.Gives.any _).bind fun _ _ => .pure (sameShape_ofFn b _)
  · exact .pure (.refl b)

end Image

variable {ω : Type} [Source ω]

/-- A filter cannot fail on an image with pixels, and keeps its shape. -/
theorem Filter.succeeds_apply (f : Filter) {img : Image} (h : img.isEmpty = false) :
    Task.Succeeds (·.SameShape img) (f.apply img : Task ω Image) := by
  have convolved (kernel : Kernel Int) : Task.Succeeds (·.SameShape img)
      (Task.ofOption .noPixels (img.convolve? kernel) : Task ω Image) := by
    obtain ⟨result, some, same⟩ := Image.convolve?_sameShape kernel h
    rw [some]
    exact .pure same
  cases f with
  | invert => exact .pure (Image.sameShape_ofFn img _)
  | laplace => exact convolved .laplace
  | emboss => exact convolved .emboss
  | edge => exact convolved .edge
  | noise => exact .ofDraw (Image.gives_addNoise img)
  | rotate => exact .ofDraw (Image.gives_rotateSection img)
  | scramble => exact .ofDraw (Image.gives_scrambleQuadrants img)

/-- A merge cannot fail on images of one layout, and has the shape of the second one. -/
theorem Merge.succeeds_apply (m : Merge) {a b : Image} (h : a.layout = b.layout) :
    Task.Succeeds (·.SameShape b) (m.apply a b : Task ω Image) := by
  unfold Merge.apply
  rw [if_pos h]
  cases m with
  | and => exact .pure (Image.sameShape_ofFn b _)
  | or => exact .pure (Image.sameShape_ofFn b _)
  | xor => exact .pure (Image.sameShape_ofFn b _)
  | rows => exact .ofDraw (Image.gives_splitRows a b)
  | columns => exact .ofDraw (Image.gives_splitColumns a b)

end PictureEvolution
