import PictureEvolution.Image.Basic
import PictureEvolution.Random.Congruential
import PictureEvolution.Random.Source

/-!
# Retouching

Operations that change each sample by itself: inverting it, or adding noise. The noise comes from a
generator of its own, for which one seed is drawn.
-/

namespace PictureEvolution.Image

def invert (img : Image) : Image := img.map (255 - ·)

section Invert

variable (img : Image)

@[simp] theorem height_invert : img.invert.height = img.height := rfl
@[simp] theorem width_invert : img.invert.width = img.width := rfl
@[simp] theorem layout_invert : img.invert.layout = img.layout := rfl

theorem get_invert {y x c : Nat} (hy : y < img.height) (hx : x < img.width)
    (hc : c < img.layout.samples) : img.invert.get y x c = 255 - img.get y x c :=
  get_ofFn hy hx hc

end Invert

/-- How far noise moves a sample, up or down. -/
def noiseAmplitude : Nat := 32

/-- Add offsets to the samples in storage order and stay within a byte. -/
def addOffsets (img : Image) (offsets : Array Int) : Image :=
  ofFn img.height img.width img.layout fun y x c =>
    clip ((img.get y x c).toNat + offsets.getD (index img.width img.layout.samples y x c) 0)

def addNoise {ω : Type} [Source ω] (img : Image) : Draw ω Image := do
  let seed ← Draw.seed
  return img.addOffsets (Congruential.offsets noiseAmplitude img.bytes.size seed)

end PictureEvolution.Image
