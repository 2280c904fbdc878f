import PictureEvolution.Image.Slice
import PictureEvolution.Random.Source

/-!
# Rearrangements

Two operations move pixels and change none: turning a drawn square by a drawn number of quarter
turns, and putting the four quadrants into a drawn order. The slices are taken from the image as it
was, and written over windows of their size.
-/

namespace PictureEvolution.Image

/-- The image turned counter-clockwise by a quarter turn: its last column becomes the first row. -/
def rotate (img : Image) : Image :=
  ofFn img.width img.height img.layout fun y x c => img.get x (img.width - 1 - y) c

def turn : (turns : Nat) → Image → Image
  | 0, img => img
  | turns + 1, img => (turn turns img).rotate

section Rotate

variable (img : Image)

@[simp] theorem height_rotate : img.rotate.height = img.width := rfl
@[simp] theorem width_rotate : img.rotate.width = img.height := rfl
@[simp] theorem layout_rotate : img.rotate.layout = img.layout := rfl

theorem get_rotate {y x c : Nat} (hy : y < img.width) (hx : x < img.height)
    (hc : c < img.layout.samples) : img.rotate.get y x c = img.get x (img.width - 1 - y) c :=
  get_ofFn hy hx hc

end Rotate

@[simp] theorem layout_turn (turns : Nat) (img : Image) :
    (img.turn turns).layout = img.layout := by
  induction turns with
  | zero => rfl
  | succ turns ih => exact ih

/-- A turned square has the size that it had before. -/
theorem size_turn {side : Nat} (turns : Nat) {img : Image} (height : img.height = side)
    (width : img.width = side) :
    (img.turn turns).height = side ∧ (img.turn turns).width = side := by
  induction turns with
  | zero => exact ⟨height, width⟩
  | succ turns ih => exact ih.symm

theorem turn_slice_fits {img : Image} {top left side : Nat} (rows : top + side ≤ img.height)
    (columns : left + side ≤ img.width) (turns : Nat) :
    ((img.slice (.box top left side side)).turn turns).Fits img (.box top left side side) := by
  obtain ⟨height, width⟩ := size_turn turns (height_slice_box rows) (width_slice_box columns)
  exact ⟨height.trans (height_slice_box rows).symm, width.trans (width_slice_box columns).symm⟩

/-- The windows of the four quadrants, row by row. -/
def quadrant (img : Image) : Fin 4 → Window
  | 0 => .box 0 0 (img.height / 2) (img.width / 2)
  | 1 => .box 0 (img.width / 2) (img.height / 2) (img.width / 2)
  | 2 => .box (img.height / 2) 0 (img.height / 2) (img.width / 2)
  | 3 => .box (img.height / 2) (img.width / 2) (img.height / 2) (img.width / 2)

theorem size_quadrant (img : Image) (k : Fin 4) :
    (img.slice (img.quadrant k)).height = img.height / 2 ∧
      (img.slice (img.quadrant k)).width = img.width / 2 := by
  match k with
  | 0 => exact ⟨height_slice_box (by omega), width_slice_box (by omega)⟩
  | 1 => exact ⟨height_slice_box (by omega), width_slice_box (by omega)⟩
  | 2 => exact ⟨height_slice_box (by omega), width_slice_box (by omega)⟩
  | 3 => exact ⟨height_slice_box (by omega), width_slice_box (by omega)⟩

/-- The quadrant that an order puts at a place. -/
def origin (order : List (Fin 4)) (place : Nat) : Fin 4 := order.getD place 0

/-- The quadrants and what an order puts there. -/
def ordered (img : Image) (order : List (Fin 4)) : List (Window × Image) :=
  (List.finRange 4).map fun k => (img.quadrant k, img.slice (img.quadrant (origin order k)))

theorem ordered_fit (img : Image) (order : List (Fin 4)) :
    ∀ p ∈ img.ordered order, p.2.Fits img p.1 := by
  intro p member
  obtain ⟨k, -, rfl⟩ := List.mem_map.mp member
  obtain ⟨height, width⟩ := img.size_quadrant k
  obtain ⟨height', width'⟩ := img.size_quadrant (origin order k)
  exact ⟨height'.trans height.symm, width'.trans width.symm⟩

variable {ω : Type} [Source ω]

def drawTurns : Draw ω Nat := Draw.choose [1, 2, 3] (by decide)

/-- Turn a drawn square by one, two or three quarter turns. -/
def rotateSection (img : Image) : Draw ω Image :=
  if h : 0 < img.height ∧ 0 < img.width then do
    let x ← Draw.below img.width h.2
    let y ← Draw.below img.height h.1
    let side ← Draw.between 1 (min (img.width - x) (img.height - y)) (by omega)
    let turns ← drawTurns
    let square := Window.box y x side side
    have fits : ((img.slice square).turn turns).Fits img square :=
      turn_slice_fits (by have := side.2; omega) (by have := side.2; omega) turns
    return img.overwrite square ((img.slice square).turn turns) fits
  else
    pure img

/-- Put the quadrants into a drawn order, if they have pixels. -/
def scrambleQuadrants (img : Image) : Draw ω Image :=
  if img.height / 2 = 0 ∨ img.width / 2 = 0 then
    pure img
  else do
    let order ← Draw.shuffle (List.finRange 4)
    return img.overwriteAll (img.ordered order) (img.ordered_fit order)

end PictureEvolution.Image
