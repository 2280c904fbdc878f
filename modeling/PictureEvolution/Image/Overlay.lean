import PictureEvolution.Image.Slice
import PictureEvolution.Random.Source

/-!
# Overlays

Two images of one layout are combined over the rows and columns that both have: these are a corner
of each. The second image is copied, and its corner, or a part of it, is overwritten by what becomes
of the two corners, or by the first one.
-/

namespace PictureEvolution.Image

/-- How many rows and how many columns two images have in common. -/
def overlap (a b : Image) : Nat × Nat := (min a.height b.height, min a.width b.width)

def combine (a : Image) (f : UInt8 → UInt8 → UInt8) (b : Image) : Image :=
  ofFn a.height a.width a.layout fun y x c => f (a.get y x c) (b.get y x c)

theorem get_combine {a b : Image} {f : UInt8 → UInt8 → UInt8} {y x c : Nat} (hy : y < a.height)
    (hx : x < a.width) (hc : c < a.layout.samples) :
    (a.combine f b).get y x c = f (a.get y x c) (b.get y x c) :=
  get_ofFn hy hx hc

theorem Fits.combine {a img : Image} {w : Window} (h : a.Fits img w) (f : UInt8 → UInt8 → UInt8)
    (b : Image) : (a.combine f b).Fits img w :=
  ⟨h.height, h.width⟩

/-- Corners of a size that two images have in common fit each other. -/
theorem slice_corner_fits {a b : Image} {height width : Nat} (rows : height ≤ (overlap a b).1)
    (columns : width ≤ (overlap a b).2) :
    (a.slice (.corner height width)).Fits b (.corner height width) := by
  obtain ⟨rows, rows'⟩ := Nat.le_min.mp rows
  obtain ⟨columns, columns'⟩ := Nat.le_min.mp columns
  constructor
  · rw [height_slice_corner rows]
    exact (height_slice_corner rows').symm
  · rw [width_slice_corner columns]
    exact (width_slice_corner columns').symm

/-- Combine the samples of two images where both have pixels. -/
def overlay (f : UInt8 → UInt8 → UInt8) (a b : Image) : Image :=
  let common := overlap a b
  let corner := Window.corner common.1 common.2
  b.overwrite corner ((a.slice corner).combine f (b.slice corner))
    ((slice_corner_fits (Nat.le_refl _) (Nat.le_refl _)).combine f _)

/-- Copy the rows of the first image above a row to the second one. -/
def topOver (row : Nat) (a b : Image) : Image :=
  let common := overlap a b
  let rows := min row common.1
  b.overwrite (.corner rows common.2) (a.slice (.corner rows common.2))
    (slice_corner_fits (Nat.min_le_right _ _) (Nat.le_refl _))

/-- Copy the columns of the first image left of a column to the second one. -/
def leftOver (column : Nat) (a b : Image) : Image :=
  let common := overlap a b
  let columns := min column common.2
  b.overwrite (.corner common.1 columns) (a.slice (.corner common.1 columns))
    (slice_corner_fits (Nat.le_refl _) (Nat.min_le_right _ _))

section Pixels

variable {a b : Image} {height width y x c : Nat} (same : a.layout = b.layout)
  (hy : y < b.height) (hx : x < b.width) (hc : c < b.layout.samples)

include same hy hx hc

/-- A copied corner shows the first image, and the rest stays. -/
theorem get_overwrite_slice (rows : height ≤ (overlap a b).1) (columns : width ≤ (overlap a b).2) :
    (b.overwrite (.corner height width) (a.slice (.corner height width))
      (slice_corner_fits rows columns)).get y x c =
      if y < height ∧ x < width then a.get y x c else b.get y x c := by
  rw [get_overwrite_corner _ hy hx hc]
  split
  next inside =>
    exact get_slice_corner (Nat.le_min.mp rows).1 (Nat.le_min.mp columns).1 inside.1 inside.2
      (same ▸ hc)
  next => rfl

theorem get_topOver (row : Nat) : (topOver row a b).get y x c =
    if y < row ∧ y < a.height ∧ x < a.width then a.get y x c else b.get y x c := by
  refine (get_overwrite_slice same hy hx hc (Nat.min_le_right _ _) (Nat.le_refl _)).trans ?_
  simp only [overlap, Nat.lt_min, hy, hx, and_true, and_assoc]

theorem get_leftOver (column : Nat) : (leftOver column a b).get y x c =
    if x < column ∧ y < a.height ∧ x < a.width then a.get y x c else b.get y x c := by
  refine (get_overwrite_slice same hy hx hc (Nat.le_refl _) (Nat.min_le_right _ _)).trans ?_
  simp only [overlap, Nat.lt_min, hy, hx, and_true, and_left_comm]

theorem get_overlay (f : UInt8 → UInt8 → UInt8) : (overlay f a b).get y x c =
    if y < a.height ∧ x < a.width then f (a.get y x c) (b.get y x c) else b.get y x c := by
  obtain ⟨rows, rows'⟩ := Nat.le_min.mp (Nat.le_refl (overlap a b).1)
  obtain ⟨columns, columns'⟩ := Nat.le_min.mp (Nat.le_refl (overlap a b).2)
  have fits := slice_corner_fits (Nat.le_refl (overlap a b).1) (Nat.le_refl (overlap a b).2)
  refine (get_overwrite_corner (fits.combine f _) hy hx hc).trans ?_
  by_cases inside : y < (overlap a b).1 ∧ x < (overlap a b).2
  · obtain ⟨hy', hx'⟩ := inside
    rw [if_pos ⟨hy', hx'⟩, if_pos ⟨Nat.lt_of_lt_of_le hy' rows, Nat.lt_of_lt_of_le hx' columns⟩,
      get_combine (Nat.lt_of_lt_of_eq hy' (height_slice_corner rows).symm)
        (Nat.lt_of_lt_of_eq hx' (width_slice_corner columns).symm) (same ▸ hc),
      get_slice_corner rows columns hy' hx' (same ▸ hc),
      get_slice_corner rows' columns' hy' hx' hc]
  · rw [if_neg inside, if_neg]
    simpa only [overlap, Nat.lt_min, hy, hx, and_true] using inside

end Pixels

variable {ω : Type} [Source ω]

/-- The first image above a drawn row of the second one, if that has two rows. -/
def splitRows (a b : Image) : Draw ω Image :=
  if h : 2 ≤ b.height then do
    let row ← Draw.between 1 (b.height - 1) (by omega)
    return topOver row a b
  else
    pure b

/-- The first image left of a drawn column of the second one, if that has two columns. -/
def splitColumns (a b : Image) : Draw ω Image :=
  if h : 2 ≤ b.width then do
    let column ← Draw.between 1 (b.width - 1) (by omega)
    return leftOver column a b
  else
    pure b

end PictureEvolution.Image
