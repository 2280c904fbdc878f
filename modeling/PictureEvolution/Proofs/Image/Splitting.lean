import PictureEvolution.Proofs.Image.Shape

/-!
# Splits

A split of two images shows the first one up to a drawn row, as far as it reaches, and the second
one elsewhere. A split at a column is the same with rows and columns exchanged: on the transposed
images the two ways to split draw alike and give transposed images.
-/

namespace PictureEvolution

namespace Image

/-! ### Exchanging rows and columns -/

def transpose (img : Image) : Image :=
  ofFn img.width img.height img.layout fun y x c => img.get x y c

section Transpose

variable (img : Image)

@[simp] theorem height_transpose : img.transpose.height = img.width := rfl
@[simp] theorem width_transpose : img.transpose.width = img.height := rfl
@[simp] theorem layout_transpose : img.transpose.layout = img.layout := rfl

theorem get_transpose {y x c : Nat} (hy : y < img.width) (hx : x < img.height)
    (hc : c < img.layout.samples) : img.transpose.get y x c = img.get x y c :=
  get_ofFn hy hx hc

@[simp] theorem transpose_transpose : img.transpose.transpose = img := by
  refine ext_get rfl rfl rfl fun y hy x hx c hc => ?_
  rw [get_transpose img.transpose hy hx hc, get_transpose img hx hy hc]

end Transpose

/-! ### Splitting -/

/-- The pixels above a row are those of the first image where it has some, and all other pixels are
those of the second image. -/
def SplitAt (row : Nat) (a b result : Image) : Prop :=
  ∀ y < b.height, ∀ x < b.width, ∀ c < b.layout.samples,
    result.get y x c =
      if y < row ∧ y < a.height ∧ x < a.width then a.get y x c else b.get y x c

theorem splitAt_topOver (row : Nat) {a b : Image} (same : a.layout = b.layout) :
    SplitAt row a b (topOver row a b) :=
  fun _ hy _ hx _ hc => get_topOver same hy hx hc row

/-- Copying columns is copying rows of the transposed images: the bounds of the two windows change
places with the two sides of the overlap. -/
theorem leftOver_eq_transpose (column : Nat) {a b : Image} (same : a.layout = b.layout) :
    leftOver column a b = (topOver column a.transpose b.transpose).transpose := by
  refine ext_get rfl rfl rfl fun y hy x hx c hc => ?_
  have mirrored := get_transpose (topOver column a.transpose b.transpose) hy hx hc
  have taken := get_topOver (a := a.transpose) (b := b.transpose) same hx hy hc column
  rw [get_leftOver same hy hx hc, mirrored, taken, get_transpose b hx hy hc]
  simp only [height_transpose, width_transpose, and_comm (a := x < a.width)]
  split
  next inside => exact (get_transpose a inside.2.2 inside.2.1 (same ▸ hc)).symm
  next => rfl

variable {ω : Type} [Source ω]

theorem splitColumns_eq_transpose {a b : Image} (same : a.layout = b.layout) :
    (splitColumns a b : Draw ω Image) = transpose <$> splitRows a.transpose b.transpose := by
  have placed (column : Nat) := leftOver_eq_transpose column same
  unfold splitColumns splitRows
  by_cases two : 2 ≤ b.width
  · rw [dif_pos two, dif_pos (show 2 ≤ b.transpose.height from two)]
    simp only [placed]
    rfl
  · rw [dif_neg two, dif_neg (show ¬ 2 ≤ b.transpose.height from two)]
    exact congrArg pure b.transpose_transpose.symm

/-- What a split at a row makes of two images, from one state of the source: a split between two
rows of the second image, if it has two, and otherwise that image, with nothing drawn. -/
structure Splits (a b : Image) (w : ω) (result : Image) (w' : ω) : Prop where
  shape : result.SameShape b
  split : 2 ≤ b.height → ∃ row, 1 ≤ row ∧ row ≤ b.height - 1 ∧ SplitAt row a b result
  whole : b.height < 2 → result = b ∧ w' = w

theorem splits_splitRows {a b : Image} (same : a.layout = b.layout) (w : ω) :
    Splits a b w (splitRows a b w).1 (splitRows a b w).2 := by
  refine ⟨gives_splitRows a b w, fun two => ?_, fun short => ?_⟩
  · have drawn : Draw.Gives (fun result => ∃ row, 1 ≤ row ∧ row ≤ b.height - 1 ∧
        SplitAt row a b result) (splitRows a b : Draw ω Image) := by
      unfold splitRows
      rw [dif_pos two]
      exact (Draw.Gives.any _).bind fun row _ => .pure ⟨row, row.2.1, row.2.2,
        splitAt_topOver row same⟩
    exact drawn w
  · unfold splitRows
    rw [dif_neg (Nat.not_le.mpr short)]
    exact ⟨rfl, rfl⟩

end Image

namespace Merge

open Image

variable {ω : Type} [Source ω] {a b : Image}

theorem apply_rows (same : a.layout = b.layout) :
    (rows.apply a b : Task ω Image) = .ofDraw (splitRows a b) :=
  if_pos same

theorem apply_columns (same : a.layout = b.layout) :
    (columns.apply a b : Task ω Image) = .ofDraw (splitColumns a b) :=
  if_pos same

/-- The split at a row puts rows of the first image above rows of the second one, and the split at a
column is its mirror image: on the transposed images it draws alike and comes to the transposed
result. -/
theorem splits_mirrored (same : a.layout = b.layout) (w : ω) :
    (∃ result w', (rows.apply a b : Task ω Image).Yields w result w' ∧ Splits a b w result w') ∧
    ∃ result w', (rows.apply a.transpose b.transpose : Task ω Image).Yields w result w' ∧
      (columns.apply a b : Task ω Image).Yields w result.transpose w' := by
  have same' : a.transpose.layout = b.transpose.layout := same
  constructor
  · refine ⟨_, _, ?_, splits_splitRows same w⟩
    rw [apply_rows same]
    exact Task.yields_ofDraw.mpr rfl
  · refine ⟨(splitRows a.transpose b.transpose w).1, (splitRows a.transpose b.transpose w).2,
      ?_, ?_⟩
    · rw [apply_rows same']
      exact Task.yields_ofDraw.mpr rfl
    · rw [apply_columns same, Task.yields_ofDraw, splitColumns_eq_transpose same]
      rfl

/-- A single row over three shorter ones. -/
theorem strip_splits :
    let strip := Image.ofFn 1 3 .gray fun _ x _ => x.toUInt8 + 1
    let block := Image.ofFn 3 2 .gray fun y _ _ => y.toUInt8 + 10
    strip.layout = block.layout ∧
      (∃ result w', (rows.apply strip block : Task Script Image).Yields ⟨[1]⟩ result w' ∧
        result.height = 3 ∧ result.get 0 1 0 = 2 ∧ result.get 1 1 0 = 11) ∧
      ∃ result w',
        (rows.apply strip.transpose block.transpose : Task Script Image).Yields ⟨[1]⟩ result w' ∧
        (columns.apply strip block : Task Script Image).Yields ⟨[1]⟩ result.transpose w' := by
  intro strip block
  have same : strip.layout = block.layout := rfl
  obtain ⟨⟨result, w', yields, splits⟩, mirrored⟩ := splits_mirrored same (⟨[1]⟩ : Script)
  refine ⟨same, ⟨result, w', yields, splits.shape.1, ?_, ?_⟩, mirrored⟩
  · obtain ⟨row, above, -, split⟩ := splits.split (by decide)
    rw [split 0 (by decide) 1 (by decide) 0 (by decide), if_pos ⟨above, by decide, by decide⟩]
    decide
  · obtain ⟨row, -, -, split⟩ := splits.split (by decide)
    rw [split 1 (by decide) 1 (by decide) 0 (by decide),
      if_neg fun taken => absurd taken.2.1 (by decide)]
    decide

end Merge

end PictureEvolution
