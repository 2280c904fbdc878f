import Mathlib.Algebra.Order.Ring.Nat
import Mathlib.Order.Interval.Finset.Nat
import PictureEvolution.Fitness.Sections
import PictureEvolution.Proofs.Image.Rearrangement

/-!
# Sections as tiles

The sections of an image are the blocks of one size that fit side by side from the upper left corner
on, numbered row by row. They do not overlap, and together they cover all rows and columns but the
last few that do not fill a section. How many fit depends on what the division by the grid leaves: a
remainder as long as a section holds further sections, so that there can be more than the grid says.
-/

namespace PictureEvolution

namespace Image

/-! ### One axis -/

theorem sectionSide_pos (length : Nat) (grid : Int) : 0 < sectionSide length grid := by
  unfold sectionSide
  omega

theorem sectionSide_natCast (length n : Nat) : sectionSide length n = max 1 (length / n) := by
  unfold sectionSide
  rw [Int.fdiv_eq_ediv_of_nonneg _ (by omega), ← Int.natCast_ediv, Int.toNat_natCast]

theorem sectionSide_le {length : Nat} {grid : Int} (positive : 0 < length) (hg : 1 ≤ grid) :
    sectionSide length grid ≤ length := by
  have quotient : (length : Int).fdiv grid ≤ length := by
    rw [Int.fdiv_eq_ediv_of_nonneg _ (by omega)]
    exact Int.ediv_le_self _ (by omega)
  unfold sectionSide
  omega

theorem filter_range_lt {n m : Nat} (h : n ≤ m) : (List.range m).filter (· < n) = List.range n := by
  obtain ⟨k, rfl⟩ := Nat.exists_eq_add_of_le h
  have below : (List.range n).filter (· < n) = List.range n := by
    simp [List.filter_eq_self]
  have above : ((List.range k).map (n + ·)).filter (· < n) = [] := by
    simp [List.filter_eq_nil_iff]
  rw [List.range_add, List.filter_append, below, above, List.append_nil]

/-- As many steps as fit begin before the last place where one fits. -/
theorem stepped_eq_map {length side : Nat} (positive : 0 < side) :
    stepped (length + 1 - side) side = (List.range (length / side)).map (· * side) := by
  have fits (i : Nat) : i * side < length + 1 - side ↔ i < length / side := by
    rw [Nat.lt_iff_add_one_le (n := length / side), Nat.le_div_iff_mul_le positive, Nat.succ_mul]
    omega
  have few : length / side ≤ length + 1 - side := by
    rcases Nat.eq_zero_or_pos (length / side) with none | some
    · omega
    · have last := (fits (length / side - 1)).mpr (by omega)
      have := Nat.le_mul_of_pos_right (length / side - 1) positive
      omega
  rw [stepped, List.filter_map, ← filter_range_lt few]
  congr 2
  funext i
  simp [fits]

/-! ### Row by row -/

/-- Two nested loops number their steps row by row. -/
theorem flatMap_range_map {α : Type} (f : Nat → Nat → α) (rows columns : Nat) :
    (List.range rows).flatMap (fun i => (List.range columns).map (f i)) =
      (List.range (rows * columns)).map fun k => f (k / columns) (k % columns) := by
  induction rows with
  | zero => simp
  | succ rows ih =>
    have row : (List.range columns).map (f rows) =
        (List.range columns).map fun j =>
          f ((rows * columns + j) / columns) ((rows * columns + j) % columns) := by
      apply List.map_congr_left
      intro j hj
      obtain ⟨quotient, remainder⟩ := number_div_mod rows (List.mem_range.mp hj)
      rw [quotient, remainder]
    rw [List.range_succ, List.flatMap_append, ih, Nat.succ_mul, List.range_add, List.map_append,
      List.map_map, List.flatMap_singleton, row]
    rfl

theorem sections_eq_map (img : Image) (grid : Int) :
    img.sections grid =
      let height := sectionSide img.height grid
      let width := sectionSide img.width grid
      let columns := img.width / width
      (List.range (img.height / height * columns)).map fun k =>
        img.slice (.box (k / columns * height) (k % columns * width) height width) := by
  simp only [sections, stepped_eq_map (sectionSide_pos _ _), List.flatMap_map, List.map_map]
  exact flatMap_range_map (fun i j => img.slice (.box (i * sectionSide img.height grid)
    (j * sectionSide img.width grid) (sectionSide img.height grid) (sectionSide img.width grid)))
    _ _

theorem length_sections (img : Image) (grid : Int) :
    (img.sections grid).length = img.height / sectionSide img.height grid *
      (img.width / sectionSide img.width grid) := by
  simp [sections_eq_map]

/-- Every section lies inside the image. -/
theorem section_inside {img : Image} {grid : Int} {k : Nat}
    (hk : k < (img.sections grid).length) :
    let height := sectionSide img.height grid
    let width := sectionSide img.width grid
    let columns := img.width / width
    k / columns * height + height ≤ img.height ∧ k % columns * width + width ≤ img.width := by
  have room {length side i : Nat} (hi : i < length / side) : i * side + side ≤ length :=
    calc i * side + side = (i + 1) * side := (Nat.succ_mul i side).symm
      _ ≤ length / side * side := Nat.mul_le_mul_right side hi
      _ ≤ length := Nat.div_mul_le_self length side
  rw [length_sections] at hk
  have some : 0 < img.width / sectionSide img.width grid :=
    Nat.pos_of_ne_zero fun none => by simp [none] at hk
  exact ⟨room (Nat.div_lt_of_lt_mul (by rwa [Nat.mul_comm])), room (Nat.mod_lt k some)⟩

theorem length_sections_pos {img : Image} {grid : Int} (height : 0 < img.height)
    (width : 0 < img.width) (hg : 1 ≤ grid) : 0 < (img.sections grid).length := by
  rw [length_sections]
  exact Nat.mul_pos (Nat.div_pos (sectionSide_le height hg) (sectionSide_pos _ _))
    (Nat.div_pos (sectionSide_le width hg) (sectionSide_pos _ _))

/-! ### Tiles -/

/-- The positions of the block of some height and width that begins at a row and a column. -/
def block (top left height width : Nat) : Finset (Nat × Nat) :=
  Finset.Ico top (top + height) ×ˢ Finset.Ico left (left + width)

/-- The positions of one of the blocks that lie row by row, so many in a row. -/
def tile (height width columns k : Nat) : Finset (Nat × Nat) :=
  block (k / columns * height) (k % columns * width) height width

section Tile

variable {height width columns k l : Nat} {p : Nat × Nat}

theorem div_eq_iff_mem_Ico {length side i : Nat} (positive : 0 < side) :
    length ∈ Finset.Ico (i * side) (i * side + side) ↔ length / side = i := by
  rw [Finset.mem_Ico, Nat.div_eq_iff positive]
  omega

/-- A position tells its tile. -/
theorem mem_tile (tall : 0 < height) (wide : 0 < width) :
    p ∈ tile height width columns k ↔ p.1 / height = k / columns ∧ p.2 / width = k % columns := by
  rw [tile, block, Finset.mem_product, div_eq_iff_mem_Ico tall, div_eq_iff_mem_Ico wide]

theorem disjoint_tile (tall : 0 < height) (wide : 0 < width) (other : k ≠ l) :
    Disjoint (tile height width columns k) (tile height width columns l) := by
  rw [Finset.disjoint_left]
  intro p inFirst inSecond
  obtain ⟨row, column⟩ := (mem_tile tall wide).mp inFirst
  obtain ⟨row', column'⟩ := (mem_tile tall wide).mp inSecond
  apply other
  calc k = k / columns * columns + k % columns := (Nat.div_add_mod' k columns).symm
    _ = l / columns * columns + l % columns := by rw [← row, ← column, row', column']
    _ = l := Nat.div_add_mod' l columns

theorem biUnion_tile (rows columns : Nat) (tall : 0 < height) (wide : 0 < width) :
    (Finset.range (rows * columns)).biUnion (tile height width columns) =
      positions (rows * height) (columns * width) := by
  ext p
  simp only [Finset.mem_biUnion, Finset.mem_range, mem_tile tall wide, mem_positions]
  rw [← Nat.div_lt_iff_lt_mul tall, ← Nat.div_lt_iff_lt_mul wide]
  constructor
  · rintro ⟨k, inside, row, column⟩
    have some : 0 < columns := Nat.pos_of_ne_zero (by rintro rfl; simp at inside)
    rw [row, column]
    exact ⟨Nat.div_lt_of_lt_mul (by rwa [Nat.mul_comm]), Nat.mod_lt k some⟩
  · rintro ⟨row, column⟩
    obtain ⟨quotient, remainder⟩ := number_div_mod (p.1 / height) column
    exact ⟨p.1 / height * columns + p.2 / width, number_lt row column, quotient.symm,
      remainder.symm⟩

end Tile

/-- Sections of one height and width tile an image: section `k` shows the pixels of tile `k`, all
tiles that fit are there, none overlap, and what they leave out are the rows below and the columns
to the right that do not fill another one. -/
structure Tiles (img : Image) (height width : Nat) (sections : List Image) : Prop where
  length : sections.length = img.height / height * (img.width / width)
  shape : ∀ s ∈ sections, s.height = height ∧ s.width = width ∧ s.layout = img.layout
  get : ∀ k, ∀ hk : k < sections.length, ∀ i < height, ∀ j < width, ∀ c < img.layout.samples,
    sections[k].get i j c = img.get (k / (img.width / width) * height + i)
      (k % (img.width / width) * width + j) c
  disjoint : ∀ k < sections.length, ∀ l < sections.length, k ≠ l →
    Disjoint (tile height width (img.width / width) k) (tile height width (img.width / width) l)
  cover : (Finset.range sections.length).biUnion (tile height width (img.width / width)) =
    positions (height * (img.height / height)) (width * (img.width / width))
  full : ∀ top left, height ∣ top → width ∣ left → top + height ≤ img.height →
    left + width ≤ img.width →
    ∃ k < sections.length, tile height width (img.width / width) k = block top left height width
  rows : height * (img.height / height) ≤ img.height ∧
    img.height < height * (img.height / height) + height
  columns : width * (img.width / width) ≤ img.width ∧
    img.width < width * (img.width / width) + width

theorem tiles_sections (img : Image) (grid : Int) :
    img.Tiles (sectionSide img.height grid) (sectionSide img.width grid) (img.sections grid) := by
  have tall := sectionSide_pos img.height grid
  have wide := sectionSide_pos img.width grid
  constructor
  · exact length_sections img grid
  · intro s member
    obtain ⟨k, hk, rfl⟩ := List.mem_iff_getElem.mp member
    obtain ⟨above, beside⟩ := section_inside hk
    simp only [sections_eq_map, List.getElem_map, List.getElem_range]
    exact ⟨height_slice_box above, width_slice_box beside, rfl⟩
  · intro k hk i hi j hj c hc
    obtain ⟨above, beside⟩ := section_inside hk
    simp only [sections_eq_map, List.getElem_map, List.getElem_range]
    exact get_slice_box above beside hi hj hc
  · intro k _ l _ other
    exact disjoint_tile tall wide other
  · rw [length_sections, biUnion_tile _ _ tall wide, Nat.mul_comm _ (img.height / _),
      Nat.mul_comm _ (img.width / _)]
  · intro top left
    rintro ⟨row, rfl⟩ ⟨column, rfl⟩ above beside
    rw [← Nat.mul_succ, Nat.mul_comm, ← Nat.le_div_iff_mul_le tall] at above
    rw [← Nat.mul_succ, Nat.mul_comm, ← Nat.le_div_iff_mul_le wide] at beside
    obtain ⟨quotient, remainder⟩ := number_div_mod row beside
    refine ⟨_, length_sections img grid ▸ number_lt above beside, ?_⟩
    rw [tile, quotient, remainder, Nat.mul_comm row, Nat.mul_comm column]
  · exact ⟨Nat.mul_div_le _ _, Nat.lt_mul_div_succ _ tall⟩
  · exact ⟨Nat.mul_div_le _ _, Nat.lt_mul_div_succ _ wide⟩

theorem cut_of_pos {grid : Int} (hg : 1 ≤ grid) (img : Image) :
    img.cut grid = .ok (img.sections grid) :=
  if_neg (by omega)

theorem cut_natCast {n : Nat} (hn : 1 ≤ n) (img : Image) : img.cut n = .ok (img.sections n) :=
  cut_of_pos (by omega) img

/-- Cut by a grid, every image falls into the sections that tile it. It has one if it has pixels,
and how many it has depends on its height and width alone. -/
theorem sections_tile {n : Nat} (hn : 1 ≤ n) (img : Image) :
    ∃ sections, img.cut n = .ok sections ∧
      img.Tiles (max 1 (img.height / n)) (max 1 (img.width / n)) sections ∧
      (0 < img.height → 0 < img.width → sections ≠ []) ∧
      ∀ other : Image, other.height = img.height → other.width = img.width →
        ∃ sections', other.cut n = .ok sections' ∧ sections'.length = sections.length := by
  refine ⟨img.sections n, cut_natCast hn img, ?_, ?_, ?_⟩
  · rw [← sectionSide_natCast, ← sectionSide_natCast]
    exact tiles_sections img n
  · intro height width
    exact List.ne_nil_of_length_pos (length_sections_pos height width (by omega))
  · intro other height width
    refine ⟨other.sections n, cut_natCast hn other, ?_⟩
    rw [length_sections, length_sections, height, width]

/-- Seven rows and five columns, cut by three: the last row is left out, and the columns fall into
more than three sections. -/
theorem poster_sections_tile :
    let poster := Image.ofFn 7 5 .gray fun y x _ => 10 * y.toUInt8 + x.toUInt8
    1 ≤ 3 ∧ 0 < poster.height ∧ 0 < poster.width ∧
      ∃ sections, poster.cut 3 = .ok sections ∧ poster.Tiles 2 1 sections ∧ sections ≠ [] ∧
        sections.length = 15 ∧ ∃ hk : 7 < sections.length, sections[7].get 1 0 0 = 32 := by
  intro poster
  have three : 1 ≤ 3 := by decide
  have height : 0 < poster.height := by decide
  have width : 0 < poster.width := by decide
  have sides : max 1 (poster.height / 3) = 2 ∧ max 1 (poster.width / 3) = 1 := by decide
  obtain ⟨sections, cut, tiles, some, -⟩ := sections_tile three poster
  rw [sides.1, sides.2] at tiles
  have length : sections.length = 15 := tiles.length.trans (by decide)
  have hk : 7 < sections.length := by omega
  refine ⟨three, height, width, sections, cut, tiles, some height width, length, hk, ?_⟩
  rw [tiles.get 7 hk 1 (by decide) 0 (by decide) 0 (by decide)]
  decide

/-! ### The grid -/

/-- As many sections lie along a side as the grid says, and as many more as its remainder holds. -/
theorem div_div_self {length n : Nat} (hn : 1 ≤ n) (large : n ≤ length) :
    length / (length / n) = n + length % n / (length / n) := by
  have positive : 0 < length / n := Nat.div_pos large hn
  calc length / (length / n) = (length / n * n + length % n) / (length / n) := by
        rw [Nat.div_add_mod']
    _ = n + length % n / (length / n) := Nat.mul_add_div positive _ _

theorem le_div_div {length n : Nat} (hn : 1 ≤ n) (large : n ≤ length) :
    n ≤ length / (length / n) := by
  rw [div_div_self hn large]
  exact Nat.le_add_right _ _

theorem div_div_lt {length n : Nat} (hn : 1 ≤ n) (large : n ≤ length) :
    length / (length / n) < 2 * n := by
  have remainder : length % n / (length / n) < n :=
    Nat.lt_of_le_of_lt (Nat.div_le_self _ _) (Nat.mod_lt _ hn)
  rw [div_div_self hn large]
  omega

theorem div_div_eq_iff {length n : Nat} (hn : 1 ≤ n) (large : n ≤ length) :
    length / (length / n) = n ↔ length % n < length / n := by
  have positive : 0 < length / n := Nat.div_pos large hn
  rw [div_div_self hn large, Nat.add_eq_left, Nat.div_eq_zero_iff]
  omega

/-- An image as large as the grid falls into sections whose sides are those of the image divided by
the grid, at least as many per side as the grid says and fewer than twice as many. There are just as
many as it says, if and only if no remainder of a side holds another section. -/
theorem sections_per_side {n : Nat} {img : Image} (hn : 1 ≤ n) (height : n ≤ img.height)
    (width : n ≤ img.width) :
    ∃ sections rows columns, img.cut n = .ok sections ∧
      img.Tiles (img.height / n) (img.width / n) sections ∧ sections.length = rows * columns ∧
      rows = img.height / (img.height / n) ∧ columns = img.width / (img.width / n) ∧
      (n ≤ rows ∧ rows < 2 * n) ∧ (n ≤ columns ∧ columns < 2 * n) ∧
      (sections.length = n * n ↔
        img.height % n < img.height / n ∧ img.width % n < img.width / n) := by
  have tall : 1 ≤ img.height / n := Nat.div_pos height hn
  have wide : 1 ≤ img.width / n := Nat.div_pos width hn
  have rows := le_div_div hn height
  have columns := le_div_div hn width
  have tiles := tiles_sections img n
  rw [sectionSide_natCast, sectionSide_natCast, max_eq_right tall, max_eq_right wide] at tiles
  refine ⟨img.sections n, _, _, cut_natCast hn img, tiles, tiles.length, rfl, rfl,
    ⟨rows, div_div_lt hn height⟩, ⟨columns, div_div_lt hn width⟩, ?_⟩
  have both := mul_eq_mul_iff_eq_and_eq_of_pos rows columns hn (Nat.lt_of_lt_of_le hn columns)
  rw [tiles.length, ← div_div_eq_iff hn height, ← div_div_eq_iff hn width]
  exact eq_comm.trans (both.trans (and_congr eq_comm eq_comm))

/-- Five rows hold two sections of two rows, but three columns hold three of one column. -/
theorem banner_sections_per_side :
    let banner := Image.ofFn 5 3 .gray fun y x _ => 10 * y.toUInt8 + x.toUInt8
    1 ≤ 2 ∧ 2 ≤ banner.height ∧ 2 ≤ banner.width ∧
      ∃ sections, banner.cut 2 = .ok sections ∧ banner.Tiles 2 1 sections ∧
        sections.length = 6 ∧
        ¬ (banner.height % 2 < banner.height / 2 ∧ banner.width % 2 < banner.width / 2) := by
  intro banner
  have two : 1 ≤ 2 := by decide
  have height : 2 ≤ banner.height := by decide
  have width : 2 ≤ banner.width := by decide
  obtain ⟨sections, rows, columns, cut, tiles, length, isRows, isColumns, -, -, exact_iff⟩ :=
    sections_per_side two height width
  have six : sections.length = 6 := by
    rw [length, isRows, isColumns]
    decide
  have sides : banner.height / 2 = 2 ∧ banner.width / 2 = 1 := by decide
  rw [sides.1, sides.2] at tiles
  refine ⟨two, height, width, sections, cut, tiles, six, fun fits => ?_⟩
  have four := exact_iff.mpr fits
  omega

/-- The grid is not always the number of sections per side. -/
theorem not_grid_per_side :
    ¬ ∀ (n : Nat) (img : Image), 1 ≤ n → n ≤ img.height → n ≤ img.width →
      ∃ sections, img.cut n = .ok sections ∧ sections.length = n * n := by
  intro claimed
  let square := Image.ofFn 3 3 .gray fun _ _ _ => 0
  obtain ⟨sections, cut, length⟩ := claimed 2 square (by decide) (by decide) (by decide)
  rw [cut_natCast (by decide)] at cut
  cases cut
  revert length
  rw [length_sections]
  decide

end Image

end PictureEvolution
