import Mathlib.Data.Finset.Prod
import Mathlib.Data.List.NodupEquivFin
import Mathlib.Data.Set.Function
import PictureEvolution.Image.Retouch
import PictureEvolution.Proofs.Image.Shape

/-!
# Moving pixels

Turning a square and scrambling the quadrants read an image through a permutation of its positions.
The permutation is drawn from the height and the width of the image alone, so that no pixel is lost
or doubled, and what changes each sample by itself can as well be done before as after.
-/

namespace PictureEvolution

namespace Image

def positions (height width : Nat) : Finset (Nat × Nat) :=
  Finset.range height ×ˢ Finset.range width

@[simp] theorem mem_positions {height width : Nat} {p : Nat × Nat} :
    p ∈ positions height width ↔ p.1 < height ∧ p.2 < width := by
  simp [positions]

def pixel (img : Image) (p : Nat × Nat) : List UInt8 :=
  (List.range img.layout.samples).map (img.get p.1 p.2)

/-- The pixels of an image, each as often as it occurs. -/
def pixels (img : Image) : Multiset (List UInt8) :=
  (positions img.height img.width).val.map img.pixel

def Permutes (height width : Nat) (place : Nat × Nat → Nat × Nat) : Prop :=
  Set.BijOn place (positions height width) (positions height width)

structure Moves (place : Nat × Nat → Nat × Nat) (img result : Image) : Prop where
  shape : result.SameShape img
  permutes : Permutes img.height img.width place
  get : ∀ y < img.height, ∀ x < img.width, ∀ c < img.layout.samples,
    result.get y x c = img.get (place (y, x)).1 (place (y, x)).2 c
  pixels : result.pixels = img.pixels

/-- The image whose pixel at a position is the given image's pixel at the mapped position. -/
def readThrough (place : Nat × Nat → Nat × Nat) (img : Image) : Image :=
  ofFn img.height img.width img.layout fun y x c =>
    img.get (place (y, x)).1 (place (y, x)).2 c

section ReadThrough

variable {place : Nat × Nat → Nat × Nat} {img : Image}

theorem Permutes.inside {height width : Nat} (h : Permutes height width place) {y x : Nat}
    (hy : y < height) (hx : x < width) :
    (place (y, x)).1 < height ∧ (place (y, x)).2 < width := by
  have inside : place (y, x) ∈ positions height width :=
    h.mapsTo (Finset.mem_coe.mpr (mem_positions.mpr ⟨hy, hx⟩))
  exact mem_positions.mp inside

/-- Two maps that lead back from each other permute the positions. -/
theorem permutes_of_inverse {height width : Nat} {back : Nat × Nat → Nat × Nat}
    (inside : ∀ p ∈ positions height width, place p ∈ positions height width)
    (inside' : ∀ p ∈ positions height width, back p ∈ positions height width)
    (left : ∀ p ∈ positions height width, back (place p) = p)
    (right : ∀ p ∈ positions height width, place (back p) = p) : Permutes height width place :=
  Set.InvOn.bijOn ⟨fun p hp => left p hp, fun p hp => right p hp⟩ inside inside'

theorem get_readThrough (place : Nat × Nat → Nat × Nat) (img : Image) {y x c : Nat}
    (hy : y < img.height) (hx : x < img.width) (hc : c < img.layout.samples) :
    (img.readThrough place).get y x c = img.get (place (y, x)).1 (place (y, x)).2 c :=
  get_ofFn hy hx hc

theorem readThrough_id : img.readThrough id = img := by
  refine ext_get rfl rfl rfl fun y hy x hx c hc => ?_
  exact get_readThrough id img hy hx hc

theorem pixel_readThrough {p : Nat × Nat} (hp : p ∈ positions img.height img.width) :
    (img.readThrough place).pixel p = img.pixel (place p) := by
  obtain ⟨hy, hx⟩ := mem_positions.mp hp
  refine List.map_congr_left fun c hc => ?_
  exact get_readThrough place img hy hx (List.mem_range.mp hc)

theorem Permutes.pixels_readThrough (h : Permutes img.height img.width place) :
    (img.readThrough place).pixels = img.pixels := by
  have image : (positions img.height img.width).image place = positions img.height img.width := by
    rw [← Finset.coe_inj, Finset.coe_image]
    exact h.image_eq
  calc
    (img.readThrough place).pixels
    _ = (positions img.height img.width).val.map (img.pixel ∘ place) :=
      Multiset.map_congr rfl fun p hp => pixel_readThrough hp
    _ = ((positions img.height img.width).val.map place).map img.pixel :=
      (Multiset.map_map _ _ _).symm
    _ = img.pixels := by rw [← Finset.image_val_of_injOn h.injOn, image, pixels]

theorem Permutes.moves (h : Permutes img.height img.width place) :
    Moves place img (img.readThrough place) where
  shape := sameShape_ofFn img _
  permutes := h
  get _ hy _ hx _ hc := get_readThrough place img hy hx hc
  pixels := h.pixels_readThrough

/-- A change of every sample by itself and a permutation of the positions can be done in either
order. -/
theorem Permutes.map_readThrough (h : Permutes img.height img.width place) (f : UInt8 → UInt8) :
    (img.map f).readThrough place = (img.readThrough place).map f := by
  refine ofFn_congr fun y hy x hx c hc => ?_
  obtain ⟨hy', hx'⟩ := h.inside hy hx
  exact (get_ofFn hy' hx' hc).trans (congrArg f (get_readThrough place img hy hx hc).symm)

end ReadThrough

/-- An operation reads an image through a permutation of its positions, which it draws from the
height and the width alone; inverting all samples before or after makes no difference. -/
structure OnlyMoves {ω : Type} (op : Image → Draw ω Image)
    (places : Nat → Nat → Draw ω (Nat × Nat → Nat × Nat)) : Prop where
  moves : ∀ img w, Moves (places img.height img.width w).1 img (op img w).1
  draws : ∀ img w, (op img w).2 = (places img.height img.width w).2
  invert : ∀ img w, op img.invert w = ((op img w).1.invert, (op img w).2)

theorem onlyMoves_of_eq {ω : Type} {op : Image → Draw ω Image}
    {places : Nat → Nat → Draw ω (Nat × Nat → Nat × Nat)}
    (reads : ∀ img, op img = (img.readThrough ·) <$> places img.height img.width)
    (permutes : ∀ height width, Draw.Gives (Permutes height width) (places height width)) :
    OnlyMoves op places where
  moves img w := by
    rw [reads]
    exact (permutes img.height img.width w).moves
  draws img w := by
    rw [reads]
    rfl
  invert img w := by
    rw [reads, reads]
    exact Prod.ext ((permutes img.height img.width w).map_readThrough _) rfl

/-! ### Turning a square -/

structure Square where
  top : Nat
  left : Nat
  side : Nat

namespace Square

def window (s : Square) : Window := .box s.top s.left s.side s.side

def Within (s : Square) (height width : Nat) : Prop :=
  s.top + s.side ≤ height ∧ s.left + s.side ≤ width

/-- Where the pixel at a position comes from when the square is turned by a quarter turn. -/
def quarter (s : Square) (p : Nat × Nat) : Nat × Nat :=
  if s.window.Holds p.1 p.2 then
    (s.top + (p.2 - s.left), s.left + (s.side - 1 - (p.1 - s.top)))
  else p

variable {s : Square} {p : Nat × Nat} {i j : Nat}

theorem quarter_of_outside (h : ¬ s.window.Holds p.1 p.2) : s.quarter p = p := if_neg h

theorem holds_offset (hi : i < s.side) (hj : j < s.side) :
    s.window.Holds (s.top + i) (s.left + j) :=
  ⟨⟨Nat.le_add_right _ _, Nat.add_lt_add_left hi _⟩, Nat.le_add_right _ _,
    Nat.add_lt_add_left hj _⟩

theorem quarter_offset (hi : i < s.side) (hj : j < s.side) :
    s.quarter (s.top + i, s.left + j) = (s.top + j, s.left + (s.side - 1 - i)) := by
  unfold quarter
  rw [if_pos (holds_offset hi hj), Nat.add_sub_cancel_left, Nat.add_sub_cancel_left]

theorem exists_offset (h : s.window.Holds p.1 p.2) :
    ∃ i j, i < s.side ∧ j < s.side ∧ p = (s.top + i, s.left + j) := by
  obtain ⟨y, x⟩ := p
  obtain ⟨⟨above, below⟩, left, right⟩ := h
  dsimp only [window, Window.box] at above below left right
  exact ⟨y - s.top, x - s.left, by omega, by omega, by rw [Nat.add_sub_cancel' above,
    Nat.add_sub_cancel' left]⟩

/-- Four quarter turns are none. -/
theorem quarter_four (s : Square) (p : Nat × Nat) : s.quarter^[4] p = p := by
  by_cases holds : s.window.Holds p.1 p.2
  · obtain ⟨i, j, hi, hj, rfl⟩ := exists_offset holds
    have mirrored (n : Nat) (hn : n < s.side) : s.side - 1 - n < s.side := by omega
    have back (n : Nat) (hn : n < s.side) : s.side - 1 - (s.side - 1 - n) = n := by omega
    simp only [Function.iterate_succ_apply, Function.iterate_zero_apply]
    rw [quarter_offset hi hj, quarter_offset hj (mirrored i hi),
      quarter_offset (mirrored i hi) (mirrored j hj), quarter_offset (mirrored j hj) (by omega),
      back i hi, back j hj]
  · exact Function.iterate_fixed (quarter_of_outside holds) 4

theorem quarter_mem {height width : Nat} (within : s.Within height width)
    (hp : p ∈ positions height width) : s.quarter p ∈ positions height width := by
  by_cases holds : s.window.Holds p.1 p.2
  · obtain ⟨i, j, hi, hj, rfl⟩ := exists_offset holds
    obtain ⟨rows, columns⟩ := within
    rw [quarter_offset hi hj, mem_positions]
    dsimp only
    omega
  · rwa [quarter_of_outside holds]

theorem permutes_turns {height width : Nat} (within : s.Within height width) (turns : Nat) :
    Permutes height width s.quarter^[turns] := by
  have inside : Set.MapsTo s.quarter (positions height width) (positions height width) :=
    fun _ => quarter_mem within
  have once : Permutes height width s.quarter :=
    permutes_of_inverse inside (inside.iterate 3) (fun p _ => s.quarter_four p)
      fun p _ => (Function.iterate_succ_apply' s.quarter 3 p).symm.trans (s.quarter_four p)
  exact Set.BijOn.iterate once turns

section Slice

variable {img : Image} (within : s.Within img.height img.width) (turns : Nat)

include within

theorem size_turn_slice : ((img.slice s.window).turn turns).height = s.side ∧
    ((img.slice s.window).turn turns).width = s.side :=
  size_turn turns (height_slice_box within.1) (width_slice_box within.2)

theorem get_turn_slice {c : Nat} (hi : i < s.side) (hj : j < s.side)
    (hc : c < img.layout.samples) :
    ((img.slice s.window).turn turns).get i j c =
      img.get (s.quarter^[turns] (s.top + i, s.left + j)).1
        (s.quarter^[turns] (s.top + i, s.left + j)).2 c := by
  induction turns generalizing i j with
  | zero => exact get_slice_box within.1 within.2 hi hj hc
  | succ turns ih =>
    obtain ⟨height, width⟩ := size_turn_slice within turns
    have layout := layout_turn turns (img.slice s.window)
    rw [Function.iterate_succ_apply, quarter_offset hi hj, ← ih hj (by omega), turn,
      get_rotate _ (hi.trans_eq width.symm) (hj.trans_eq height.symm) (layout ▸ hc), width]

/-- Writing the turned slice back is reading through the turns of the square. -/
theorem overwrite_turn (fits : ((img.slice s.window).turn turns).Fits img s.window) :
    img.overwrite s.window ((img.slice s.window).turn turns) fits =
      img.readThrough s.quarter^[turns] := by
  refine ext_get rfl rfl rfl fun y hy x hx c hc => ?_
  rw [get_overwrite fits hy hx hc, get_readThrough _ img hy hx hc]
  split
  next holds =>
    obtain ⟨i, j, hi, hj, same⟩ := exists_offset (p := (y, x)) holds
    obtain ⟨rfl, rfl⟩ := Prod.mk.inj same
    have row : s.top + i - s.window.top = i := Nat.add_sub_cancel_left _ _
    have column : s.left + j - s.window.left = j := Nat.add_sub_cancel_left _ _
    rw [row, column, get_turn_slice within turns hi hj hc]
  next outside => rw [Function.iterate_fixed (quarter_of_outside (p := (y, x)) outside)]

omit within in
theorem turn_eq_rotate : img.turn turns = rotate^[turns] img := by
  induction turns with
  | zero => rfl
  | succ turns ih => rw [Function.iterate_succ_apply', ← ih, turn]

/-- Reading through the turns of a square turns its slice. -/
theorem slice_readThrough :
    (img.readThrough s.quarter^[turns]).slice s.window = rotate^[turns] (img.slice s.window) := by
  have height : ((img.readThrough s.quarter^[turns]).slice s.window).height = s.side :=
    height_slice_box within.1
  have width : ((img.readThrough s.quarter^[turns]).slice s.window).width = s.side :=
    width_slice_box within.2
  obtain ⟨height', width'⟩ := size_turn_slice within turns
  rw [← turn_eq_rotate]
  refine ext_get (height.trans height'.symm) (width.trans width'.symm)
    (layout_turn turns (img.slice s.window)).symm
    fun i hi j hj c hc => ?_
  rw [height] at hi
  rw [width] at hj
  have read : ((img.readThrough s.quarter^[turns]).slice s.window).get i j c =
      (img.readThrough s.quarter^[turns]).get (s.top + i) (s.left + j) c :=
    get_slice_box within.1 within.2 hi hj hc
  have moved := get_readThrough s.quarter^[turns] img (y := s.top + i) (x := s.left + j)
    (by have := within.1; omega) (by have := within.2; omega) hc
  rw [get_turn_slice within turns hi hj hc, ← moved]
  exact read

end Slice

end Square

/-! ### Scrambling the quadrants -/

/-- Where the pixel at a position comes from when quadrants of a given height and width are put into
an order. -/
def quadrantPlace (height width : Nat) (order : List (Fin 4)) (p : Nat × Nat) : Nat × Nat :=
  if p.1 < 2 * height ∧ p.2 < 2 * width then
    let k := origin order (p.1 / height * 2 + p.2 / width)
    (k / 2 * height + p.1 % height, k % 2 * width + p.2 % width)
  else p

/-- Four blocks of some height and width come to each other's places in an order, and all other
positions stay. -/
structure MovesQuadrants (height width : Nat) (order : Equiv.Perm (Fin 4))
    (place : Nat × Nat → Nat × Nat) : Prop where
  blocks : ∀ k : Fin 4, ∀ i < height, ∀ j < width,
    place (k / 2 * height + i, k % 2 * width + j) =
      (order k / 2 * height + i, order k % 2 * width + j)
  rest : ∀ p : Nat × Nat, ¬ (p.1 < 2 * height ∧ p.2 < 2 * width) → place p = p

section Quadrants

variable {height width : Nat} {order : Equiv.Perm (Fin 4)} {place other : Nat × Nat → Nat × Nat}
variable {p : Nat × Nat}

theorem exists_quadrant (h : p.1 < 2 * height ∧ p.2 < 2 * width) :
    ∃ k : Fin 4, ∃ i < height, ∃ j < width, p = (k / 2 * height + i, k % 2 * width + j) := by
  obtain ⟨y, x⟩ := p
  obtain ⟨hy, hx⟩ := h
  dsimp only at hy hx
  have row : y / height < 2 := Nat.div_lt_of_lt_mul (by rwa [Nat.mul_comm])
  have column : x / width < 2 := Nat.div_lt_of_lt_mul (by rwa [Nat.mul_comm])
  obtain ⟨first, second⟩ := number_div_mod (y / height) column
  refine ⟨⟨y / height * 2 + x / width, by omega⟩, y % height, Nat.mod_lt _ (by omega), x % width,
    Nat.mod_lt _ (by omega), ?_⟩
  rw [first, second, Nat.div_add_mod', Nat.div_add_mod']

/-- No quadrant begins beyond the middle. -/
theorem quadrant_le (k : Fin 4) (height width : Nat) :
    k / 2 * height ≤ height ∧ k % 2 * width ≤ width := by
  have row : k.val / 2 ≤ 1 := by omega
  have column : k.val % 2 ≤ 1 := by omega
  exact ⟨(Nat.mul_le_mul_right height row).trans_eq (Nat.one_mul height),
    (Nat.mul_le_mul_right width column).trans_eq (Nat.one_mul width)⟩

theorem quadrant_mem (k : Fin 4) {i j : Nat} (hi : i < height) (hj : j < width) :
    k / 2 * height + i < 2 * height ∧ k % 2 * width + j < 2 * width := by
  obtain ⟨row, column⟩ := quadrant_le k height width
  omega

theorem quadrantPlace_block (origins : List (Fin 4)) (k : Fin 4) {i j : Nat} (hi : i < height)
    (hj : j < width) :
    quadrantPlace height width origins (k / 2 * height + i, k % 2 * width + j) =
      (origin origins k / 2 * height + i, origin origins k % 2 * width + j) := by
  obtain ⟨row, below⟩ := number_div_mod (k / 2) hi
  obtain ⟨column, behind⟩ := number_div_mod (k % 2) hj
  have number : k.val / 2 * 2 + k.val % 2 = k := Nat.div_add_mod' k 2
  unfold quadrantPlace
  dsimp only
  rw [if_pos (quadrant_mem k hi hj), row, column, number, below, behind]

theorem movesQuadrants_quadrantPlace {origins : List (Fin 4)}
    (lists : ∀ k : Fin 4, origin origins k = order k) :
    MovesQuadrants height width order (quadrantPlace height width origins) where
  blocks k i hi j hj := by
    rw [quadrantPlace_block origins k hi hj, lists]
  rest p h := if_neg h

namespace MovesQuadrants

theorem back (h : MovesQuadrants height width order place)
    (h' : MovesQuadrants height width order.symm other) : other (place p) = p := by
  by_cases inside : p.1 < 2 * height ∧ p.2 < 2 * width
  · obtain ⟨k, i, hi, j, hj, rfl⟩ := exists_quadrant inside
    rw [h.blocks k i hi j hj, h'.blocks (order k) i hi j hj, Equiv.symm_apply_apply]
  · rw [h.rest p inside, h'.rest p inside]

theorem mem {height' width' : Nat} (h : MovesQuadrants height width order place)
    (rows : 2 * height ≤ height') (columns : 2 * width ≤ width')
    (hp : p ∈ positions height' width') : place p ∈ positions height' width' := by
  by_cases inside : p.1 < 2 * height ∧ p.2 < 2 * width
  · obtain ⟨k, i, hi, j, hj, rfl⟩ := exists_quadrant inside
    rw [h.blocks k i hi j hj, mem_positions]
    exact (quadrant_mem (order k) hi hj).imp (Nat.lt_of_lt_of_le · rows)
      (Nat.lt_of_lt_of_le · columns)
  · rwa [h.rest p inside]

theorem permutes {height' width' : Nat} (h : MovesQuadrants height width order place)
    (rows : 2 * height ≤ height') (columns : 2 * width ≤ width') :
    Permutes height' width' place := by
  have lists (k : Fin 4) : origin (List.ofFn order.symm) k = order.symm k := by
    rw [origin, List.getD_eq_getElem?_getD, List.getElem?_ofFn, dif_pos k.isLt, Option.getD_some]
  have h' : MovesQuadrants height width order.symm _ := movesQuadrants_quadrantPlace lists
  exact permutes_of_inverse (fun _ => h.mem rows columns) (fun _ => h'.mem rows columns)
    (fun _ _ => h.back h') fun _ _ => h'.back h

end MovesQuadrants

/-- A rearrangement of all four numbers lists the values of a permutation. -/
theorem exists_order {origins : List (Fin 4)} (h : origins.Perm (List.finRange 4)) :
    ∃ order : Equiv.Perm (Fin 4), ∀ k : Fin 4, origin origins k = order k := by
  have length : origins.length = 4 := h.length_eq.trans List.length_finRange
  have nodup : origins.Nodup := h.nodup_iff.mpr (List.nodup_finRange 4)
  have all (k : Fin 4) : k ∈ origins := h.mem_iff.mpr (List.mem_finRange k)
  refine ⟨(finCongr length.symm).trans (nodup.getEquivOfForallMemList origins all), fun k => ?_⟩
  have lt : k.val < origins.length := by omega
  rw [origin, List.getD_eq_getElem?_getD, List.getElem?_eq_getElem lt, Option.getD_some]
  rfl

end Quadrants

section Ordered

variable (img : Image) {k l : Fin 4} {y x i j c : Nat}

theorem quadrant_eq (k : Fin 4) :
    img.quadrant k = .box (k / 2 * (img.height / 2)) (k % 2 * (img.width / 2)) (img.height / 2)
      (img.width / 2) := by
  match k with
  | 0 => simp [quadrant]
  | 1 => simp [quadrant]
  | 2 => simp [quadrant]
  | 3 => simp [quadrant]

theorem holds_quadrant : (img.quadrant k).Holds y x ↔
    (k / 2 * (img.height / 2) ≤ y ∧ y < k / 2 * (img.height / 2) + img.height / 2) ∧
      k % 2 * (img.width / 2) ≤ x ∧ x < k % 2 * (img.width / 2) + img.width / 2 := by
  rw [quadrant_eq]
  rfl

/-- Quadrants do not overlap. -/
theorem eq_of_holds (h : (img.quadrant k).Holds y x) (h' : (img.quadrant l).Holds y x) : k = l := by
  rw [holds_quadrant] at h h'
  obtain ⟨⟨above, below⟩, left, right⟩ := h
  obtain ⟨⟨above', below'⟩, left', right'⟩ := h'
  rw [← Nat.succ_mul] at below right below' right'
  have rows := (Nat.div_eq_of_lt_le above below).symm.trans (Nat.div_eq_of_lt_le above' below')
  have columns := (Nat.div_eq_of_lt_le left right).symm.trans (Nat.div_eq_of_lt_le left' right')
  omega

theorem get_slice_quadrant (k : Fin 4) (hi : i < img.height / 2) (hj : j < img.width / 2)
    (hc : c < img.layout.samples) :
    (img.slice (img.quadrant k)).get i j c =
      img.get (k / 2 * (img.height / 2) + i) (k % 2 * (img.width / 2) + j) c := by
  obtain ⟨row, column⟩ := quadrant_le k (img.height / 2) (img.width / 2)
  rw [quadrant_eq]
  exact get_slice_box (by omega) (by omega) hi hj hc

/-- Each quadrant shows the one that the order puts there. -/
theorem get_overwriteAll_block (origins : List (Fin 4)) (k : Fin 4) (hi : i < img.height / 2)
    (hj : j < img.width / 2) (hc : c < img.layout.samples) :
    (img.overwriteAll (img.ordered origins) (img.ordered_fit origins)).get
        (k / 2 * (img.height / 2) + i) (k % 2 * (img.width / 2) + j) c =
      (img.slice (img.quadrant (origin origins k))).get i j c := by
  obtain ⟨hy, hx⟩ := quadrant_mem k hi hj
  have holds : (img.quadrant k).Holds (k / 2 * (img.height / 2) + i)
      (k % 2 * (img.width / 2) + j) := by
    rw [holds_quadrant]
    omega
  have member : (img.quadrant k, img.slice (img.quadrant (origin origins k))) ∈
      img.ordered origins := List.mem_map.mpr ⟨k, List.mem_finRange k, rfl⟩
  have only : ∀ q ∈ img.ordered origins, q.1.Holds (k / 2 * (img.height / 2) + i)
      (k % 2 * (img.width / 2) + j) →
        q = (img.quadrant k, img.slice (img.quadrant (origin origins k))) := by
    intro q hq holds'
    obtain ⟨l, -, rfl⟩ := List.mem_map.mp hq
    rw [eq_of_holds img holds' holds]
  rw [get_overwriteAll _ (by omega) (by omega) hc member holds only]
  simp only [quadrant_eq img k, Window.box, Nat.add_sub_cancel_left]

/-- Writing the ordered quadrants is reading through their order. -/
theorem overwriteAll_ordered (origins : List (Fin 4)) :
    img.overwriteAll (img.ordered origins) (img.ordered_fit origins) =
      img.readThrough (quadrantPlace (img.height / 2) (img.width / 2) origins) := by
  obtain ⟨height, width, layout⟩ := shape_overwriteAll (img.ordered_fit origins)
  refine ext_get height width layout fun y hy x hx c hc => ?_
  rw [height] at hy
  rw [width] at hx
  rw [layout] at hc
  rw [get_readThrough _ img hy hx hc]
  by_cases inside : y < 2 * (img.height / 2) ∧ x < 2 * (img.width / 2)
  · obtain ⟨k, i, hi, j, hj, same⟩ := exists_quadrant (p := (y, x)) inside
    obtain ⟨rfl, rfl⟩ := Prod.mk.inj same
    rw [get_overwriteAll_block img origins k hi hj hc, quadrantPlace_block origins k hi hj,
      get_slice_quadrant img _ hi hj hc]
  · have outside : ∀ q ∈ img.ordered origins, ¬ q.1.Holds y x := by
      intro q hq holds
      obtain ⟨k, -, rfl⟩ := List.mem_map.mp hq
      obtain ⟨⟨-, below⟩, -, right⟩ := (holds_quadrant img).mp holds
      obtain ⟨row, column⟩ := quadrant_le k (img.height / 2) (img.width / 2)
      omega
    rw [get_overwriteAll_of_outside _ hy hx hc outside, quadrantPlace, if_neg inside]

end Ordered

/-! ### What is drawn -/

section Drawn

variable {ω : Type} [Source ω]

/-- The places that a drawn turn reads, for an image of some height and width. -/
def turnPlaces (height width : Nat) : Draw ω (Nat × Nat → Nat × Nat) :=
  if h : 0 < height ∧ 0 < width then do
    let x ← Draw.below width h.2
    let y ← Draw.below height h.1
    let side ← Draw.between 1 (min (width - x) (height - y)) (by omega)
    let turns ← drawTurns
    return (Square.mk y x side).quarter^[turns]
  else
    pure id

/-- The places that a drawn order of the quadrants reads, for an image of some height and width. -/
def scramblePlaces (height width : Nat) : Draw ω (Nat × Nat → Nat × Nat) :=
  if height / 2 = 0 ∨ width / 2 = 0 then
    pure id
  else do
    let order ← Draw.shuffle (List.finRange 4)
    return quadrantPlace (height / 2) (width / 2) order

theorem rotateSection_eq (img : Image) :
    (img.rotateSection : Draw ω Image) =
      (img.readThrough ·) <$> turnPlaces img.height img.width := by
  unfold rotateSection turnPlaces
  split
  · simp only [map_bind, map_pure]
    refine bind_congr fun x => bind_congr fun y => bind_congr fun side => bind_congr fun turns => ?_
    have fits := side.2
    have within : (Square.mk y x side).Within img.height img.width := by
      constructor <;> dsimp only <;> omega
    exact congrArg pure (Square.overwrite_turn within turns _)
  · exact congrArg pure readThrough_id.symm

theorem scrambleQuadrants_eq (img : Image) :
    (img.scrambleQuadrants : Draw ω Image) =
      (img.readThrough ·) <$> scramblePlaces img.height img.width := by
  unfold scrambleQuadrants scramblePlaces
  split
  · exact congrArg pure readThrough_id.symm
  · simp only [map_bind, map_pure, overwriteAll_ordered]

/-- A square inside an image of some height and width is turned by one, two or three quarter turns,
and all other positions stay. -/
structure TurnsSquare (height width : Nat) (place : Nat × Nat → Nat × Nat) (s : Square)
    (turns : Nat) : Prop where
  within : s.Within height width
  some : 1 ≤ s.side
  some_turns : 1 ≤ turns ∧ turns ≤ 3
  permutes : Permutes height width place
  block : ∀ img : Image, img.height = height → img.width = width →
    (img.readThrough place).slice s.window = rotate^[turns] (img.slice s.window)
  rest : ∀ p, ¬ s.window.Holds p.1 p.2 → place p = p

theorem gives_drawTurns :
    Draw.Gives (fun turns => 1 ≤ turns ∧ turns ≤ 3) (drawTurns : Draw ω Nat) := by
  refine (Draw.gives_choose _ _).mono fun turns member => ?_
  simp only [List.mem_cons, List.not_mem_nil, or_false] at member
  omega

theorem gives_turnPlaces {height width : Nat} (some : 0 < height ∧ 0 < width) :
    Draw.Gives (fun place => ∃ s turns, TurnsSquare height width place s turns)
      (turnPlaces height width : Draw ω (Nat × Nat → Nat × Nat)) := by
  unfold turnPlaces
  rw [dif_pos some]
  refine (Draw.Gives.any _).bind fun x _ => (Draw.Gives.any _).bind fun y _ =>
    (Draw.Gives.any _).bind fun side _ => gives_drawTurns.bind
      fun turns some_turns => .pure ⟨⟨y, x, side⟩, turns, ?_⟩
  have fits := side.2
  have within : (Square.mk y x side).Within height width := by
    constructor <;> dsimp only <;> omega
  refine ⟨within, side.2.1, some_turns, Square.permutes_turns within turns, ?_, ?_⟩
  · rintro img rfl rfl
    exact Square.slice_readThrough within turns
  · intro p outside
    exact Function.iterate_fixed (Square.quarter_of_outside outside) turns

theorem gives_scramblePlaces (height width : Nat) :
    Draw.Gives (fun place => ∃ order, MovesQuadrants (height / 2) (width / 2) order place)
      (scramblePlaces height width : Draw ω (Nat × Nat → Nat × Nat)) := by
  unfold scramblePlaces
  split
  · exact .pure ⟨Equiv.refl _, fun _ _ _ _ _ => rfl, fun _ _ => rfl⟩
  · refine (Draw.gives_shuffle _).bind fun origins perm => .pure ?_
    obtain ⟨order, lists⟩ := exists_order perm
    exact ⟨order, movesQuadrants_quadrantPlace lists⟩

theorem turnPlaces_of_empty {height width : Nat} (none : ¬ (0 < height ∧ 0 < width)) :
    (turnPlaces height width : Draw ω (Nat × Nat → Nat × Nat)) = pure id :=
  dif_neg none

theorem onlyMoves_rotateSection : OnlyMoves (rotateSection : Image → Draw ω Image) turnPlaces := by
  refine onlyMoves_of_eq rotateSection_eq fun height width => ?_
  by_cases some : 0 < height ∧ 0 < width
  · exact (gives_turnPlaces some).mono fun place ⟨_, _, turns⟩ => turns.permutes
  · rw [turnPlaces_of_empty some]
    exact .pure (Set.bijOn_id _)

theorem onlyMoves_scrambleQuadrants :
    OnlyMoves (scrambleQuadrants : Image → Draw ω Image) scramblePlaces := by
  refine onlyMoves_of_eq scrambleQuadrants_eq fun height width =>
    (gives_scramblePlaces height width).mono ?_
  rintro _ ⟨order, moves⟩
  exact moves.permutes (Nat.mul_div_le height 2) (Nat.mul_div_le width 2)

/-- Turning a square and scrambling the quadrants only move pixels. A turn leaves all pixels outside
one square inside the image where they are, and scrambling moves the four quadrants as blocks and
nothing else. -/
theorem rearrangements_move_pixels :
    OnlyMoves (rotateSection : Image → Draw ω Image) turnPlaces ∧
    OnlyMoves (scrambleQuadrants : Image → Draw ω Image) scramblePlaces ∧
    ∀ (height width : Nat) (w : ω),
      (0 < height ∧ 0 < width → ∃ (s : Square) (turns : Nat),
        TurnsSquare height width (turnPlaces height width w).1 s turns) ∧
      (¬ (0 < height ∧ 0 < width) → turnPlaces height width w = (id, w)) ∧
      ∃ order : Equiv.Perm (Fin 4),
        MovesQuadrants (height / 2) (width / 2) order (scramblePlaces height width w).1 := by
  refine ⟨onlyMoves_rotateSection, onlyMoves_scrambleQuadrants, fun height width w => ⟨?_, ?_, ?_⟩⟩
  · intro some
    exact gives_turnPlaces some w
  · intro none
    rw [turnPlaces_of_empty none]
    rfl
  · exact gives_scramblePlaces height width w

end Drawn

end Image

end PictureEvolution
