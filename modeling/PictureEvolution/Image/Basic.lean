/-!
# Images

An image is a grid of pixels with one or more samples of eight bits each, stored row by row. Every
operation on images builds its result with `Image.ofFn`, so it is known once its shape and its
samples are known: `get_ofFn` reads them back, and `ext_get` says that they determine the image.
-/

namespace PictureEvolution

inductive Layout where
  | gray
  | channels (count : Nat)
deriving DecidableEq, Repr

def Layout.samples : Layout → Nat
  | gray => 1
  | channels count => count

/-- A grid of pixels, row by row. -/
structure Image where
  height : Nat
  width : Nat
  layout : Layout
  bytes : Array UInt8
  size_bytes : bytes.size = height * width * layout.samples
deriving DecidableEq

namespace Image

/-- Counted row by row, a place has a number below the number of places. -/
theorem number_lt {row column rows columns : Nat} (hr : row < rows) (hc : column < columns) :
    row * columns + column < rows * columns :=
  calc row * columns + column < row * columns + columns := Nat.add_lt_add_left hc _
    _ = (row + 1) * columns := (Nat.succ_mul _ _).symm
    _ ≤ rows * columns := Nat.mul_le_mul_right columns hr

/-- Counted row by row, the number of a place tells its row and its column. -/
theorem number_div_mod (row : Nat) {column columns : Nat} (hc : column < columns) :
    (row * columns + column) / columns = row ∧ (row * columns + column) % columns = column := by
  have some : 0 < columns := Nat.zero_lt_of_lt hc
  rw [Nat.mul_comm, Nat.mul_add_div some, Nat.mul_add_mod, Nat.div_eq_of_lt hc, Nat.mod_eq_of_lt hc]
  exact ⟨Nat.add_zero row, rfl⟩

def index (width samples y x c : Nat) : Nat := (y * width + x) * samples + c

theorem index_lt {height width samples y x c : Nat} (hy : y < height) (hx : x < width)
    (hc : c < samples) : index width samples y x c < height * width * samples :=
  number_lt (number_lt hy hx) hc

/-- The sample at a row, a column and a channel; 0 outside the image. -/
def get (img : Image) (y x c : Nat) : UInt8 :=
  img.bytes.getD (index img.width img.layout.samples y x c) 0

def ofFn (height width : Nat) (layout : Layout) (f : Nat → Nat → Nat → UInt8) : Image where
  height := height
  width := width
  layout := layout
  bytes := Array.ofFn fun i : Fin (height * width * layout.samples) =>
    f (i / layout.samples / width) (i / layout.samples % width) (i % layout.samples)
  size_bytes := Array.size_ofFn

section Shape

variable (height width : Nat) (layout : Layout) (f : Nat → Nat → Nat → UInt8)

@[simp] theorem height_ofFn : (ofFn height width layout f).height = height := rfl
@[simp] theorem width_ofFn : (ofFn height width layout f).width = width := rfl
@[simp] theorem layout_ofFn : (ofFn height width layout f).layout = layout := rfl

end Shape

theorem get_ofFn {height width : Nat} {layout : Layout} {f : Nat → Nat → Nat → UInt8} {y x c : Nat}
    (hy : y < height) (hx : x < width) (hc : c < layout.samples) :
    (ofFn height width layout f).get y x c = f y x c := by
  have hi := index_lt hy hx hc
  obtain ⟨pixel, channel⟩ := number_div_mod (y * width + x) hc
  obtain ⟨row, column⟩ := number_div_mod y hx
  simp only [get, ofFn]
  rw [Array.getD_eq_getD_getElem?, Array.getElem?_ofFn, dif_pos hi]
  simp only [index, pixel, channel, row, column, Option.getD_some]

/-- Shape and samples determine an image. -/
theorem ext_get {a b : Image} (hh : a.height = b.height) (hw : a.width = b.width)
    (hl : a.layout = b.layout)
    (h : ∀ y < a.height, ∀ x < a.width, ∀ c < a.layout.samples, a.get y x c = b.get y x c) :
    a = b := by
  obtain ⟨height, width, layout, bytes, size⟩ := a
  obtain ⟨height', width', layout', bytes', size'⟩ := b
  dsimp only at hh hw hl
  subst hh hw hl
  congr
  apply Array.ext (size.trans size'.symm)
  intro i hi hi'
  dsimp only at h
  rw [size] at hi
  have hs0 : 0 < layout.samples := Nat.pos_of_ne_zero (by intro h0; simp [h0] at hi)
  have hp : i / layout.samples < height * width := Nat.div_lt_of_lt_mul (by rwa [Nat.mul_comm])
  have hw0 : 0 < width := Nat.pos_of_ne_zero (by intro h0; simp [h0] at hp)
  have hy : i / layout.samples / width < height := Nat.div_lt_of_lt_mul (by rwa [Nat.mul_comm])
  have hget := h _ hy _ (Nat.mod_lt (i / layout.samples) hw0) _ (Nat.mod_lt i hs0)
  have hindex : index width layout.samples (i / layout.samples / width) (i / layout.samples % width)
      (i % layout.samples) = i := by
    rw [index, Nat.mul_comm _ width, Nat.div_add_mod, Nat.mul_comm, Nat.div_add_mod]
  simp only [get, hindex] at hget
  rw [Array.getD_eq_getD_getElem?, Array.getD_eq_getD_getElem?,
    Array.getElem?_eq_getElem (by omega), Array.getElem?_eq_getElem (by omega)] at hget
  simpa using hget

/-- Only what a function gives inside the image matters. -/
theorem ofFn_congr {height width : Nat} {layout : Layout} {f g : Nat → Nat → Nat → UInt8}
    (h : ∀ y < height, ∀ x < width, ∀ c < layout.samples, f y x c = g y x c) :
    ofFn height width layout f = ofFn height width layout g := by
  refine ext_get rfl rfl rfl fun y (hy : y < height) x (hx : x < width) c
    (hc : c < layout.samples) => ?_
  rw [get_ofFn hy hx hc, get_ofFn hy hx hc, h y hy x hx c hc]

def map (f : UInt8 → UInt8) (img : Image) : Image :=
  ofFn img.height img.width img.layout fun y x c => f (img.get y x c)

def isEmpty (img : Image) : Bool := img.height == 0 || img.width == 0

/-- The byte nearest to an integer. -/
def clip (n : Int) : UInt8 := if n < 0 then 0 else if 255 < n then 255 else n.toNat.toUInt8

end Image

end PictureEvolution
