import PictureEvolution.Number.Binary
import PictureEvolution.Image.Basic

/-!
# Resizing

Images are brought to a given size in two ways: by picking the nearest pixel, or by a cubic filter
that weighs the pixels around each place. The filter is applied along one axis at a time; its
weights are rounded to multiples of `2 ^ -22`, and each pass rounds to bytes. No image has a size
below one pixel.
-/

namespace PictureEvolution.Image

/-- A number with its fraction dropped; 0 if it has no digits. -/
def truncate (x : Float) : Int := ((Binary.ofFloat? x).map Binary.truncate).getD 0

/-- Along one axis: which source each of some places picks, beginning at a position and moving by a
step. -/
def pick (step : Float) : (count : Nat) → (position : Float) → Array Nat → Array Nat
  | 0, _, done => done
  | count + 1, position, done =>
    pick step count (position + step) (done.push (truncate position).toNat)

def nearestSources (source target : Nat) : Array Nat :=
  let step := Float.ofNat source / Float.ofNat target
  pick step target (step * 0.5) #[]

def resizeNearest? (width height : Int) (img : Image) : Option Image :=
  if width ≤ 0 ∨ height ≤ 0 then none else
  let rows := nearestSources img.height height.toNat
  let columns := nearestSources img.width width.toNat
  some <| ofFn height.toNat width.toNat img.layout fun y x c =>
    img.get (rows.getD y 0) (columns.getD x 0) c

/-- The cubic filter, which is 1 at 0 and vanishes from 2 on. -/
def cubic (x : Float) : Float :=
  let t := x.abs
  if t < 1.0 then (1.5 * t - 2.5) * t * t + 1.0
  else if t < 2.0 then (((t - 5.0) * t + 8.0) * t - 4.0) * -0.5
  else 0.0

/-- The sources that one place of an axis reads: the first one and the weights from there on, in
units of `2 ^ -22`. -/
structure Reading where
  first : Nat
  weights : List Int

/-- A weight in units of `2 ^ -22`, a half away from zero. -/
def fixedWeight (w : Float) : Int :=
  let scaled := w * 4194304.0
  truncate (if w < 0.0 then scaled - 0.5 else scaled + 0.5)

/-- What one place reads when an axis is brought from one length to another. -/
def reading (source target place : Nat) : Reading :=
  let scale := Float.ofNat source / Float.ofNat target
  let reach := if scale < 1.0 then 1.0 else scale
  let center := (Float.ofNat place + 0.5) * scale
  let first := (truncate (center - 2.0 * reach + 0.5)).toNat
  let last := min (truncate (center + 2.0 * reach + 0.5)).toNat source
  let weights := (List.range (last - first)).map fun i =>
    cubic ((Float.ofNat (i + first) - center + 0.5) * (1.0 / reach))
  let total := weights.foldl (· + ·) 0.0
  ⟨first, weights.map fun w => fixedWeight (if total == 0.0 then w else w / total)⟩

/-- The byte nearest to the weighted sum of some samples. -/
def Reading.apply (r : Reading) (sample : Nat → UInt8) : UInt8 :=
  let sum := r.weights.zipIdx.foldl (fun sum (w, i) => sum + w * (sample (r.first + i)).toNat)
    (2097152 : Int)
  clip (sum / 4194304)

def readings (source target : Nat) : Array Reading :=
  Array.ofFn fun place : Fin target => reading source target place

def resizeWidth (width : Nat) (img : Image) : Image :=
  if width = img.width then img else
  let reads := readings img.width width
  ofFn img.height width img.layout fun y x c =>
    ((reads[x]?).map fun r => r.apply fun i => img.get y i c).getD 0

def resizeHeight (height : Nat) (img : Image) : Image :=
  if height = img.height then img else
  let reads := readings img.height height
  ofFn height img.width img.layout fun y x c =>
    ((reads[y]?).map fun r => r.apply fun i => img.get i x c).getD 0

/-- The image in a given size by the cubic filter: along the rows first, unless only the height
shrinks. -/
def resizeCubic? (width height : Int) (img : Image) : Option Image :=
  if width ≤ 0 ∨ height ≤ 0 then none else
  let width := width.toNat
  let height := height.toNat
  if height < img.height ∧ img.width ≤ width then
    some (resizeWidth width (resizeHeight height img))
  else
    some (resizeHeight height (resizeWidth width img))

/-- The image in three channels: a gray sample is repeated, and further channels are dropped. -/
def toRgb (img : Image) : Image :=
  ofFn img.height img.width (.channels 3) fun y x c =>
    img.get y x (if 3 ≤ img.layout.samples then c else 0)

end PictureEvolution.Image
