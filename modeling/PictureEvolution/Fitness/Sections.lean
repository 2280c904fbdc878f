import PictureEvolution.Image.Slice
import PictureEvolution.Machine.Fault

/-!
# Sections

An image is cut into sections of one size, row by row. The size is the image's size divided by the
grid, at least one pixel; rows and columns that do not fill a section are left out. Each section is
a case. Its value is the determinant of its largest square of brightnesses in the upper left corner.
-/

namespace PictureEvolution.Image

/-- The side of a section along an axis of some length. -/
def sectionSide (length : Nat) (grid : Int) : Nat := max 1 ((length : Int).fdiv grid).toNat

/-- The numbers from zero on that are a step apart, up to a stop that is left out. -/
def stepped (stop step : Nat) : List Nat :=
  ((List.range stop).map (· * step)).filter (· < stop)

/-- The sections of an image, row by row. They begin wherever a whole one has room. -/
def sections (img : Image) (grid : Int) : List Image :=
  let height := sectionSide img.height grid
  let width := sectionSide img.width grid
  (stepped (img.height + 1 - height) height).flatMap fun y =>
    (stepped (img.width + 1 - width) width).map fun x =>
      img.slice (.box y x height width)

/-- The sections of an image; by zero it cannot be divided. -/
def cut (img : Image) (grid : Int) : Except Fault (List Image) :=
  if grid = 0 then .error .gridZero else .ok (img.sections grid)

/-- How bright the pixels are: a gray sample as it is, or a weighted sum of the first three
channels. -/
def brightness (img : Image) : Except Fault (Nat → Nat → Float) :=
  let sample (y x c : Nat) : Float := Float.ofNat (img.get y x c).toNat
  match img.layout with
  | .gray => .ok fun y x => sample y x 0
  | .channels count =>
    if count < 3 then .error (.fewChannels count)
    else .ok fun y x => sample y x 0 * 0.299 + sample y x 1 * 0.587 + sample y x 2 * 0.114

def toGray (img : Image) : Except Fault (List (List Float)) := do
  let bright ← img.brightness
  return (List.range img.height).map fun y => (List.range img.width).map (bright y)

section Values

variable (determinant : List (List Float) → Float)

def regionDeterminant (img : Image) : Except Fault Float := do
  let gray ← img.toGray
  let size := min img.height img.width
  return determinant ((gray.take size).map (·.take size))

def caseValues (img : Image) (grid : Int) : Except Fault (List Float) := do
  let cases ← img.cut grid
  cases.mapM (regionDeterminant determinant)

end Values

end PictureEvolution.Image
