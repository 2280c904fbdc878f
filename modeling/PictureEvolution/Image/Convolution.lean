import PictureEvolution.Number.Binary
import PictureEvolution.Image.Basic

/-!
# Convolution

A kernel of three by three weights is laid over every pixel, channel by channel. At the border the
outermost pixels are repeated: the image is framed by one pixel on every side, and the nine windows
of the frame are weighted and added up in row order. Weights are integers for the built-in filters
and doubles for kernels from outside. An image without pixels cannot be framed.
-/

namespace PictureEvolution

/-- Nine weights and an offset that is added at the end. -/
structure Kernel (σ : Type) where
  weight : Nat → Nat → σ
  offset : σ

namespace Image

/-- The image with its outermost pixels repeated once on every side. -/
def frame (img : Image) : Image :=
  ofFn (img.height + 2) (img.width + 2) img.layout fun y x c =>
    img.get (min (y - 1) (img.height - 1)) (min (x - 1) (img.width - 1)) c

/-- The rows and columns of a window of three by three, in row order. -/
def window : List (Nat × Nat) :=
  (List.range 3).flatMap fun dy => (List.range 3).map fun dx => (dy, dx)

def convolveWith? {σ : Type} [Add σ] [Mul σ] (start : σ) (ofByte : UInt8 → σ) (toByte : σ → UInt8)
    (kernel : Kernel σ) (img : Image) : Option Image :=
  if img.isEmpty then none else
  let framed := img.frame
  some <| ofFn img.height img.width img.layout fun y x c =>
    toByte <| (window.foldl (fun sum (dy, dx) =>
      sum + kernel.weight dy dx * ofByte (framed.get (y + dy) (x + dx) c)) start) + kernel.offset

def convolve? (kernel : Kernel Int) : Image → Option Image :=
  convolveWith? 0 (fun b => (b.toNat : Int)) clip kernel

/-- The byte nearest to a double, a half to the even neighbour; not-a-number gives 0. -/
def clipReal (x : Float) : UInt8 :=
  match Binary.ofFloat? x with
  | some b => clip b.round
  | none => if 0 < x then 255 else 0

def convolveReal? (kernel : Kernel Float) : Image → Option Image :=
  convolveWith? 0.0 (fun b => Float.ofNat b.toNat) clipReal kernel

end Image

namespace Kernel

def ofRows {σ : Type} [Inhabited σ] (rows : List (List σ)) (offset : σ) : Kernel σ where
  weight dy dx := (rows.getD dy []).getD dx default
  offset := offset

def laplace : Kernel Int := ofRows [[0, -1, 0], [-1, 4, -1], [0, -1, 0]] 0

def emboss : Kernel Int := ofRows [[-2, -1, 0], [-1, 1, 1], [0, 1, 2]] 128

def edge : Kernel Int := ofRows [[-1, -1, -1], [-1, 8, -1], [-1, -1, -1]] 0

end Kernel

end PictureEvolution
