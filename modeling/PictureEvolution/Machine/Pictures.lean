import PictureEvolution.Image.Convolution
import PictureEvolution.Image.Overlay
import PictureEvolution.Image.Rearrange
import PictureEvolution.Image.Retouch
import PictureEvolution.Machine.Instruction

/-!
# Picture instructions

The instructions that take one or two images from their stack and push one back, and the catalog of
elements from which programs are made by default. Instructions that need randomness draw from the
source that the machine runs on.
-/

namespace PictureEvolution

inductive Filter where
  | invert
  | laplace
  | emboss
  | edge
  | noise
  | rotate
  | scramble
deriving DecidableEq

/-- An operation on two images; the result has the shape of the second. -/
inductive Merge where
  | and
  | or
  | xor
  | rows
  | columns
deriving DecidableEq

variable {ω : Type} [Source ω]

namespace Filter

def name : Filter → String
  | invert => "invert_colors"
  | laplace => "laplace_filter"
  | emboss => "emboss_filter"
  | edge => "edge_filter"
  | noise => "noise_filter"
  | rotate => "section_rotate"
  | scramble => "scramble_grid"

def all : List Filter := [invert, laplace, emboss, edge, noise, rotate, scramble]

def apply : Filter → Image → Task ω Image
  | invert, img => pure img.invert
  | laplace, img => .ofOption .noPixels (img.convolve? .laplace)
  | emboss, img => .ofOption .noPixels (img.convolve? .emboss)
  | edge, img => .ofOption .noPixels (img.convolve? .edge)
  | noise, img => .ofDraw img.addNoise
  | rotate, img => .ofDraw img.rotateSection
  | scramble, img => .ofDraw img.scrambleQuadrants

end Filter

namespace Merge

def name : Merge → String
  | and => "section_and"
  | or => "section_or"
  | xor => "section_xor"
  | rows => "hsplit_combine"
  | columns => "vsplit_combine"

def all : List Merge := [and, or, xor, rows, columns]

def apply (m : Merge) (a b : Image) : Task ω Image :=
  if a.layout = b.layout then
    match m with
    | and => pure (Image.overlay (· &&& ·) a b)
    | or => pure (Image.overlay (· ||| ·) a b)
    | xor => pure (Image.overlay (· ^^^ ·) a b)
    | rows => .ofDraw (Image.splitRows a b)
    | columns => .ofDraw (Image.splitColumns a b)
  else
    throw .layoutMismatch

end Merge

namespace Action

def onOne (f : Filter) : List Value → Task ω Value
  | [.image a] => do return .image (← f.apply a)
  | vs => throw (.notAnImage (vs.headD .nothing))

def onTwo (m : Merge) : List Value → Task ω Value
  | [.image a, .image b] => do return .image (← m.apply a b)
  | vs => throw (.notAnImage (vs.headD .nothing))

def ofFilter (f : Filter) : Action ω := value (onOne f) [.image] .image

def ofMerge (m : Merge) : Action ω := value (onTwo m) [.image, .image] .image

def pictures : List (String × Action ω) :=
  Filter.all.map (fun f => (f.name, ofFilter f)) ++ Merge.all.map (fun m => (m.name, ofMerge m))

end Action

/-- The elements from which programs are made by default; some stand there several times and are
drawn more often. -/
def defaultCatalog : List Element :=
  [.instruction InstructionSet.dupName,
   .instruction InstructionSet.branchName,
   .instruction Filter.invert.name,
   .instruction Filter.laplace.name,
   .instruction Filter.emboss.name,
   .instruction Filter.edge.name,
   .instruction Filter.laplace.name,
   .instruction Filter.noise.name,
   .instruction Filter.scramble.name,
   .instruction Merge.and.name,
   .instruction Merge.or.name,
   .instruction Merge.xor.name,
   .instruction Merge.rows.name,
   .instruction Filter.rotate.name,
   .instruction Filter.rotate.name,
   .instruction Filter.rotate.name,
   .literal (.bool true),
   .literal (.bool false),
   .literal (.int 1)]

end PictureEvolution
