import PictureEvolution.Image.Basic
import PictureEvolution.Png.Checksum
import PictureEvolution.Png.Inflate

/-!
# Picture files

A picture file is a row of chunks: a header with the size and the kind of samples, perhaps a
palette, and the compressed rows, each of which says how its bytes were predicted. Pictures are
written without prediction and compression. Interlaced pictures are not read.
-/

namespace PictureEvolution.Png

def signature : List UInt8 := [137, 80, 78, 71, 13, 10, 26, 10]

/-! ### Reading -/

/-- A number of four bytes, the highest first. -/
def word (bytes : Array UInt8) (place : Nat) : Nat :=
  (List.range 4).foldl (fun n i => 256 * n + (bytes.getD (place + i) 0).toNat) 0

structure Chunk where
  name : String
  data : Array UInt8

/-- The chunks from a place on; a cut-off chunk is the end. -/
def chunks (bytes : Array UInt8) : (steps : Nat) → (place : Nat) → List Chunk
  | 0, _ => []
  | steps + 1, place =>
    let size := word bytes place
    if bytes.size < place + size + 12 then [] else
    let name := String.ofList ((bytes.extract (place + 4) (place + 8)).toList.map fun b =>
      Char.ofNat b.toNat)
    ⟨name, bytes.extract (place + 8) (place + 8 + size)⟩ :: chunks bytes steps (place + size + 12)

inductive Color where
  | gray
  | rgb
  | palette
  | grayAlpha
  | rgbAlpha
deriving DecidableEq

namespace Color

def ofCode? : Nat → Option Color
  | 0 => some gray
  | 2 => some rgb
  | 3 => some palette
  | 4 => some grayAlpha
  | 6 => some rgbAlpha
  | _ => none

def samples : Color → Nat
  | gray | palette => 1
  | grayAlpha => 2
  | rgb => 3
  | rgbAlpha => 4

end Color

structure Header where
  width : Nat
  height : Nat
  depth : Nat
  color : Color

def header? (data : Array UInt8) : Option Header := do
  let color ← Color.ofCode? (data.getD 9 0).toNat
  let depth := (data.getD 8 0).toNat
  if data.size = 13 ∧ data.getD 12 0 = 0 ∧ depth ∈ [1, 2, 4, 8, 16] then
    some ⟨word data 0, word data 4, depth, color⟩
  else none

namespace Header

def stride (h : Header) : Nat := (h.width * h.color.samples * h.depth + 7) / 8

/-- The distance to the byte on the left that predicts a byte. -/
def reach (h : Header) : Nat := max 1 (h.color.samples * h.depth / 8)

end Header

/-- The one of three neighbours that is nearest to their combination. -/
def nearestNeighbour (left up corner : Nat) : Nat :=
  let estimate : Int := left + up - corner
  let off (n : Nat) : Nat := (estimate - n).natAbs
  if off left ≤ off up ∧ off left ≤ off corner then left
  else if off up ≤ off corner then up
  else corner

def predicted (method left up corner : Nat) : Nat :=
  match method with
  | 1 => left
  | 2 => up
  | 3 => (left + up) / 2
  | 4 => nearestNeighbour left up corner
  | _ => 0

/-- Add the predictions to the bytes of a row, given the row above. -/
def restoreRow (reach method : Nat) (above row : Array UInt8) : Array UInt8 :=
  (Nat.fold row.size (fun i _ done =>
    let before (a : Array UInt8) : Nat := if i < reach then 0 else (a.getD (i - reach) 0).toNat
    let p := predicted method (before done) (above.getD i 0).toNat (before above)
    done.push (row.getD i 0 + p.toUInt8)) #[])

def restoreRows (h : Header) (data : Array UInt8) : Array (Array UInt8) :=
  Nat.fold h.height (fun y _ rows =>
    let start := y * (h.stride + 1)
    let row := data.extract (start + 1) (start + 1 + h.stride)
    rows.push (restoreRow h.reach (data.getD start 0).toNat (rows.back?.getD #[]) row)) #[]

/-- A sample of a row in its own depth; of sixteen bits the high half. -/
def sampleAt (depth : Nat) (row : Array UInt8) (i : Nat) : Nat :=
  if depth = 16 then (row.getD (2 * i) 0).toNat
  else
    let perByte := 8 / depth
    ((row.getD (i / perByte) 0).toNat >>> (8 - depth * (i % perByte + 1))) % Nat.pow 2 depth

def widen (depth sample : Nat) : UInt8 :=
  (if depth < 8 then sample * 255 / (Nat.pow 2 depth - 1) else sample).toUInt8

def toImage (h : Header) (palette : Array UInt8) (rows : Array (Array UInt8)) : Image :=
  let sample (y i : Nat) : Nat := sampleAt h.depth (rows.getD y #[]) i
  match h.color with
  | .palette =>
    .ofFn h.height h.width (.channels 3) fun y x c => palette.getD (3 * sample y x + c) 0
  | .gray => .ofFn h.height h.width .gray fun y x _ => widen h.depth (sample y x)
  | color =>
    .ofFn h.height h.width (.channels color.samples) fun y x c =>
      widen h.depth (sample y (x * color.samples + c))

def decode? (bytes : Array UInt8) : Option Image := do
  if (bytes.extract 0 8).toList ≠ signature then none else
  let parts := chunks bytes bytes.size 8
  let all (name : String) : List Chunk := parts.filter (·.name = name)
  let h ← (all "IHDR").head?.bind fun c => header? c.data
  let palette := ((all "PLTE").head?.map (·.data)).getD #[]
  let data ← inflate? ((all "IDAT").foldl (fun data c => data ++ c.data) #[])
  if h.width = 0 ∨ h.height = 0 ∨ data.size < h.height * (h.stride + 1) then none
  else some (toImage h palette (restoreRows h data))

/-! ### Writing -/

def wordBytes (n : Nat) : Array UInt8 :=
  #[(n >>> 24).toUInt8, (n >>> 16).toUInt8, (n >>> 8).toUInt8, n.toUInt8]

def Chunk.encode (c : Chunk) : Array UInt8 :=
  let named := (c.name.toList.map fun l => l.toNat.toUInt8).toArray ++ c.data
  wordBytes c.data.size ++ named ++ wordBytes (cyclicCode named).toNat

def blockSize : Nat := 65535

def storeBlocks (data : Array UInt8) : Array UInt8 :=
  let count := max 1 ((data.size + blockSize - 1) / blockSize)
  Nat.fold count (fun i _ out =>
    let part := data.extract (i * blockSize) ((i + 1) * blockSize)
    let size := part.size
    out ++ #[if i + 1 = count then 1 else 0, size.toUInt8, (size / 256).toUInt8,
      (65535 - size).toUInt8, ((65535 - size) / 256).toUInt8] ++ part) #[]

def plainRows (img : Image) : Array UInt8 :=
  let stride := img.width * img.layout.samples
  Nat.fold img.height (fun y _ out =>
    out.push 0 ++ img.bytes.extract (y * stride) ((y + 1) * stride)) #[]

/-- The code of a layout, if pictures can have it. -/
def colorCode? : Layout → Option Nat
  | .gray => some 0
  | .channels 2 => some 4
  | .channels 3 => some 2
  | .channels 4 => some 6
  | .channels _ => none

def encode? (img : Image) : Option (Array UInt8) := do
  let color ← colorCode? img.layout
  let rows := plainRows img
  let header := wordBytes img.width ++ wordBytes img.height ++ #[8, color.toUInt8, 0, 0, 0]
  let data := #[120, 1] ++ storeBlocks rows ++ wordBytes (pairSum rows).toNat
  return signature.toArray ++ (Chunk.mk "IHDR" header).encode ++ (Chunk.mk "IDAT" data).encode ++
    (Chunk.mk "IEND" #[]).encode

end PictureEvolution.Png
