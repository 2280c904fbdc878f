/-!
# Inflating

Compressed data is a row of bits. A block of it is stored as it is, or coded by two prefix codes:
one for bytes and lengths of repetitions, one for the distances at which they repeat. The codes are
fixed or stand in front of the block. Each step consumes a bit at least, which bounds every loop.
-/

namespace PictureEvolution.Png

/-- Bytes and the place of the next bit. -/
structure Bits where
  bytes : Array UInt8
  place : Nat

/-- A computation that reads bits and may find the data spoilt. -/
abbrev Read (α : Type) := StateT Bits Option α

namespace Read

def bit : Read Nat := fun s =>
  (s.bytes[s.place / 8]?).map fun b =>
    ((b.toNat >>> (s.place % 8)) % 2, { s with place := s.place + 1 })

/-- A number of so many bits, the lowest first. -/
def number : (count : Nat) → Read Nat
  | 0 => pure 0
  | count + 1 => do
    let low ← bit
    let high ← number count
    return low + 2 * high

/-- Go on at the next whole byte. -/
def align : Read Unit := modify fun s => { s with place := (s.place + 7) / 8 * 8 }

def fail {α : Type} : Read α := fun _ => none

end Read

/-- A prefix code: how many symbols have each length, and the symbols by length. -/
structure Code where
  counts : List Nat
  symbols : Array Nat

namespace Code

/-- The code in which each symbol has a given length; 0 means that it does not occur. -/
def ofLengths (lengths : List Nat) : Code where
  counts := (List.range 15).map fun i => lengths.count (i + 1)
  symbols := ((List.range 15).flatMap fun i =>
    (lengths.zipIdx.filter fun e => e.1 = i + 1).map (·.2)).toArray

def read (symbols : Array Nat) : (counts : List Nat) → (code first index : Nat) → Read Nat
  | [], _, _, _ => Read.fail
  | count :: counts, code, first, index => do
    let code := code + (← Read.bit)
    if code < first + count then
      match symbols[index + code - first]? with
      | some symbol => pure symbol
      | none => Read.fail
    else
      read symbols counts (2 * code) (2 * (first + count)) (index + count)

def symbol (c : Code) : Read Nat := read c.symbols c.counts 0 0 0

end Code

/-- Bases and counts of further bits for the lengths of repetitions. -/
def lengthTable : List (Nat × Nat) :=
  [(3, 0), (4, 0), (5, 0), (6, 0), (7, 0), (8, 0), (9, 0), (10, 0), (11, 1), (13, 1), (15, 1),
   (17, 1), (19, 2), (23, 2), (27, 2), (31, 2), (35, 3), (43, 3), (51, 3), (59, 3), (67, 4),
   (83, 4), (99, 4), (115, 4), (131, 5), (163, 5), (195, 5), (227, 5), (258, 0)]

/-- Bases and counts of further bits for the distances of repetitions. -/
def distanceTable : List (Nat × Nat) :=
  [(1, 0), (2, 0), (3, 0), (4, 0), (5, 1), (7, 1), (9, 2), (13, 2), (17, 3), (25, 3), (33, 4),
   (49, 4), (65, 5), (97, 5), (129, 6), (193, 6), (257, 7), (385, 7), (513, 8), (769, 8),
   (1025, 9), (1537, 9), (2049, 10), (3073, 10), (4097, 11), (6145, 11), (8193, 12), (12289, 12),
   (16385, 13), (24577, 13)]

/-- A base and the number in the bits that follow. -/
def extended (table : List (Nat × Nat)) (i : Nat) : Read Nat :=
  match table[i]? with
  | some (base, more) => do return base + (← Read.number more)
  | none => Read.fail

def repeatFrom (distance : Nat) : (count : Nat) → Array UInt8 → Array UInt8
  | 0, out => out
  | count + 1, out => repeatFrom distance count (out.push (out.getD (out.size - distance) 0))

def coded (literals distances : Code) : (steps : Nat) → Array UInt8 → Read (Array UInt8)
  | 0, _ => Read.fail
  | steps + 1, out => do
    let symbol ← literals.symbol
    if symbol < 256 then
      coded literals distances steps (out.push symbol.toUInt8)
    else if symbol = 256 then
      pure out
    else
      let count ← extended lengthTable (symbol - 257)
      let distance ← extended distanceTable (← distances.symbol)
      if out.size < distance then Read.fail
      else coded literals distances steps (repeatFrom distance count out)

def storedBytes : (count : Nat) → Array UInt8 → Read (Array UInt8)
  | 0, out => pure out
  | count + 1, out => do
    let b ← Read.number 8
    storedBytes count (out.push b.toUInt8)

def stored (out : Array UInt8) : Read (Array UInt8) := do
  Read.align
  let count ← Read.number 16
  discard (Read.number 16)
  storedBytes count out

def fixedLiterals : Code :=
  .ofLengths (List.replicate 144 8 ++ List.replicate 112 9 ++ List.replicate 24 7 ++
    List.replicate 8 8)

def fixedDistances : Code := .ofLengths (List.replicate 30 5)

/-- Read the lengths of some symbols, themselves coded; three symbols stand for runs. -/
def codeLengths (code : Code) (total : Nat) : (steps : Nat) → Array Nat → Read (List Nat)
  | 0, _ => Read.fail
  | steps + 1, done => do
    if total ≤ done.size then return (done.take total).toList
    let symbol ← code.symbol
    let (length, count) ← match symbol with
      | 16 => do
        match done.back? with
        | some last => pure (last, 3 + (← Read.number 2))
        | none => Read.fail
      | 17 => pure (0, 3 + (← Read.number 3))
      | 18 => pure (0, 11 + (← Read.number 7))
      | length => pure (length, 1)
    codeLengths code total steps (done ++ Array.replicate count length)

def lengthOrder : List Nat := [16, 17, 18, 0, 8, 7, 9, 6, 10, 5, 11, 4, 12, 3, 13, 2, 14, 1, 15]

def shortLengths : (count : Nat) → Read (List Nat)
  | 0 => pure []
  | count + 1 => do
    let length ← Read.number 3
    return length :: (← shortLengths count)

def describedCodes : Read (Code × Code) := do
  let literals := 257 + (← Read.number 5)
  let distances := 1 + (← Read.number 5)
  let short ← shortLengths (4 + (← Read.number 4))
  let places := lengthOrder.zip short
  let code := Code.ofLengths ((List.range 19).map fun i => (places.lookup i).getD 0)
  let lengths ← codeLengths code (literals + distances) (literals + distances + 1) #[]
  return (.ofLengths (lengths.take literals), .ofLengths (lengths.drop literals))

def blocks : (steps : Nat) → Array UInt8 → Read (Array UInt8)
  | 0, _ => Read.fail
  | steps + 1, out => do
    let last ← Read.bit
    let kind ← Read.number 2
    let bound := 8 * (← get).bytes.size + 1
    let out ← match kind with
      | 0 => stored out
      | 1 => coded fixedLiterals fixedDistances bound out
      | 2 => do
        let (literals, distances) ← describedCodes
        coded literals distances bound out
      | _ => Read.fail
    if last = 1 then return out else blocks steps out

/-- The data that was compressed, behind a header of two bytes. -/
def inflate? (bytes : Array UInt8) : Option (Array UInt8) :=
  (blocks (8 * bytes.size + 1) #[] ⟨bytes, 16⟩).map (·.1)

end PictureEvolution.Png
