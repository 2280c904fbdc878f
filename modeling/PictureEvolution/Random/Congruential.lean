/-!
# The congruential generator

A linear congruential generator of 128 bits whose output is a rotation of its folded state. A seed
of 64 bits is spread over state and increment by a pool of four hashed words. It serves one
purpose: a sequence of small offsets for the samples of a picture.
-/

namespace PictureEvolution

/-- State, increment, and the unused upper half of the last output. -/
structure Congruential where
  state : BitVec 128
  increment : BitVec 128
  spare : Option UInt32

namespace Congruential

def wordSize : Nat := 0x100000000

/-- A hash of one word whose multiplier changes with each use. -/
def hashWord (factor : UInt32) (multiplier x : UInt32) : UInt32 × UInt32 :=
  let x := x ^^^ multiplier
  let multiplier := multiplier * factor
  let x := x * multiplier
  (x ^^^ (x >>> 16), multiplier)

def hashWords (factor : UInt32) : (multiplier : UInt32) → List UInt32 → List UInt32 × UInt32
  | multiplier, [] => ([], multiplier)
  | multiplier, x :: xs =>
    let (y, multiplier) := hashWord factor multiplier x
    let (ys, multiplier) := hashWords factor multiplier xs
    (y :: ys, multiplier)

def mixWords (x y : UInt32) : UInt32 :=
  let r := 0xca01f9dd * x - 0x4973f715 * y
  r ^^^ (r >>> 16)

/-- Hash one word of the pool into each of the others. -/
def spread (source : Fin 4) (pool : Vector UInt32 4) (multiplier : UInt32) :
    Vector UInt32 4 × UInt32 :=
  Nat.fold 4 (fun target lt (pool, multiplier) =>
    if target = source.val then (pool, multiplier) else
    let (h, multiplier) := hashWord 0x931e8875 multiplier (pool.get source)
    (pool.set target (mixWords (pool.get ⟨target, lt⟩) h), multiplier)) (pool, multiplier)

/-- Four hashed words from a seed of at most 128 bits. -/
def poolOfSeed (seed : Nat) : Vector UInt32 4 :=
  let entropy := (List.range 4).map fun i => (seed >>> (32 * i)).toUInt32
  let (words, multiplier) := hashWords 0x931e8875 0x43b0d7e5 entropy
  let pool := Vector.ofFn fun i : Fin 4 => words.getD i 0
  (Nat.fold 4 (fun i lt (pool, multiplier) => spread ⟨i, lt⟩ pool multiplier)
    (pool, multiplier)).1

def step (g : Congruential) : Congruential :=
  { g with state := g.state * 0x2360ed051fc65da44385df649fccf645 + g.increment }

def ofSeed (seed : Nat) : Congruential :=
  let pool := poolOfSeed seed
  let words := (hashWords 0x58f38ded 0x8b51f9dd ((List.range 8).map fun i =>
    pool.get ⟨i % 4, Nat.mod_lt _ (by decide)⟩)).1
  let word (i : Nat) : Nat := (words.getD i 0).toNat
  let quarter (i : Nat) : Nat := word (2 * i) + word (2 * i + 1) * wordSize
  let state := BitVec.ofNat 128 (quarter 0 * (wordSize * wordSize) + quarter 1)
  let increment := BitVec.ofNat 128 ((quarter 2 * (wordSize * wordSize) + quarter 3) * 2 + 1)
  let start := step ⟨0, increment, none⟩
  step { start with state := start.state + state }

/-- The next 64 bits: the halves of the state folded and rotated by its top six bits. -/
def next64 (g : Congruential) : UInt64 × Congruential :=
  let g := g.step
  let s := g.state.toNat
  let x := (s >>> 64 ^^^ s).toUInt64
  let r := (s >>> 122).toUInt64
  ((x >>> r) ||| (x <<< ((64 - r) &&& 63)), g)

/-- The next 32 bits: the low half of an output, then its high half. -/
def next32 (g : Congruential) : UInt32 × Congruential :=
  match g.spare with
  | some x => (x, { g with spare := none })
  | none =>
    let (x, g) := g.next64
    (x.toUInt32, { g with spare := some (x >>> 32).toUInt32 })

/-- A number below the bound from the high part of a product of 32 bits; products whose low part is
below `2 ^ 32 mod bound` are drawn again, at most `tries` times. -/
def below (bound : Nat) : (tries : Nat) → Congruential → Nat × Congruential
  | 0, g => (0, g)
  | tries + 1, g =>
    let (x, g) := g.next32
    let m := x.toNat * bound
    if m % wordSize < wordSize % bound then below bound tries g else (m / wordSize, g)

def pushOffsets (amplitude : Nat) : (count : Nat) → Congruential → Array Int → Array Int
  | 0, _, done => done
  | count + 1, g, done =>
    let (k, g) := below (2 * amplitude + 1) 1024 g
    pushOffsets amplitude count g (done.push ((k : Int) - amplitude))

def offsets (amplitude count seed : Nat) : Array Int :=
  pushOffsets amplitude count (ofSeed seed) (Array.emptyWithCapacity count)

end Congruential

end PictureEvolution
