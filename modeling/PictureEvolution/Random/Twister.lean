import PictureEvolution.Random.Source

/-!
# The twisted generator

A linear generator over 624 words of 32 bits with period `2 ^ 19937 - 1`. Each word that is handed
out is tempered; after the last one the whole block is renewed. A number below a bound is drawn by
rejection: as many bits as the bound has, again and again until the number is below it.
-/

namespace PictureEvolution

/-- A block of words and the position of the next one to be handed out. -/
structure Twister where
  block : Vector UInt32 624
  position : Nat

namespace Twister

/-- The word at a position counted around the block. -/
def word (block : Vector UInt32 624) (i : Nat) : UInt32 :=
  block.get ⟨i % 624, Nat.mod_lt _ (by decide)⟩

def setWord (block : Vector UInt32 624) (i : Nat) (x : UInt32) : Vector UInt32 624 :=
  block.set (i % 624) x (Nat.mod_lt _ (by decide))

/-- The block whose words follow from the first one. -/
def blockOfWord (first : UInt32) : Vector UInt32 624 :=
  Nat.fold 623 (fun i _ block =>
    let before := word block i
    setWord block (i + 1) ((1812433253 : UInt32) * (before ^^^ (before >>> 30)) + (i + 1).toUInt32))
    (Vector.replicate 624 first)

/-- Rounds of mixing go through positions 1 to 623; whoever reaches the end carries the last word
over to position 0. -/
def carry (block : Vector UInt32 624) (i : Nat) : Vector UInt32 624 :=
  if i % 623 = 622 then setWord block 0 (word block 623) else block

/-- Mix the words of a key into a block, then mix the block with itself. -/
def mixKey (key : Array UInt32) (block : Vector UInt32 624) : Vector UInt32 624 :=
  let rounds := max 624 key.size
  let scrambled (block : Vector UInt32 624) (i : Nat) : UInt32 :=
    let before := word block (i - 1)
    before ^^^ (before >>> 30)
  let keyed := Nat.fold rounds (fun k _ block =>
    let i := k % 623 + 1
    let j := k % key.size
    let x := (word block i ^^^ (scrambled block i * 1664525)) + key.getD j 0 + j.toUInt32
    carry (setWord block i x) k) block
  let mixed := Nat.fold 623 (fun k _ block =>
    let i := (rounds + k) % 623 + 1
    let x := (word block i ^^^ (scrambled block i * 1566083941)) - i.toUInt32
    carry (setWord block i x) (rounds + k)) keyed
  setWord mixed 0 0x80000000

def wordSize : Nat := 0x100000000

/-- The digits of a number in base `2 ^ 32`, least significant first; at least one. -/
def digits (n : Nat) : List UInt32 :=
  if n < wordSize then [n.toUInt32] else n.toUInt32 :: digits (n / wordSize)
termination_by n
decreasing_by unfold wordSize at *; omega

/-- The generator that a whole number seeds; its sign does not matter. -/
def ofSeed (seed : Int) : Twister :=
  ⟨mixKey (digits seed.natAbs).toArray (blockOfWord 19650218), 624⟩

/-- Renew the whole block, in order, each word from its successor and the word 397 places on. -/
def renew (block : Vector UInt32 624) : Vector UInt32 624 :=
  Nat.fold 624 (fun i _ block =>
    let joined := (word block i &&& 0x80000000) ||| (word block (i + 1) &&& 0x7fffffff)
    let twist := if joined &&& 1 = 0 then (0 : UInt32) else 0x9908b0df
    setWord block i (word block (i + 397) ^^^ (joined >>> 1) ^^^ twist)) block

def temper (x : UInt32) : UInt32 :=
  let x := x ^^^ (x >>> 11)
  let x := x ^^^ ((x <<< 7) &&& 0x9d2c5680)
  let x := x ^^^ ((x <<< 15) &&& 0xefc60000)
  x ^^^ (x >>> 18)

def next : Twister → UInt32 × Twister
  | ⟨block, position⟩ =>
    if position < 624 then
      (temper (word block position), ⟨block, position + 1⟩)
    else
      let block := renew block
      (temper (word block 0), ⟨block, 1⟩)

/-- The leading bits of the next word, at most 32; for no bits the generator stays. -/
def bits (count : Nat) (g : Twister) : Nat × Twister :=
  if count = 0 then (0, g) else
  let (x, g) := g.next
  (x.toNat >>> (32 - count), g)

/-- Two words, the first the low half. -/
def bits64 (g : Twister) : Nat × Twister :=
  let (low, g) := g.next
  let (high, g) := g.next
  (high.toNat * wordSize + low.toNat, g)

/-- A number of 53 bits from two words. -/
def bits53 (g : Twister) : Nat × Twister :=
  let (a, g) := g.next
  let (b, g) := g.next
  ((a >>> 5).toNat * 0x4000000 + (b >>> 6).toNat, g)

/-- A number of any count of bits: whole words from the low end, the leading bits of the last. -/
def wideBits : (count : Nat) → Twister → Nat × Twister
  | count, g =>
    if count ≤ 32 then bits count g else
    let (low, g) := g.next
    let (high, g) := wideBits (count - 32) g
    (high * wordSize + low.toNat, g)
termination_by count => count

/-- Draw bits until the number is below the bound, at most `tries` times; then settle for 0. A try
fails with chance below one half. -/
def reject (bound : Nat) (pos : 0 < bound) (count : Nat) :
    (tries : Nat) → Twister → Fin bound × Twister
  | 0, g => (⟨0, pos⟩, g)
  | tries + 1, g =>
    let (x, g) := wideBits count g
    if lt : x < bound then (⟨x, lt⟩, g) else reject bound pos count tries g

instance : Source Twister where
  answer
    | .below bound pos, g => reject bound pos (Nat.log2 bound + 1) 1024 g
    | .fraction, g => let (m, g) := g.bits53; (⟨m % fractionSize, Nat.mod_lt _ (by decide)⟩, g)
    | .seed, g => let (m, g) := g.bits64; (⟨m % seedSize, Nat.mod_lt _ (by decide)⟩, g)

end Twister

end PictureEvolution
