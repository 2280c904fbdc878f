/-!
# Checksums

The two checksums of picture files: a cyclic code of 32 bits for each chunk, and a pair of sums for
the compressed data.
-/

namespace PictureEvolution.Png

def shiftCode (code : UInt32) : UInt32 :=
  if code &&& 1 = 0 then code >>> 1 else (code >>> 1) ^^^ 0xedb88320

def addToCode (code : UInt32) (b : UInt8) : UInt32 :=
  Nat.fold 8 (fun _ _ code => shiftCode code) (code ^^^ b.toUInt32)

def cyclicCode (bytes : Array UInt8) : UInt32 :=
  bytes.foldl addToCode 0xffffffff ^^^ 0xffffffff

def sumModulus : Nat := 65521

/-- The sum of the bytes and the sum of the sums, in one word. -/
def pairSum (bytes : Array UInt8) : UInt32 :=
  let (a, b) := bytes.foldl (fun (a, b) x =>
    let a := (a + x.toNat) % sumModulus
    (a, (b + a) % sumModulus)) (1, 0)
  (b * 0x10000 + a).toUInt32

end PictureEvolution.Png
