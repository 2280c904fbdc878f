import PictureEvolution.Number.Binary

/-!
# Numerals

Reading numbers from text. Blanks around a number are dropped, an underscore may stand between two
digits, and a sign may stand in front. An integer has at most 4300 digits. A real number has digits
with an optional point and an optional exponent, or is one of the words for infinity and
not-a-number in any case.
-/

namespace PictureEvolution.Numeral

/-- White space, as the text property has it. -/
def isBlank (c : Char) : Bool :=
  let n := c.toNat
  (9 ≤ n && n ≤ 13) || (28 ≤ n && n ≤ 32) || n == 0x85 || n == 0xa0 || n == 0x1680 ||
  (0x2000 ≤ n && n ≤ 0x200a) || n == 0x2028 || n == 0x2029 || n == 0x202f || n == 0x205f ||
  n == 0x3000

def trim (cs : List Char) : List Char :=
  ((cs.dropWhile isBlank).reverse.dropWhile isBlank).reverse

/-- Where each run of ten decimal digits begins. -/
def digitZeros : List Nat :=
  [0x30, 0x660, 0x6f0, 0x7c0, 0x966, 0x9e6, 0xa66, 0xae6, 0xb66, 0xbe6, 0xc66, 0xce6, 0xd66, 0xde6,
   0xe50, 0xed0, 0xf20, 0x1040, 0x1090, 0x17e0, 0x1810, 0x1946, 0x19d0, 0x1a80, 0x1a90, 0x1b50,
   0x1bb0, 0x1c40, 0x1c50, 0xa620, 0xa8d0, 0xa900, 0xa9d0, 0xa9f0, 0xaa50, 0xabf0, 0xff10, 0x104a0,
   0x10d30, 0x11066, 0x110f0, 0x11136, 0x111d0, 0x112f0, 0x11450, 0x114d0, 0x11650, 0x116c0,
   0x11730, 0x118e0, 0x11950, 0x11c50, 0x11d50, 0x11da0, 0x16a60, 0x16ac0, 0x16b50, 0x1d7ce,
   0x1d7d8, 0x1d7e2, 0x1d7ec, 0x1d7f6, 0x1e140, 0x1e2f0, 0x1e950, 0x1fbf0]

def digit? (c : Char) : Option Nat :=
  (digitZeros.find? fun first => first ≤ c.toNat && c.toNat < first + 10).map (c.toNat - ·)

/-- The digits at the front, with an underscore allowed between two of them, and what follows.
`inside` tells whether a digit stands right before. -/
def digits (inside : Bool) : List Char → List Nat × List Char
  | [] => ([], [])
  | c :: rest =>
    match digit? c with
    | some d =>
      let (ds, tail) := digits true rest
      (d :: ds, tail)
    | none =>
      if inside && c == '_' && (rest.head?.bind digit?).isSome then digits false rest
      else ([], c :: rest)

def value (ds : List Nat) : Nat := ds.foldl (10 * · + ·) 0

def sign : List Char → Bool × List Char
  | '-' :: rest => (true, rest)
  | '+' :: rest => (false, rest)
  | rest => (false, rest)

/-- The longest integer that is read, in digits. -/
def maxDigits : Nat := 4300

def int? (text : String) : Option Int :=
  let (negative, rest) := sign (trim text.toList)
  match digits false rest with
  | ([], _) => none
  | (ds, []) =>
    if maxDigits < ds.length then none
    else some (if negative then -(value ds) else value ds)
  | _ => none

/-- The exponent at the end of a number; nothing may follow it. -/
def exponent? : List Char → Option Int
  | [] => some 0
  | e :: rest =>
    if e = 'e' ∨ e = 'E' then
      let (negative, rest) := sign rest
      match digits false rest with
      | (ds@(_ :: _), []) => some (if negative then -(value ds) else value ds)
      | _ => none
    else none

/-- The double nearest to `m * 10 ^ e`, infinite when too large. Past a magnitude that no double
reaches, the exponent does not matter. -/
def nearest (negative : Bool) (m : Nat) (e : Int) : Float :=
  let signed (x : Float) : Float := if negative then -x else x
  if m = 0 then signed 0.0 else
  let size : Int := (toString m).length + e
  if 400 < size then signed (1.0 / 0.0)
  else if size < -400 then signed 0.0
  else
    match (Binary.nearest negative (m * Nat.pow 10 e.toNat) (Nat.pow 10 (-e).toNat)).toFloat? with
    | some x => x
    | none => signed (1.0 / 0.0)

def float? (text : String) : Option Float :=
  let (negative, rest) := sign (trim text.toList)
  let signed (x : Float) : Float := if negative then -x else x
  let word := String.ofList (rest.map Char.toLower)
  if word = "inf" ∨ word = "infinity" then some (signed (1.0 / 0.0))
  else if word = "nan" then some (0.0 / 0.0)
  else
    let (whole, rest) := digits false rest
    let (places, rest) := match rest with
      | '.' :: more => digits false more
      | _ => ([], rest)
    if whole.isEmpty && places.isEmpty then none
    else (exponent? rest).map fun e =>
      nearest negative (value (whole ++ places)) (e - places.length)

end PictureEvolution.Numeral
