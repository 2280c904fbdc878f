import PictureEvolution.Number.Shortest

/-!
# Documents

Structured documents of numbers, texts, lists and named parts, and their text: two spaces for each
level, one entry a line, and only characters of seven bits. Others are escaped by their units of
sixteen bits.
-/

namespace PictureEvolution

inductive Document where
  | null
  | int (n : Int)
  | real (x : Float)
  | text (s : String)
  | list (items : List Document)
  | object (parts : List (String × Document))

namespace Document

def hex4 (n : Nat) : List Char :=
  let ds := Nat.toDigits 16 n
  List.replicate (4 - ds.length) '0' ++ ds

def escape (c : Char) : List Char :=
  let n := c.toNat
  if n = 34 ∨ n = 92 then ['\\', c]
  else if n = 10 then ['\\', 'n']
  else if n = 13 then ['\\', 'r']
  else if n = 9 then ['\\', 't']
  else if n = 8 then ['\\', 'b']
  else if n = 12 then ['\\', 'f']
  else if 32 ≤ n ∧ n < 127 then [c]
  else if n < 0x10000 then '\\' :: 'u' :: hex4 n
  else
    let high := 0xd800 + (n - 0x10000) / 0x400
    let low := 0xdc00 + (n - 0x10000) % 0x400
    '\\' :: 'u' :: hex4 high ++ '\\' :: 'u' :: hex4 low

def quote (s : String) : String := "\"" ++ String.ofList (s.toList.flatMap escape) ++ "\""

def number (x : Float) : String :=
  if x.isNaN then "NaN"
  else if x.isInf then (if x < 0 then "-Infinity" else "Infinity")
  else Decimal.ofFloat x

def newline (level : Nat) : String := "\n" ++ String.ofList (List.replicate (2 * level) ' ')

/-- Entries between brackets, one a line. -/
def enclose (opening closing : String) (level : Nat) (entries : List String) : String :=
  if entries.isEmpty then opening ++ closing else
  opening ++ newline (level + 1) ++ String.intercalate ("," ++ newline (level + 1)) entries ++
    newline level ++ closing

mutual

def render (level : Nat) : Document → String
  | null => "null"
  | int n => toString n
  | real x => number x
  | text s => quote s
  | list items => enclose "[" "]" level (renderItems (level + 1) items)
  | object parts => enclose "\x7b" "\x7d" level (renderParts (level + 1) parts)

def renderItems (level : Nat) : List Document → List String
  | [] => []
  | d :: rest => render level d :: renderItems level rest

def renderParts (level : Nat) : List (String × Document) → List String
  | [] => []
  | (name, d) :: rest => (quote name ++ ": " ++ render level d) :: renderParts level rest

end

end Document

end PictureEvolution
