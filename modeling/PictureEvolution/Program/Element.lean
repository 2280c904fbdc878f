/-!
# Programs

A program is a list of elements: literals, names of instructions, and blocks, which are programs
again. A truth literal and an integer literal are never equal.
-/

namespace PictureEvolution

inductive Literal where
  | bool (b : Bool)
  | int (n : Int)
deriving DecidableEq

inductive Element where
  | literal (value : Literal)
  | instruction (name : String)
  | block (elements : List Element)

instance : Inhabited Element := ⟨.block []⟩

abbrev Program := List Element

namespace Element

mutual

def decEq : (a b : Element) → Decidable (a = b)
  | literal x, literal y =>
    if h : x = y then isTrue (by rw [h]) else isFalse (fun e => h (by injection e))
  | instruction x, instruction y =>
    if h : x = y then isTrue (by rw [h]) else isFalse (fun e => h (by injection e))
  | block xs, block ys =>
    match decEqList xs ys with
    | isTrue h => isTrue (by rw [h])
    | isFalse h => isFalse (fun e => h (by injection e))
  | literal _, instruction _ => isFalse nofun
  | literal _, block _ => isFalse nofun
  | instruction _, literal _ => isFalse nofun
  | instruction _, block _ => isFalse nofun
  | block _, literal _ => isFalse nofun
  | block _, instruction _ => isFalse nofun

def decEqList : (xs ys : List Element) → Decidable (xs = ys)
  | [], [] => isTrue rfl
  | [], _ :: _ => isFalse nofun
  | _ :: _, [] => isFalse nofun
  | x :: xs, y :: ys =>
    match decEq x y, decEqList xs ys with
    | isTrue h, isTrue hs => isTrue (by rw [h, hs])
    | isFalse h, _ => isFalse (fun e => h (by injection e))
    | _, isFalse hs => isFalse (fun e => hs (by injection e))

end

instance : DecidableEq Element := decEq

mutual

/-- How many leaves an element has: literals and names, at any depth. -/
def size : Element → Nat
  | literal _ => 1
  | instruction _ => 1
  | block elements => sizeAll elements

def sizeAll : List Element → Nat
  | [] => 0
  | e :: rest => size e + sizeAll rest

end

end Element

/-- The size of a program counts the contents of nested programs. -/
def Program.size (p : Program) : Nat := Element.sizeAll p

end PictureEvolution
