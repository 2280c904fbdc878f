import PictureEvolution.Evolution.Individual
import PictureEvolution.Machine.Fault

/-!
# Random programs

A catalog is a list of elements. A random program is a drawn number of elements, each drawn from
the catalog by itself.
-/

namespace PictureEvolution

abbrev Catalog := List Element

namespace Catalog

variable {ω : Type} [Source ω]

def ofValues (values : List Value) : Except Fault Catalog :=
  (Value.toElements values).mapError .notAnElement

def element (catalog : Catalog) : Task ω Element := do
  match ← Task.ofDraw (Draw.choose? catalog) with
  | some e => pure e
  | none => throw .emptyChoice

def elements (catalog : Catalog) : (count : Nat) → Task ω Program
  | 0 => pure []
  | count + 1 => do
    let e ← catalog.element
    let rest ← elements catalog count
    return e :: rest

/-- A program of one element or more, at most so many. -/
def program (catalog : Catalog) (maxSize : Int) : Task ω Program :=
  if catalog.isEmpty then throw (.config .emptyCatalog)
  else if h : 1 ≤ maxSize then do
    let count ← Task.ofDraw (Draw.between 1 maxSize.toNat (by omega))
    catalog.elements count
  else
    throw .initialSize

def population (catalog : Catalog) (maxSize : Int) : (count : Nat) → Task ω (List Individual)
  | 0 => pure []
  | count + 1 => do
    let p ← catalog.program maxSize
    let rest ← population catalog maxSize count
    return .ofProgram p :: rest

end Catalog

end PictureEvolution
