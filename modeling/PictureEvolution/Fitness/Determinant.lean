/-!
# Determinants

The determinant of a square matrix of doubles is found by elimination: the row with the largest
first entry is taken out, the others lose their first column, and what is left is a smaller matrix.
-/

namespace PictureEvolution.Matrix

def head (row : List Float) : Float := row.headD 0.0

/-- The place of the row with the largest first entry, the first of several. -/
def pivot (rows : List (List Float)) : Nat :=
  (rows.zipIdx.foldl (fun (best, place) (row, i) =>
    if best < (head row).abs then ((head row).abs, i) else (best, place)) ((-1.0 : Float), 0)).2

/-- A row without its first entry, after a multiple of the pivot row was taken away to clear it. -/
def eliminate (pivotRow row : List Float) : List Float :=
  let factor := head row / head pivotRow
  List.zipWith (fun a p => a - factor * p) row.tail pivotRow.tail

/-- The determinant of a matrix of a given size; that of the empty matrix is 1. -/
def determinantOf : (size : Nat) → List (List Float) → Float
  | 0, _ => 1.0
  | size + 1, rows =>
    let place := pivot rows
    let pivotRow := rows.getD place []
    let lead := head pivotRow
    if lead == 0.0 then 0.0 else
    let minor := (rows.eraseIdx place).map (eliminate pivotRow)
    (if place % 2 = 0 then lead else -lead) * determinantOf size minor

def determinant (rows : List (List Float)) : Float := determinantOf rows.length rows

end PictureEvolution.Matrix
