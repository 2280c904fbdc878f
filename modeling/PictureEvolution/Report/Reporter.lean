import PictureEvolution.Fitness.Scorer
import PictureEvolution.Image.Resize
import PictureEvolution.Report.Summary
import PictureEvolution.Workspace

/-!
# Reports

Each generation is reported by its line. With a directory for results, the best program is run once
more, on the same source as everything else, and the image that it leaves is kept as a picture,
named after the generation and perhaps brought to another size.
-/

namespace PictureEvolution

/-- What is reported and how. Without instructions, an initial state and a directory no pictures are
kept. -/
structure Reporter (γ : Type) where
  instructions : Option (InstructionSet γ)
  initial : Option State
  inputs : List Value
  directory : Option String
  limit : Limit
  /-- width and height of the pictures, if not those of the images -/
  size : Option (Int × Int)

namespace Reporter

variable {γ : Type}

def fileName (directory : String) (generation : Int) : String :=
  directory ++ "/gen" ++ Summary.generationText generation ++ ".png"

def picture (size : Option (Int × Int)) : Value → Except Fault Image
  | .image img =>
    match size with
    | none => .ok img
    | some (width, height) =>
      match img.resizeNearest? width height with
      | some resized => .ok resized
      | none => .error .noPixels
  | v => .error (.notAnImage v)

/-- Run a program and keep the image that it leaves; the name of the picture, if there is one. -/
def keepPicture (r : Reporter γ) (best : Individual) (generation : Int) :
    Task (Workspace γ) (Option String) := do
  match r.instructions, r.initial, r.directory with
  | some instructions, some initial, some directory =>
    let result ← Workspace.onSource
      (Scorer.output instructions r.limit initial r.inputs best.program)
    match result with
    | none => return none
    | some v =>
      match picture r.size v with
      | .error fault => throw fault
      | .ok img =>
        let name := fileName directory generation
        Workspace.record fun j => { j with files := j.files.insert name img }
        return some name
  | _, _, _ => return none

def report (r : Reporter γ) (population : List Individual) (generation : Int) :
    Task (Workspace γ) Unit := do
  match Summary.ofPopulation population generation, Population.best population with
  | .ok s, .ok best =>
    Workspace.record fun j =>
      { j with summaries := j.summaries ++ [s], lines := j.lines ++ [s.line] }
    if r.directory.isSome then
      discard (r.keepPicture best generation)
  | .error fault, _ => throw fault
  | _, .error fault => throw fault

end Reporter

end PictureEvolution
