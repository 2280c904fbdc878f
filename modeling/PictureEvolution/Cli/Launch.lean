import PictureEvolution.Cli.Arguments
import PictureEvolution.Cli.Document
import PictureEvolution.Evolution.Evolve
import PictureEvolution.Machine.Pictures
import PictureEvolution.Report.Reporter
import PictureEvolution.Workspace

/-!
# Launching an evolution

From the arguments and the pictures that they name to the lines, pictures and documents of a whole
evolution. Selection, variation and the picture instructions draw from one source. The checks come
in a fixed order: the files are there, the tolerance and the pictures can be read, the grid has
sections, the settings are good.
-/

namespace PictureEvolution.Cli

inductive Found where
  | picture (img : Image)
  | unreadable

inductive Ending where
  | done
  /-- stopped with a message for the user -/
  | stopped (message : String)
  | failed (fault : Fault)

/-- What a launch leaves: lines of output, pictures and documents by their paths. -/
structure Result where
  ending : Ending
  lines : List String
  pictures : Table String Image
  documents : Table String Document

/-- A path with single separators and without parts that stay where they are. -/
def normalize (path : String) : String :=
  let parts := (path.toList.splitOn '/').filter fun part => !part.isEmpty && part != ['.']
  let body := String.ofList (['/'].intercalate parts)
  if path.startsWith "/" then "/" ++ body else if parts.isEmpty then "." else body

/-- The tolerance that a text sets: computed from the errors, or a number. -/
def readEpsilon (text : String) : Except String (Option Score) :=
  if text = "auto" then .ok none else
  match Numeral.float? text with
  | some x => .ok (some (.real x))
  | none => .error ("could not convert string to float: " ++ Text.quoted text)

/-- The picture at a path in three channels and a square size. -/
def load (files : String → Option Found) (size : Int) (path : String) : Except String Image :=
  match files (normalize path) with
  | some (.picture img) =>
    match img.toRgb.resizeCubic? size size with
    | some resized => .ok resized
    | none => .error "height and width must be > 0"
  | _ => .error ("cannot identify image file " ++ Text.quoted (normalize path))

def missing? (files : String → Option Found) (paths : List String) : Option String :=
  (paths.map normalize).find? fun path => (files path).isNone

/-- What the arguments name, read and checked. -/
structure Material where
  epsilon : Option Score
  target : Image
  inputs : List Image

def readMaterial (a : Arguments) (files : String → Option Found) : Except String Material := do
  let epsilon ← readEpsilon a.epsilon
  let target ← load files a.size (a.target.getD "")
  let inputs ← a.inputs.mapM (load files a.size)
  return ⟨epsilon, target, inputs⟩

section Setup

variable {γ : Type} [Source γ]

def instructionSet (a : Arguments) (inputs : Nat) : InstructionSet γ :=
  let set : InstructionSet γ := InstructionSet.basic.insertAll Action.pictures
  if a.inputInstructions then set.insertAll (Action.inputs inputs) else set

def catalog (a : Arguments) (inputs : Nat) : Catalog :=
  defaultCatalog ++
    if a.inputInstructions then
      (List.range inputs).map fun i => .instruction (State.inputKey (i + 1))
    else []

/-- The limit of each run. Without fuel in the arguments, a run is followed up to a horizon. -/
def limit (horizon : Nat) (a : Arguments) : Limit :=
  if 0 < a.fuel then .steps a.fuel else .unlimited horizon

def config (a : Arguments) (m : Material) : Config where
  catalog := catalog a m.inputs.length
  populationSize := a.populationSize
  maxGenerations := a.maxGenerations
  maxInitialProgramSize := a.maxInitialProgramSize
  selectionMethod := a.selection
  tournamentSize := a.tournamentSize
  epsilon := m.epsilon
  seed := a.seed

def Material.values (m : Material) : List Value := m.inputs.map .image

/-- The state on which every program runs: the input images on their stack. -/
def Material.state (m : Material) : State := State.empty.loadImages m.values

def reporter (a : Arguments) (m : Material) (limit : Limit) : Reporter γ where
  instructions := some (instructionSet a m.inputs.length)
  initial := some m.state
  inputs := m.values
  directory := if a.resultsDir.isEmpty then none else some (normalize a.resultsDir)
  limit := limit
  size := if 0 < a.reportSize then some (a.reportSize, a.reportSize) else none

def experiment (a : Arguments) (m : Material) (scorer : Scorer γ) : Experiment (Workspace γ) where
  config := config a m
  evaluate := scorer.evaluate m.state m.values ⟨0, m.target⟩
  report population generation := (reporter a m scorer.limit).report population generation

end Setup

def finalLine (a : Arguments) (o : Outcome) (best : Float) : String :=
  "FINAL status=" ++ o.status.name ++ " generation=" ++ toString o.generation ++ " best=" ++
    Decimal.fixed 6 best ++ " selection=" ++ a.selection.name

def generationDocument (s : Summary) : Document :=
  .object [
    ("generation", .int s.generation),
    ("best_total_error", .real s.best),
    ("mean_total_error", .real s.mean),
    ("best_size", .int s.size),
    ("best_program", .text s.program)]

def summaryDocument (a : Arguments) (summaries : List Summary) (o : Outcome) (best : Float) :
    Document :=
  .object [
    ("meta", .object [
      ("target", .text (a.target.getD "")),
      ("inputs", .list (a.inputs.map .text)),
      ("population_size", .int a.populationSize),
      ("max_generations", .int a.maxGenerations),
      ("selection", .text a.selection.name),
      ("seed", a.seed.elim .null .int)]),
    ("history", .list (summaries.map generationDocument)),
    ("final", .object [
      ("status", .text o.status.name),
      ("generation", .int o.generation),
      ("best_total_error", .real best),
      ("best_program", .text o.best.program.text)])]

namespace Result

def stop (message : String) : Result := ⟨.stopped message, [], ∅, ∅⟩

def fail (fault : Fault) (j : Journal) : Result := ⟨.failed fault, j.lines, j.files, ∅⟩

end Result

/-- Evolve pictures as the arguments say, with a way to find determinants, and a horizon for runs
without fuel. -/
def launch {γ : Type} [Source γ] (determinant : List (List Float) → Float) (horizon : Nat)
    (a : Arguments) (files : String → Option Found) (source : γ) : Result :=
  match missing? files (a.target.getD "" :: a.inputs) with
  | some path => .stop ("missing image file: " ++ path)
  | none =>
    match readMaterial a files with
    | .error reason => .stop ("invalid arguments: " ++ reason)
    | .ok m =>
      match Scorer.make (instructionSet a m.inputs.length) a.grid (limit horizon a) determinant with
      | .error fault => .fail fault .empty
      | .ok scorer =>
        match (config a m).validate with
        | .error fault => .stop ("invalid configuration: " ++ fault.message)
        | .ok () =>
          match (experiment a m scorer).evolve (.ofSource source) with
          | (.error fault, w) => .fail fault w.journal
          | (.ok o, w) =>
            match o.best.total.toFloat with
            | .error fault => .fail (.score fault) w.journal
            | .ok best => {
                ending := .done
                lines := w.journal.lines ++ [finalLine a o best]
                pictures := w.journal.files
                documents :=
                  if a.outJson.isEmpty then ∅
                  else Table.ofList
                    [(normalize a.outJson, summaryDocument a w.journal.summaries o best)] }

end PictureEvolution.Cli
