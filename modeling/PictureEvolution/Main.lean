import PictureEvolution.Cli.Launch
import PictureEvolution.Demo
import PictureEvolution.Fitness.Determinant
import PictureEvolution.Png.File
import PictureEvolution.Random.Twister

/-!
# The program

Reads the files that the command line names, launches an evolution, and writes what it leaves. The
word `demo` runs the demonstration instead.
-/

namespace PictureEvolution.Cli

def lookAt (path : String) : IO (Option Found) := do
  try
    let bytes ← IO.FS.readBinFile path
    return some <| match Png.decode? bytes.data with
      | some img => .picture img
      | none => .unreadable
  catch
    | .noFileOrDirectory .. => return none
    | _ => return some .unreadable

def prepareDirectory (path : String) : IO Unit := do
  let parts := path.toList.splitOn '/'
  let directory := String.ofList (['/'].intercalate parts.dropLast)
  unless directory.isEmpty do IO.FS.createDirAll directory

def writePicture (path : String) (img : Image) : IO Unit := do
  match Png.encode? img with
  | some bytes =>
    prepareDirectory path
    IO.FS.writeBinFile path ⟨bytes⟩
  | none => throw (IO.userError ("no picture file can hold " ++ path))

def writeDocument (path : String) (d : Document) : IO Unit := do
  prepareDirectory path
  IO.FS.writeFile path (d.render 0)

def freshSeed : IO Int := do
  let bytes ← IO.getRandomBytes 16
  return bytes.data.foldl (fun n b => 256 * n + b.toNat) 0

/-- For how many steps a run without fuel is followed. -/
def horizon : Nat := 1000000000000000

def perform (a : Arguments) : IO UInt32 := do
  let paths := (a.target.getD "" :: a.inputs).map normalize
  let found ← paths.mapM fun path => do return (path, ← lookAt path)
  let files (path : String) : Option Found := (found.lookup path).join
  let seed ← match a.seed with
    | some seed => pure seed
    | none => freshSeed
  let r := launch Matrix.determinant horizon a files (Twister.ofSeed seed)
  for line in r.lines do IO.println line
  for (path, img) in r.pictures.entries do writePicture path img
  for (path, d) in r.documents.entries do writeDocument path d
  match r.ending with
  | .done => return 0
  | .stopped message =>
    IO.eprintln message
    return 1
  | .failed fault =>
    IO.eprintln (fault.message.getD "the evolution failed")
    return 1

def usage : String :=
  "settings: " ++ " ".intercalate (Setting.all.map Setting.name)

end PictureEvolution.Cli

open PictureEvolution in
def main (arguments : List String) : IO UInt32 := do
  if arguments = ["demo"] then
    for line in Demo.lines do IO.println line
    return 0
  match Cli.read arguments with
  | .ok (.evolve a) => Cli.perform a
  | .ok .help =>
    IO.println Cli.usage
    return 0
  | .error fault =>
    IO.eprintln fault.message
    return 2
