import PictureEvolution.Report.Summary
import PictureEvolution.Table

/-!
# Workspaces

What an evolution of pictures works on beside its populations: the source of randomness, the case
values of targets that were seen before, and the journal of reports. Each activity touches one part
of it and leaves the others alone.
-/

namespace PictureEvolution

/-- A target image. Targets are told apart by a key, however alike they look. -/
structure Target where
  key : Nat
  image : Image
deriving DecidableEq

abbrev TargetCache := Table Nat (Target × List Float)

/-- What was reported: summaries, lines, and pictures by the name of their file. -/
structure Journal where
  summaries : List Summary
  lines : List String
  files : Table String Image

def Journal.empty : Journal := ⟨[], [], ∅⟩

structure Workspace (γ : Type) where
  source : γ
  cache : TargetCache
  journal : Journal

namespace Workspace

variable {γ α : Type}

def ofSource (source : γ) : Workspace γ := ⟨source, ∅, .empty⟩

instance [Source γ] : Source (Workspace γ) where
  answer q w :=
    let (a, source) := Source.answer q w.source
    (a, { w with source })

def onSource (task : Task γ α) : Task (Workspace γ) α := fun w =>
  let (a, source) := task w.source
  (a, { w with source })

def onCache (look : Task TargetCache α) : Task (Workspace γ) α := fun w =>
  let (a, cache) := look w.cache
  (a, { w with cache })

def record (f : Journal → Journal) : Task (Workspace γ) Unit := fun w =>
  (.ok (), { w with journal := f w.journal })

end Workspace

end PictureEvolution
