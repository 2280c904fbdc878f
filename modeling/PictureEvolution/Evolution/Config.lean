import PictureEvolution.Evolution.Generate
import PictureEvolution.Evolution.Select

/-!
# Configurations

The settings of an evolution. They are checked in a fixed order, and the first bad one is reported.
-/

namespace PictureEvolution

structure Config where
  catalog : Catalog
  populationSize : Int
  maxGenerations : Int
  maxInitialProgramSize : Int
  selectionMethod : SelectionMethod
  tournamentSize : Int
  /-- the tolerance of lexicase selection, if it is not computed from the errors -/
  epsilon : Option Score
  seed : Option Int

namespace Config

def standard : Config where
  catalog := []
  populationSize := 10
  maxGenerations := 2
  maxInitialProgramSize := 30
  selectionMethod := .lexicase
  tournamentSize := 10
  epsilon := none
  seed := none

def validate (c : Config) : Except ConfigFault Unit :=
  if c.catalog.isEmpty then .error .emptyCatalog
  else if c.populationSize ≤ 0 then .error .populationSize
  else if c.maxGenerations < 0 then .error .maxGenerations
  else if c.maxInitialProgramSize < 1 then .error .maxInitialProgramSize
  else if c.tournamentSize < 1 then .error .tournamentSize
  else .ok ()

end Config

end PictureEvolution
