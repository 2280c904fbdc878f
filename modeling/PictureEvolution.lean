import PictureEvolution.Table
import PictureEvolution.Random.Source
import PictureEvolution.Random.Twister
import PictureEvolution.Random.Congruential
import PictureEvolution.Number.Binary
import PictureEvolution.Number.Decimal
import PictureEvolution.Number.Shortest
import PictureEvolution.Number.Numeral
import PictureEvolution.Text.Quoted
import PictureEvolution.Score
import PictureEvolution.Image.Convolution
import PictureEvolution.Image.Overlay
import PictureEvolution.Image.Rearrange
import PictureEvolution.Image.Retouch
import PictureEvolution.Image.Resize
import PictureEvolution.Program.Text
import PictureEvolution.Machine.Fault
import PictureEvolution.Machine.Run
import PictureEvolution.Machine.Pictures
import PictureEvolution.Evolution.Evolve
import PictureEvolution.Report.Reporter
import PictureEvolution.Demo
import PictureEvolution.Cli.Launch
import PictureEvolution.Main
import PictureEvolution.Proofs.Program.Contents
import PictureEvolution.Proofs.Machine.Task
import PictureEvolution.Proofs.Machine.Steps
import PictureEvolution.Proofs.Machine.Stacks
import PictureEvolution.Proofs.Machine.Moves
import PictureEvolution.Proofs.Machine.Termination
import PictureEvolution.Proofs.Evolution.Agreement
import PictureEvolution.Proofs.Evolution.Observed
import PictureEvolution.Proofs.Evolution.Accounting
import PictureEvolution.Proofs.Evolution.Variation
import PictureEvolution.Proofs.Machine.Validation
import PictureEvolution.Proofs.Evolution.GenePool
import PictureEvolution.Proofs.Image.Shape
import PictureEvolution.Proofs.Machine.Likeness
import PictureEvolution.Proofs.Fitness.Output
import PictureEvolution.Proofs.Machine.Drawing
import PictureEvolution.Proofs.Report.Rerun
import PictureEvolution.Proofs.Cli.Reporting
import PictureEvolution.Proofs.Machine.Limits
import PictureEvolution.Proofs.Machine.Safety
import PictureEvolution.Proofs.Machine.Folding
import PictureEvolution.Proofs.Machine.Gallery
import PictureEvolution.Proofs.Fitness.Penalty
import PictureEvolution.Proofs.Number.Parts
import PictureEvolution.Proofs.Score
import PictureEvolution.Proofs.Evolution.Attempts
import PictureEvolution.Proofs.Evolution.Restart
import PictureEvolution.Proofs.Evolution.Solution
import PictureEvolution.Proofs.Evolution.Selection
import PictureEvolution.Proofs.Evolution.Upkeep
import PictureEvolution.Proofs.Fitness.Cases
import PictureEvolution.Proofs.Machine.Inputs
import PictureEvolution.Proofs.Machine.Arguments
import PictureEvolution.Proofs.Machine.Operations
import PictureEvolution.Proofs.Cli.Summary
import PictureEvolution.Proofs.Evolution.Discrimination
import PictureEvolution.Proofs.Machine.Refusal
import PictureEvolution.Proofs.Evolution.Dominance
import PictureEvolution.Proofs.Evolution.Parents
import PictureEvolution.Proofs.Random.Scripts
import PictureEvolution.Proofs.Evolution.Crossover
import PictureEvolution.Proofs.Evolution.Edits
import PictureEvolution.Proofs.Machine.Substitution
import PictureEvolution.Proofs.Random.Records
import PictureEvolution.Proofs.Machine.Transcripts
import PictureEvolution.Proofs.Cli.Pictures
import PictureEvolution.Proofs.Image.Rearrangement
import PictureEvolution.Proofs.Image.Splitting
import PictureEvolution.Proofs.Number.Whole
import PictureEvolution.Proofs.Image.Convolution
import PictureEvolution.Proofs.Image.Symmetry
import PictureEvolution.Proofs.Image.Bitwise
import PictureEvolution.Proofs.Fitness.Tiling
import PictureEvolution.Proofs.Program.Readability
import PictureEvolution.Proofs.Cli.Programs
import PictureEvolution.Proofs.Fitness.Caching
