import PictureEvolution.Machine.Pictures
import PictureEvolution.Machine.Run
import PictureEvolution.Program.Text
import PictureEvolution.Random.Twister

/-!
# Demonstration

A small program on two flat images: the condition holds, so the first image is inverted and not
searched for edges, and the result is combined with the second image.
-/

namespace PictureEvolution.Demo

def program : Program :=
  [.literal (.bool true), .instruction InstructionSet.branchName,
   .block [.instruction Filter.invert.name], .block [.instruction Filter.edge.name],
   .instruction Merge.xor.name]

def flat (side : Nat) (sample : UInt8) : Image := .ofFn side side (.channels 3) fun _ _ _ => sample

def initial : State := State.empty.loadImages [.image (flat 8 0), .image (flat 8 200)]

def final : Except Fault State :=
  let set : InstructionSet Twister := InstructionSet.basic.insertAll Action.pictures
  (set.run (.steps 1000) program initial (Twister.ofSeed 0)).1

def lines : List String :=
  match final with
  | .error fault => [fault.message.getD ""]
  | .ok s =>
    let corner := match s.peek? .image with
      | some (.image img) => (List.range img.layout.samples).map fun c =>
          Value.int (img.get 0 0 c).toNat
      | _ => []
    ["Program: " ++ program.text,
     "Images left: " ++ toString (s.stack .image).length,
     "Top-left pixel: " ++ (Value.list corner).describe]

end PictureEvolution.Demo
