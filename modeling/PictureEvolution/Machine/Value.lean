import PictureEvolution.Image.Basic
import PictureEvolution.Number.Shortest
import PictureEvolution.Program.Element
import PictureEvolution.Text.Quoted

/-!
# Values

The stacks and inputs of a machine hold values of any kind. Some values stand for a piece of
program: literals, texts as names of instructions, lists as blocks, and elements themselves. The
others stand for no program, and a list with such a value inside stands for none either.
-/

namespace PictureEvolution

inductive Value where
  | bool (b : Bool)
  | int (n : Int)
  | real (x : Float)
  | text (s : String)
  | nothing
  | mapping
  | list (values : List Value)
  | image (img : Image)
  | element (e : Element)

namespace Value

instance : Inhabited Value := ⟨nothing⟩

def kind : Value → String
  | bool _ => "bool"
  | int _ => "int"
  | real _ => "float"
  | text _ => "str"
  | nothing => "NoneType"
  | mapping => "dict"
  | list _ => "list"
  | image _ => "ndarray"
  | element (.literal _) => "Literal"
  | element (.instruction _) => "Instruction"
  | element (.block _) => "SubProgram"

mutual

/-- The element that a value stands for, or the first value inside that stands for none. -/
def toElement : Value → Except Value Element
  | bool b => .ok (.literal (.bool b))
  | int n => .ok (.literal (.int n))
  | text s => .ok (.instruction s)
  | element e => .ok e
  | list values => (toElements values).map .block
  | real x => .error (real x)
  | nothing => .error nothing
  | mapping => .error mapping
  | image img => .error (image img)

/-- The program that a list of values stands for. -/
def toElements : List Value → Except Value (List Element)
  | [] => .ok []
  | v :: rest =>
    match toElement v with
    | .error offender => .error offender
    | .ok e => (toElements rest).map (e :: ·)

end

def ofLiteral : Literal → Value
  | .bool b => bool b
  | .int n => int n

/-- Whether a value counts as true: zero, empty and absent values do not. An image counts by its
only sample, and is undecided when it has several. -/
def isTrue? : Value → Option Bool
  | bool b => some b
  | int n => some (n != 0)
  | real x => some (x != 0.0)
  | text s => some (!s.isEmpty)
  | nothing => some false
  | mapping => some false
  | list values => some (!values.isEmpty)
  | element _ => some true
  | image img =>
    match img.bytes.toList with
    | [] => some false
    | [b] => some (b != 0)
    | _ => none

def commas (texts : List String) : String := String.intercalate ", " texts

def describeBool (b : Bool) : String := if b then "True" else "False"

mutual

def describeElement : Element → String
  | .literal (.bool b) => "Literal(value=" ++ describeBool b ++ ")"
  | .literal (.int n) => "Literal(value=" ++ toString n ++ ")"
  | .instruction name => "Instruction(name=" ++ Text.quoted name ++ ")"
  | .block [e] => "SubProgram(elements=(" ++ describeElement e ++ ",))"
  | .block elements => "SubProgram(elements=(" ++ commas (describeElements elements) ++ "))"

def describeElements : List Element → List String
  | [] => []
  | e :: rest => describeElement e :: describeElements rest

end

mutual

def describe : Value → String
  | bool b => describeBool b
  | int n => toString n
  | real x => Decimal.ofFloat x
  | text s => Text.quoted s
  | nothing => "None"
  | mapping => "\x7b\x7d"
  | list values => "[" ++ commas (describeAll values) ++ "]"
  | image img => "array of " ++ toString img.height ++ " by " ++ toString img.width ++ " pixels"
  | element e => describeElement e

def describeAll : List Value → List String
  | [] => []
  | v :: rest => describe v :: describeAll rest

end

end Value

end PictureEvolution
