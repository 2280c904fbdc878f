import PictureEvolution.Evolution.Select
import PictureEvolution.Number.Numeral

/-!
# Arguments

The command line consists of settings and their values. A setting may be shortened to a beginning
that no other setting has, and its value may follow in the next argument or after an equals sign. A
later value replaces an earlier one. Whatever looks like a negative number is a value.
-/

namespace PictureEvolution.Cli

inductive Setting where
  | help
  | target
  | inputs
  | size
  | grid
  | populationSize
  | maxGenerations
  | maxInitialProgramSize
  | selection
  | tournamentSize
  | epsilon
  | inputInstructions
  | fuel
  | seed
  | resultsDir
  | reportSize
  | outJson
  | logLevel
deriving DecidableEq

namespace Setting

def all : List Setting :=
  [help, target, inputs, size, grid, populationSize, maxGenerations, maxInitialProgramSize,
   selection, tournamentSize, epsilon, inputInstructions, fuel, seed, resultsDir, reportSize,
   outJson, logLevel]

def name : Setting → String
  | help => "--help"
  | target => "--target"
  | inputs => "--inputs"
  | size => "--size"
  | grid => "--grid"
  | populationSize => "--population-size"
  | maxGenerations => "--max-generations"
  | maxInitialProgramSize => "--max-initial-program-size"
  | selection => "--selection"
  | tournamentSize => "--tournament-size"
  | epsilon => "--epsilon"
  | inputInstructions => "--input-instructions"
  | fuel => "--fuel"
  | seed => "--seed"
  | resultsDir => "--results-dir"
  | reportSize => "--report-size"
  | outJson => "--out-json"
  | logLevel => "--log-level"

inductive Arity where
  | none
  | one
  | many

def arity : Setting → Arity
  | help | inputInstructions => .none
  | inputs => .many
  | _ => .one

end Setting

inductive UsageFault where
  | ambiguous (argument : String)
  | missingValue (setting : Setting)
  | unexpectedValue (setting : Setting)
  | notAnInteger (setting : Setting) (text : String)
  | noChoice (setting : Setting) (text : String)
  | required (setting : Setting)
  | unrecognized

def UsageFault.message : UsageFault → String
  | ambiguous argument => "ambiguous option: " ++ argument
  | missingValue s => "argument " ++ s.name ++ ": a value is expected"
  | unexpectedValue s => "argument " ++ s.name ++ ": no value is expected"
  | notAnInteger s text => "argument " ++ s.name ++ ": no integer: " ++ text
  | noChoice s text => "argument " ++ s.name ++ ": no choice: " ++ text
  | required s => "required: " ++ s.name
  | unrecognized => "unrecognized arguments"

/-- What an argument is, before its place is considered. -/
inductive Token where
  | plain (text : String)
  | setting (s : Setting) (value : Option String)
  | unknown

def splitEquals (cs : List Char) : List Char × Option (List Char) :=
  match cs.dropWhile (· != '=') with
  | [] => (cs, none)
  | _ :: value => (cs.takeWhile (· != '='), some value)

/-- Whether an argument that begins with a hyphen is a negative number, with or without a point. -/
def isNegativeNumber (cs : List Char) : Bool :=
  let isDigit (c : Char) : Bool := (Numeral.digit? c).isSome
  match cs with
  | '-' :: rest =>
    match rest.dropWhile isDigit with
    | [] => !rest.isEmpty
    | '.' :: places => !places.isEmpty && places.all isDigit
    | _ => false
  | _ => false

/-- The settings that a name may stand for: the one of that name, or all that begin with it. -/
def candidates (name : String) : List Setting :=
  match Setting.all.filter (·.name = name) with
  | [] => Setting.all.filter fun s => name.toList.isPrefixOf s.name.toList
  | exact => exact

/-- The value that an argument beginning with `-h` gives to the question for help. Only what begins
with an equals sign or a hyphen counts as one; other letters are not looked at, for help comes
first. -/
def valueAfterH (cs : List Char) : Option String :=
  match cs.dropWhile (· == 'h') with
  | '=' :: value => some (String.ofList value)
  | '-' :: value => some (String.ofList ('-' :: value))
  | _ => none

def classify (argument : String) : Except UsageFault Token :=
  let cs := argument.toList
  match cs with
  | '-' :: '-' :: _ =>
    let (name, value) := splitEquals cs
    match candidates (String.ofList name) with
    | [s] => .ok (.setting s (value.map String.ofList))
    | [] => .ok (if ' ' ∈ cs then .plain argument else .unknown)
    | _ => .error (.ambiguous argument)
  | ['-'] => .ok (.plain argument)
  | '-' :: 'h' :: rest =>
    .ok (.setting .help (valueAfterH rest))
  | '-' :: _ =>
    .ok (if isNegativeNumber cs || ' ' ∈ cs then .plain argument else .unknown)
  | _ => .ok (.plain argument)

/-- What the arguments are; after a double hyphen nothing is recognized. -/
def tokens : List String → Except UsageFault (List Token)
  | [] => .ok []
  | argument :: rest =>
    if argument = "--" then .ok [.unknown] else do
      let token ← classify argument
      return token :: (← tokens rest)

structure Arguments where
  target : Option String
  inputs : List String
  size : Int
  grid : Int
  populationSize : Int
  maxGenerations : Int
  maxInitialProgramSize : Int
  selection : SelectionMethod
  tournamentSize : Int
  epsilon : String
  inputInstructions : Bool
  fuel : Int
  seed : Option Int
  resultsDir : String
  reportSize : Int
  outJson : String
  logLevel : String

def Arguments.standard : Arguments where
  target := none
  inputs := []
  size := 100
  grid := 10
  populationSize := 10
  maxGenerations := 2
  maxInitialProgramSize := 30
  selection := .lexicase
  tournamentSize := 10
  epsilon := "auto"
  inputInstructions := false
  fuel := 10000
  seed := none
  resultsDir := ""
  reportSize := 0
  outJson := ""
  logLevel := "WARNING"

def readInt (s : Setting) (text : String) : Except UsageFault Int :=
  match Numeral.int? text with
  | some n => .ok n
  | none => .error (.notAnInteger s text)

def readChoice (s : Setting) (choices : List String) (text : String) : Except UsageFault String :=
  if text ∈ choices then .ok text else .error (.noChoice s text)

namespace Arguments

def assign (a : Arguments) (s : Setting) (values : List String) : Except UsageFault Arguments :=
  let text := values.headD ""
  match s with
  | .help => .ok a
  | .target => .ok { a with target := some text }
  | .inputs => .ok { a with inputs := values }
  | .size => do return { a with size := ← readInt s text }
  | .grid => do return { a with grid := ← readInt s text }
  | .populationSize => do return { a with populationSize := ← readInt s text }
  | .maxGenerations => do return { a with maxGenerations := ← readInt s text }
  | .maxInitialProgramSize => do return { a with maxInitialProgramSize := ← readInt s text }
  | .selection => do
    let name ← readChoice s [SelectionMethod.tournament.name, SelectionMethod.lexicase.name] text
    return { a with selection := .ofName name }
  | .tournamentSize => do return { a with tournamentSize := ← readInt s text }
  | .epsilon => .ok { a with epsilon := text }
  | .inputInstructions => .ok { a with inputInstructions := true }
  | .fuel => do return { a with fuel := ← readInt s text }
  | .seed => do return { a with seed := some (← readInt s text) }
  | .resultsDir => .ok { a with resultsDir := text }
  | .reportSize => do return { a with reportSize := ← readInt s text }
  | .outJson => .ok { a with outJson := text }
  | .logLevel => do
    return { a with logLevel := ← readChoice s ["DEBUG", "INFO", "WARNING", "ERROR"] text }

end Arguments

/-- The plain values at the front, and what follows. -/
def plainValues : List Token → List String × List Token
  | .plain text :: rest =>
    let (values, rest) := plainValues rest
    (text :: values, rest)
  | rest => ([], rest)

/-- The values that a setting takes from what follows it, and what follows them. -/
def takeValues (s : Setting) (value : Option String) (rest : List Token) :
    Except UsageFault (List String × List Token) :=
  match s.arity, value with
  | .none, none => .ok ([], rest)
  | .none, some _ => .error (.unexpectedValue s)
  | _, some text => .ok ([text], rest)
  | .one, none =>
    match rest with
    | .plain text :: rest => .ok ([text], rest)
    | _ => .error (.missingValue s)
  | .many, none =>
    match plainValues rest with
    | ([], _) => .error (.missingValue s)
    | taken => .ok taken

inductive Request where
  | help
  | evolve (a : Arguments)

/-- Go through the tokens from left to right, at most so many of them. `clean` tells whether
everything was recognized so far. -/
def interpret : (steps : Nat) → (clean : Bool) → Arguments → List Token → Except UsageFault Request
  | 0, _, _, _ => .error .unrecognized
  | _ + 1, clean, a, [] =>
    if a.target.isNone then .error (.required .target)
    else if a.inputs.isEmpty then .error (.required .inputs)
    else if clean then .ok (.evolve a) else .error .unrecognized
  | steps + 1, clean, a, token :: rest =>
    match token with
    | .plain _ => interpret steps false a rest
    | .unknown => interpret steps false a rest
    | .setting s value => do
      let (values, rest) ← takeValues s value rest
      if s = .help then return .help
      interpret steps clean (← a.assign s values) rest

/-- What a command line asks for, or why it is refused. -/
def read (arguments : List String) : Except UsageFault Request := do
  let ts ← tokens arguments
  interpret (ts.length + 1) true .standard ts

end PictureEvolution.Cli
