namespace SaveTree
namespace Cli

/-!
# Switches and words

The arguments of a command line are switches and words.  A switch has a long
name after two dashes and may have a letter after one dash.  A flag stands
alone.  Any other switch takes a value: the next argument, what follows an equals
sign, or what follows its letter.  Letters can share a dash.

A word does not begin with a dash, unless it is a single one.  After a double
dash every argument is a word.
-/

/-- A switch that a command knows. -/
structure Switch where
  name : String
  letter : Option Char
  takesValue : Bool
  deriving DecidableEq

/-- An argument by its form. -/
inductive Token where
  | word (text : String)
  | doubleDash
  | long (name : String) (value? : Option String)
  | letters (letters : List Char)
  deriving DecidableEq

/-- The form of an argument. -/
def Token.ofArgument (argument : String) : Token :=
  match argument.toList with
  | ['-', '-'] => doubleDash
  | '-' :: '-' :: rest =>
    let name := String.ofList (rest.takeWhile (· ≠ '='))
    match rest.dropWhile (· ≠ '=') with
    | _ :: value => long name (some (String.ofList value))
    | [] => long name none
  | '-' :: first :: rest => letters (first :: rest)
  | _ => word argument

/-- A switch that was given, with its value.  The value of a flag is empty. -/
structure Given where
  name : String
  value : String
  deriving DecidableEq

/-- What was given on a command line. -/
structure Reading where
  switches : List Given
  words : List String

namespace Reading

/-- Nothing was given. -/
def empty : Reading :=
  ⟨[], []⟩

/-- The switch was given. -/
def has (reading : Reading) (name : String) : Bool :=
  reading.switches.any fun given => given.name = name

/-- The value of a switch. -/
def value? (reading : Reading) (name : String) : Option String :=
  (reading.switches.find? fun given => given.name = name).map Given.value

/-- No switch was given twice. -/
def isPlain (reading : Reading) : Bool :=
  (reading.switches.map Given.name).Nodup

/-- Something given before the rest. -/
def withSwitches (given : List Given) (reading : Reading) : Reading :=
  { reading with switches := given ++ reading.switches }

/-- A word before the rest. -/
def withWord (word : String) (reading : Reading) : Reading :=
  { reading with words := word :: reading.words }

end Reading

/-- Letters that share a dash.  The last one may be a switch whose value is the
next argument. -/
def readLetters (known : List Switch) : List Char → Option (List Given × Option Switch)
  | [] => some ([], none)
  | letter :: rest => do
    let switch ← known.find? fun switch => switch.letter = some letter
    if switch.takesValue then
      match rest with
      | [] => some ([], some switch)
      | '=' :: value => some ([⟨switch.name, String.ofList value⟩], none)
      | value => some ([⟨switch.name, String.ofList value⟩], none)
    else
      let (given, open?) ← readLetters known rest
      some (⟨switch.name, ""⟩ :: given, open?)

/-- What one argument gives, and the switch that still wants a value. -/
def readSwitch (known : List Switch) : Token → Option (List Given × Option Switch)
  | .long name value? => do
    let switch ← known.find? fun switch => switch.name = name
    match switch.takesValue, value? with
    | true, some value => some ([⟨name, value⟩], none)
    | true, none => some ([], some switch)
    | false, none => some ([⟨name, ""⟩], none)
    | false, some _ => none
  | .letters letters => readLetters known letters
  | .word _ | .doubleDash => none

/-- Reads arguments up to the first word, if `stops`, and to the end otherwise.
What is left begins with that word.  A switch before them may want a value. -/
def readFrom (known : List Switch) (stops : Bool) :
    (wanting : Option Switch) → List String → Option (Reading × List String)
  | none, [] => some (.empty, [])
  | some _, [] => none
  | some switch, argument :: rest =>
    match Token.ofArgument argument with
    | .word value => do
      let (reading, left) ← readFrom known stops none rest
      some (reading.withSwitches [⟨switch.name, value⟩], left)
    | _ => none
  | none, argument :: rest =>
    match Token.ofArgument argument with
    | .doubleDash => if stops then none else some (⟨[], rest⟩, [])
    | .word word =>
      if stops then some (.empty, argument :: rest)
      else do
        let (reading, left) ← readFrom known stops none rest
        some (reading.withWord word, left)
    | token => do
      let (given, wanting) ← readSwitch known token
      let (reading, left) ← readFrom known stops wanting rest
      some (reading.withSwitches given, left)

/-- Reads the switches before the first word.  What is left begins with it. -/
def readFront (known : List Switch) (arguments : List String) : Option (Reading × List String) :=
  readFrom known true none arguments

/-- Reads all arguments. -/
def readAll (known : List Switch) (arguments : List String) : Option Reading :=
  (readFrom known false none arguments).map Prod.fst

end Cli
end SaveTree
