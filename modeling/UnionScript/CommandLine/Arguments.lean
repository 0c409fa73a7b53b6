import UnionScript.Text.Json
/-!
# Arguments — what a command line asks for

A command line is a list of words: options, some of which take a value, and paths.  The value of an option is the next
word, or follows an equals sign; behind `--` every word is a path.
-/
namespace UnionScript

/-- What a command line asks for. -/
structure Invocation where
  paths : List String := []
  config : Option String := none
  typesOut : Option String := none
  types : List String := []
  dumpTokens : Bool := false
  maxDepth : Option Nat := none
  json : Bool := false
  verbose : Bool := false
  deriving Repr, DecidableEq

/-- Why a command line is not run. -/
inductive UsageStop where
  | help
  | version
  | unknownOption (word : String)
  | missingValue (option : String)
  | repeatedOption (option : String)
  | invalidValue (option value : String)
  deriving Repr, DecidableEq

def usageLine : String := "Usage: vapour [OPTIONS] [PATHS]..."

namespace UsageStop

def message : UsageStop → String
  | help => "Check vapour source files.\n\n" ++ usageLine
  | version => "vapour 0.1.0"
  | unknownOption word => s!"error: unexpected argument '{word}' found\n\n" ++ usageLine
  | missingValue option => s!"error: a value is required for '{option}' but none was supplied\n\n" ++ usageLine
  | repeatedOption option => s!"error: the argument '{option}' cannot be used multiple times\n\n" ++ usageLine
  | invalidValue option value => s!"error: invalid value '{value}' for '{option}'\n\n" ++ usageLine

def exitCode : UsageStop → Nat
  | help | version => 0
  | _ => 2

end UsageStop

namespace Invocation

/-- The number written by some digits, perhaps behind a plus sign, if it is below a bound. -/
def natural? (bound : Nat) (value : String) : Option Nat :=
  let digits := match value.toList with
    | '+' :: rest => rest
    | all => all
  if digits.isEmpty || !digits.all Char.isDigit || bound ≤ Text.Json.digitsValue digits then none
  else some (Text.Json.digitsValue digits)

/-- Sets an option that may be set once. -/
def once {α : Type} (option : String) (known : Option α) (value : α) : Except UsageStop (Option α) :=
  match known with
  | none => .ok (some value)
  | some _ => .error (.repeatedOption option)

/-- Sets a switch that may be set once. -/
def switch (option : String) (known : Bool) : Except UsageStop Bool :=
  if known then .error (.repeatedOption option) else .ok true

def takesValue (option : String) : Bool :=
  option == "--config" || option == "--types-out" || option == "--types" || option == "--max-depth"

def setValue (inv : Invocation) (option value : String) : Except UsageStop Invocation :=
  if value.isEmpty then .error (.missingValue option)
  else match option with
    | "--config" => do return { inv with config := ← once option inv.config value }
    | "--types-out" => do return { inv with typesOut := ← once option inv.typesOut value }
    | "--types" => .ok { inv with types := inv.types ++ [value] }
    | _ =>
      match natural? UInt64.size value with
      | some n => do return { inv with maxDepth := ← once option inv.maxDepth n }
      | none => .error (.invalidValue option value)

def setSwitch (inv : Invocation) (word : String) : Except UsageStop Invocation :=
  match word with
  | "--dump-tokens" => do return { inv with dumpTokens := ← switch word inv.dumpTokens }
  | "--json" => do return { inv with json := ← switch word inv.json }
  | "-v" | "--verbose" => do return { inv with verbose := ← switch word inv.verbose }
  | "-h" | "--help" => .error .help
  | "-V" | "--version" => .error .version
  | _ => .error (.unknownOption word)

def addPath (inv : Invocation) (path : String) : Except UsageStop Invocation :=
  if path.isEmpty then .error (.missingValue "[PATHS]...") else .ok { inv with paths := inv.paths ++ [path] }

def isOption (word : String) : Bool :=
  word.toList.head? == some '-' && word != "-"

/-- The two sides of the first equals sign of a word, if it has one. -/
def splitEquals? (word : String) : Option (String × String) :=
  match word.toList.dropWhile (· != '=') with
  | _ :: value => some (String.ofList (word.toList.takeWhile (· != '=')), String.ofList value)
  | [] => none

def readFrom (inv : Invocation) : List String → Except UsageStop Invocation
  | [] => .ok inv
  | word :: rest =>
    if word = "--" then rest.foldlM addPath inv
    else if takesValue word then
      match rest with
      | value :: more => do
        if isOption value then .error (.missingValue word)
        else readFrom (← inv.setValue word value) more
      | [] => .error (.missingValue word)
    else if isOption word then
      match splitEquals? word with
      | some (option, value) => do
        if takesValue option then readFrom (← inv.setValue option value) rest
        else .error (.unknownOption word)
      | none => do readFrom (← inv.setSwitch word) rest
    else do readFrom (← inv.addPath word) rest

def ofWords (words : List String) : Except UsageStop Invocation := readFrom {} words

end Invocation
end UnionScript
