import UnionScript.Text.Json
import UnionScript.Grammar.Nesting
/-!
# Options — how a check is set up

The options are whether tokens are logged, how deep programs may nest, and what packages export.  They are written as a
JSON object, or as an array of the values in this order; what is left out has its default, and anything else is refused.
-/
namespace UnionScript

/-- The names that packages export, sorted by package. -/
abbrev PackageTable := List (String × List String)

namespace PackageTable

/-- Puts a package into a table in its place; it takes the place of an entry of its name. -/
def insert (name : String) (exports : List String) : PackageTable → PackageTable
  | [] => [(name, exports)]
  | (other, known) :: rest =>
    match Ord.compare name other with
    | .lt => (name, exports) :: (other, known) :: rest
    | .eq => (name, exports) :: rest
    | .gt => (other, known) :: insert name exports rest

/-- The table of some entries; of those with one name the last counts. -/
def ofList (entries : List (String × List String)) : PackageTable :=
  entries.foldl (fun table e => insert e.1 e.2 table) []

def toJson (table : PackageTable) : String :=
  Text.Json.writeObject (table.map fun e => (e.1, Text.Json.writeArray (e.2.map Text.Json.writeString)))

end PackageTable

/-- How a check is set up. -/
structure Options where
  dumpTokens : Bool := false
  maxDepth : Nat := defaultDepthLimit
  packages : PackageTable := []
  deriving Repr, DecidableEq

namespace Options

open Text.Json (Reader)

def invalidMessage : String := "Failed to parse compile options"

/-- One more than the largest limit on nesting that can be written. -/
def depthBound : Nat := UInt64.size

def packageTable : Reader PackageTable := fun cs =>
  let entry : Reader (String × List String) := Text.Json.field fun name rest =>
    (Text.Json.items '[' ']' Text.Json.string rest).map fun taken => ((name, taken.1), taken.2)
  (Text.Json.items '{' '}' entry cs).map fun taken => (PackageTable.ofList taken.1, taken.2)

/-- A field of the object form. -/
inductive Field where
  | dumpTokens (value : Bool)
  | maxDepth (value : Nat)
  | packages (value : PackageTable)

namespace Field

def name : Field → String
  | dumpTokens _ => "dump_tokens"
  | maxDepth _ => "max_depth"
  | packages _ => "packages"

/-- Takes the value of the field of a name; there are no other fields. -/
def value (name : String) : Reader Field := fun cs =>
  match name with
  | "dump_tokens" => (Text.Json.boolean cs).map fun taken => (dumpTokens taken.1, taken.2)
  | "max_depth" => (Text.Json.natural depthBound cs).map fun taken => (maxDepth taken.1, taken.2)
  | "packages" => (packageTable cs).map fun taken => (packages taken.1, taken.2)
  | _ => none

def set (options : Options) : Field → Options
  | dumpTokens b => { options with dumpTokens := b }
  | maxDepth n => { options with maxDepth := n }
  | packages table => { options with packages := table }

end Field

/-- Takes the object form, in which no field may come twice. -/
def object : Reader Options := fun cs => do
  let (fields, rest) ← Text.Json.items '{' '}' (Text.Json.field Field.value) cs
  if (fields.map Field.name).Nodup then some (fields.foldl Field.set {}, rest) else none

/-- Takes the values of some fields in order, with commas between them, up to the closing bracket.  The values behind a
closing bracket that comes early are left out. -/
def valuesBehind (options : Options) : List String → Reader Options
  | [], cs => (Text.Json.sign ']' cs).map fun taken => (options, taken.2)
  | name :: more, cs =>
    match Text.Json.sign ']' cs with
    | some (_, rest) => some (options, rest)
    | none => do
      let (_, rest) ← Text.Json.sign ',' cs
      let (field, rest) ← Field.value name rest
      valuesBehind (field.set options) more rest

def array : Reader Options := fun cs => do
  let (_, rest) ← Text.Json.sign '[' cs
  match Text.Json.sign ']' rest with
  | some (_, rest) => some ({}, rest)
  | none =>
    let (field, rest) ← Field.value "dump_tokens" rest
    valuesBehind (field.set {}) ["max_depth", "packages"] rest

def ofJson? (text : String) : Option Options :=
  match (object text.toList).or (array text.toList) with
  | some (options, rest) => if Text.Json.isDone rest then some options else none
  | none => none

/-- The written form, an object of all fields without blanks. -/
def toJson (options : Options) : String :=
  Text.Json.writeObject [
    ("dump_tokens", if options.dumpTokens then "true" else "false"),
    ("max_depth", toString options.maxDepth),
    ("packages", options.packages.toJson)]

end Options
end UnionScript
