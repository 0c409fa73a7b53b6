import UnionScript.Scope.Frame
import UnionScript.Event
/-!
# TypeFile — the declared types of a scope as program text

A type file lists the types a scope declares, in the order of their declarations, as declarations that read back as the
same types.  A decorator is written only if its arguments are plain values (`isPlain`), since others need not print back
as what they were; one that is left out is logged.
-/
namespace UnionScript

/-! ## Values of decorators -/

mutual

/-- Values that print back unchanged: names, literals, and vectors, operators and calls of such. -/
def Expression.isPlain : Expression → Bool
  | .identifier _ _ | .literal _ _ => true
  | .vector _ elements => plainAll elements
  | .unary _ _ operand => operand.isPlain
  | .binary _ operator left right => !operator.isAssignment && left.isPlain && right.isPlain
  | .call _ callee arguments => callee.isPlain && plainArguments arguments
  | _ => false

def plainAll : List Expression → Bool
  | [] => true
  | e :: rest => e.isPlain && plainAll rest

def plainArguments : List Argument → Bool
  | [] => true
  | ⟨_, value⟩ :: rest => value.isPlain && plainArguments rest

end

def Literal.render : Literal → String
  | .integer text | .float text => text
  | .string content => "\"" ++ content ++ "\""
  | .boolean true => "TRUE"
  | .boolean false => "FALSE"
  | .null => "NULL"
  | .constant c => c.spelling

/-- The text of an operator between its operands: access operators stand close, the others apart. -/
def BinaryOperator.infixed (op : BinaryOperator) : String :=
  if op.isAccess then op.sign else " " ++ op.sign ++ " "

def renderName : Option (String × Span) → String
  | some (name, _) => name ++ " = "
  | none => ""

mutual

/-- The text of a plain value. -/
def Expression.render : Expression → String
  | .identifier _ name => name
  | .literal _ value => value.render
  | .vector _ elements => "(" ++ renderAll elements ++ ")"
  | .unary _ operator operand => operator.sign ++ operand.render
  | .binary _ operator left right => left.render ++ operator.infixed ++ right.render
  | .call _ callee arguments => callee.render ++ "(" ++ renderArguments arguments ++ ")"
  | _ => ""

def renderAll : List Expression → String
  | [] => ""
  | [e] => e.render
  | e :: rest => e.render ++ ", " ++ renderAll rest

def renderArguments : List Argument → String
  | [] => ""
  | [⟨name, value⟩] => renderName name ++ value.render
  | ⟨name, value⟩ :: rest => renderName name ++ value.render ++ ", " ++ renderArguments rest

end

/-! ## Declarations -/

namespace TypeEntry

def isWritable (d : Decorator) : Bool := plainArguments d.arguments

def decoratorLine (d : Decorator) : String :=
  "@" ++ d.kind.word ++ (if d.arguments.isEmpty then "" else "(" ++ renderArguments d.arguments ++ ")") ++ "\n"

/-- Whether an alternative is the type itself, as the sole member of a body of attributes is. -/
def isItself (t : TypeEntry) (member : TypeName) : Bool :=
  member.name == t.name && member.package.isNone && !member.list

/-- The entries of the body of a type: the member types, itself left out, then the attributes. -/
def bodyEntries (t : TypeEntry) : List String :=
  (t.types.alternatives.filter fun m => !t.isItself m).map TypeName.render ++
    t.attributes.map fun a => a.name ++ ": " ++ a.types.render

def body (t : TypeEntry) : String :=
  if t.bodyEntries.isEmpty then "\x7b\x7d"
  else "\x7b\n  " ++ ",\n  ".intercalate t.bodyEntries ++ "\n\x7d"

def declaration (t : TypeEntry) : String :=
  String.join ((t.decorators.filter isWritable).map decoratorLine) ++
    "type " ++ t.name ++ ": " ++ (if t.kind = .plain then t.types.render else t.kind.word ++ " " ++ t.body) ++ "\n"

def dropped (t : TypeEntry) : List Event :=
  (t.decorators.filter fun d => !isWritable d).map fun d => .decoratorDropped d.kind t.name

end TypeEntry

/-! ## Files -/

/-- The type file of a scope: its declared types with blank lines between them. -/
def Frame.typeFile (f : Frame) : String :=
  "\n".intercalate (f.declaredTypes.map TypeEntry.declaration)

def Frame.typeFileEvents (f : Frame) : List Event :=
  f.declaredTypes.flatMap TypeEntry.dropped

end UnionScript
