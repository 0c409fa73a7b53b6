import UnionScript.Program.Tree
/-!
# Frame — the names one scope declares

A frame holds the variables, types and functions declared in one scope, each name at most once in each of the three:
declaring a name again takes the place of the earlier entry (`put`).  The types of a frame know the order in which they
were declared, because a type file lists them in it.
-/
namespace UnionScript

/-! ## Entries -/

/-- A declared variable. -/
structure Variable where
  name : String
  types : Union
  constant : Bool
  span : Span
  deriving DecidableEq

/-- A parameter as callers see it. -/
structure ParameterSignature where
  name : String
  types : Union
  hasDefault : Bool
  deriving DecidableEq

/-- A declared function as callers see it. -/
structure FunctionSignature where
  name : String
  parameters : List ParameterSignature
  returnTypes : Option Union
  span : Span
  deriving DecidableEq

namespace FunctionSignature

def isVariadic (f : FunctionSignature) : Bool :=
  f.parameters.any fun p => p.name == ellipsisName

/-- The first parameter of a name. -/
def parameter? (f : FunctionSignature) (name : String) : Option ParameterSignature :=
  f.parameters.find? fun p => p.name == name

end FunctionSignature

/-- A declared type.  Built-in types stand for themselves and have no place in the order of declarations. -/
structure TypeEntry where
  name : String
  types : Union
  list : Bool
  kind : TypeKind
  attributes : List TypedName
  classes : List String
  decorators : List Decorator
  builtin : Bool
  span : Span
  order : Nat

namespace TypeEntry

def ofBuiltin (name : String) : TypeEntry where
  name
  types := .named name
  list := false
  kind := .plain
  attributes := []
  classes := []
  decorators := []
  builtin := true
  span := .nowhere
  order := 0

/-- The first attribute of a name. -/
def attribute? (t : TypeEntry) (name : String) : Option TypedName :=
  t.attributes.find? fun a => a.name == name

end TypeEntry

namespace Frame

/-- Puts an entry among others; it takes the place of one with its name. -/
def put {α : Type} (nameOf : α → String) (a : α) (entries : List α) : List α :=
  entries.filter (fun b => nameOf b != nameOf a) ++ [a]

theorem find?_put {α : Type} (nameOf : α → String) (a : α) (entries : List α) (name : String) :
    (put nameOf a entries).find? (fun b => nameOf b == name) =
      if nameOf a = name then some a else entries.find? (fun b => nameOf b == name) := by
  induction entries with
  | nil => by_cases h : nameOf a = name <;> simp [put, h]
  | cons b rest ih =>
    by_cases hb : nameOf b = nameOf a
    · have hput : put nameOf a (b :: rest) = put nameOf a rest := by simp [put, hb]
      rw [hput, ih]
      by_cases h : nameOf a = name
      · simp [h]
      · simp [h, hb]
    · have hput : put nameOf a (b :: rest) = b :: put nameOf a rest := by simp [put, hb]
      rw [hput, List.find?_cons, List.find?_cons, ih]
      by_cases hn : nameOf b = name
      · have h : nameOf a ≠ name := fun e => hb (hn.trans e.symm)
        simp [hn, h]
      · have hfalse : (nameOf b == name) = false := by simpa using hn
        simp [hfalse]

end Frame

/-! ## Frames -/

/-- What a scope belongs to. -/
inductive FrameKind where
  | root
  | function
  | loop
  | branch
  | block
  deriving Repr, DecidableEq

def FrameKind.tag : FrameKind → String
  | root => "Root"
  | function => "Function"
  | loop => "Loop"
  | branch => "Branch"
  | block => "Block"

/-- The names one scope declares. -/
structure Frame where
  kind : FrameKind
  bindings : List Variable := []
  types : List TypeEntry := []
  functions : List FunctionSignature := []

namespace Frame

/-- The outermost frame of a fresh program: it declares the built-in types. -/
def builtin : Frame where
  kind := .root
  types := builtinTypes.map TypeEntry.ofBuiltin

def findVariable? (f : Frame) (name : String) : Option Variable :=
  f.bindings.find? fun v => v.name == name

def findType? (f : Frame) (name : String) : Option TypeEntry :=
  f.types.find? fun t => t.name == name

def findFunction? (f : Frame) (name : String) : Option FunctionSignature :=
  f.functions.find? fun g => g.name == name

def putVariable (f : Frame) (v : Variable) : Frame :=
  { f with bindings := put Variable.name v f.bindings }

def putType (f : Frame) (t : TypeEntry) : Frame :=
  { f with types := put TypeEntry.name t f.types }

def putFunction (f : Frame) (g : FunctionSignature) : Frame :=
  { f with functions := put FunctionSignature.name g f.functions }

def declaredTypes (f : Frame) : List TypeEntry :=
  (f.types.filter fun t => !t.builtin).mergeSort fun s t => s.order ≤ t.order

end Frame
end UnionScript
