import UnionScript.Scope.Frame
/-!
# Environment — the chain of scopes around a place in a program

Frames are entered and left like a stack, and the root frame below them is never left, so it stands apart from the
others in the type.  A name is looked up from the innermost frame outwards.  What happens to an environment is a list
of changes (`Change`), and every environment a program can bring about is `run` from a root frame by some of them.
-/
namespace UnionScript

/-- The scopes around a place, the innermost first, and the number the next declared type gets. -/
structure Environment where
  inner : List Frame
  root : Frame
  nextOrder : Nat

namespace Environment

/-! ## Frames -/

/-- The environment in which only a root frame is open.  New types come behind all of its types. -/
def ofRoot (root : Frame) : Environment where
  inner := []
  root
  nextOrder := ((root.types.map fun t => t.order + 1).max?).getD 1

def initial : Environment := ofRoot .builtin

/-- The open frames, the innermost first. -/
def frames (env : Environment) : List Frame := env.inner ++ [env.root]

def depth (env : Environment) : Nat := env.inner.length + 1

/-- The innermost frame. -/
def current (env : Environment) : Frame := env.inner.head?.getD env.root

/-- Changes the innermost frame. -/
def modifyCurrent (env : Environment) (f : Frame → Frame) : Environment :=
  match env.inner with
  | [] => { env with root := f env.root }
  | frame :: outer => { env with inner := f frame :: outer }

def push (env : Environment) (kind : FrameKind) : Environment :=
  { env with inner := { kind } :: env.inner }

/-- Closes the innermost frame; the root frame stays open. -/
def pop (env : Environment) : Environment :=
  { env with inner := env.inner.tail }

def top? (env : Environment) : Option Frame := env.inner.head?

/-! ## Names -/

def findVariable? (env : Environment) (name : String) : Option Variable :=
  env.frames.findSome? fun f => f.findVariable? name

def findType? (env : Environment) (name : String) : Option TypeEntry :=
  env.frames.findSome? fun f => f.findType? name

def findFunction? (env : Environment) (name : String) : Option FunctionSignature :=
  env.frames.findSome? fun f => f.findFunction? name

/-- Whether the innermost frame declares a function of a name. -/
def declaresFunctionHere (env : Environment) (name : String) : Bool :=
  (env.current.findFunction? name).isSome

/-- Declares a variable in the innermost frame. -/
def declareVariable (env : Environment) (v : Variable) : Environment :=
  env.modifyCurrent fun f => f.putVariable v

/-- Declares a type in the innermost frame, behind all types declared before. -/
def declareType (env : Environment) (t : TypeEntry) : Environment :=
  { env.modifyCurrent (fun f => f.putType { t with order := env.nextOrder }) with nextOrder := env.nextOrder + 1 }

/-- Declares a function in the innermost frame. -/
def declareFunction (env : Environment) (g : FunctionSignature) : Environment :=
  env.modifyCurrent fun f => f.putFunction g

/-- Whether an alternative can be resolved: its name is declared, or it is in a package, which is not looked into. -/
def isDefined (env : Environment) (t : TypeName) : Bool :=
  t.package.isSome || (env.findType? t.name).isSome

/-! ## Where a place is -/

def inFunction (env : Environment) : Bool :=
  env.frames.any fun f => f.kind == .function

/-- Whether, going outwards over frames of these kinds, a loop comes before any function. -/
def loopFirst : List FrameKind → Bool
  | [] => false
  | .loop :: _ => true
  | .function :: _ | .root :: _ => false
  | .branch :: outer | .block :: outer => loopFirst outer

/-- Whether a loop is around, and no function between it and this place. -/
def inLoop (env : Environment) : Bool :=
  loopFirst (env.frames.map Frame.kind)

/-! ## Changes -/

/-- What can happen to an environment. -/
inductive Change where
  | push (kind : FrameKind)
  | pop
  | variable (v : Variable)
  | type (t : TypeEntry)
  | function (g : FunctionSignature)

def apply (env : Environment) : Change → Environment
  | .push kind => env.push kind
  | .pop => env.pop
  | .variable v => env.declareVariable v
  | .type t => env.declareType t
  | .function g => env.declareFunction g

/-- The environment after some changes, the first one first. -/
def run (env : Environment) (changes : List Change) : Environment :=
  changes.foldl apply env

end Environment
end UnionScript
