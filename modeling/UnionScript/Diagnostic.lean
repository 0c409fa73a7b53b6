import UnionScript.Span
/-!
# Diagnostic — what a check reports, and the views of it

A diagnostic is a message of some severity about a span.  A check reports many; a list of them is shown as it came
about, thinned to the first one of each place or line, or sorted by place.  Thinning keeps the first of those that
share a key (`firstOfEach`), and sorting keeps the order of those at one place.
-/
namespace UnionScript

/-! ## Severities -/

/-- How much a diagnostic matters, the gravest first. -/
inductive Severity where
  | fatal
  | warn
  | info
  | hint
  deriving Repr, DecidableEq

namespace Severity

def code : Severity → Nat
  | fatal => 1
  | warn => 2
  | info => 3
  | hint => 4

def label : Severity → String
  | fatal => "error"
  | warn => "warning"
  | info => "info"
  | hint => "hint"

def all : List Severity := [fatal, warn, info, hint]

end Severity

/-! ## Diagnostics -/

/-- A message of some severity about a span. -/
structure Diagnostic where
  severity : Severity
  span : Span
  message : String
  deriving Repr, DecidableEq

namespace Diagnostic

/-- The written form `file:line:column: severity: message`. -/
def render (d : Diagnostic) : String :=
  s!"{d.span.file}:{d.span.first.line}:{d.span.first.column}: {d.severity.label}: {d.message}"

def lineKey (d : Diagnostic) : String × Nat := (d.span.file, d.span.first.line)

def placeKey (d : Diagnostic) : String × Position := (d.span.file, d.span.first)

def compare (d e : Diagnostic) : Ordering :=
  (Ord.compare d.span.file e.span.file).then (d.span.first.compare e.span.first)

def isFatal (d : Diagnostic) : Bool := d.severity == .fatal

end Diagnostic

/-! ## Views -/

/-- The items whose key is the key of no item before them and of none of the keys already seen. -/
def firstOfEach {α κ : Type} [DecidableEq κ] (key : α → κ) (seen : List κ) : List α → List α
  | [] => []
  | a :: rest => if key a ∈ seen then firstOfEach key seen rest else a :: firstOfEach key (key a :: seen) rest

/-- The ways to look at a list of diagnostics. -/
inductive DiagnosticView where
  | raw
  | uniqueByPosition
  | uniqueByLine
  | sorted
  /-- One diagnostic a line, sorted: what a command line shows. -/
  | commandLine
  deriving Repr, DecidableEq

namespace Diagnostic

/-- The first diagnostic of each place. -/
def uniqueByPosition (ds : List Diagnostic) : List Diagnostic := firstOfEach placeKey [] ds

/-- The first diagnostic of each line. -/
def uniqueByLine (ds : List Diagnostic) : List Diagnostic := firstOfEach lineKey [] ds

/-- The diagnostics by file, line and column; those at one place stay in the order they came in. -/
def sorted (ds : List Diagnostic) : List Diagnostic := ds.mergeSort fun d e => (d.compare e).isLE

def view (ds : List Diagnostic) : DiagnosticView → List Diagnostic
  | .raw => ds
  | .uniqueByPosition => uniqueByPosition ds
  | .uniqueByLine => uniqueByLine ds
  | .sorted => sorted ds
  | .commandLine => sorted (uniqueByLine ds)

def hasFatal (ds : List Diagnostic) : Bool := ds.any isFatal

def count (ds : List Diagnostic) (severity : Severity) : Nat :=
  (ds.filter fun d => d.severity == severity).length

end Diagnostic
end UnionScript
