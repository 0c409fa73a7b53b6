import UnionScript.Check.Inference
import UnionScript.Grammar.Nesting
/-!
# Annotated — a program with everything a check learned about it

Checking a program from a root frame leaves the root frame with what the program declares at top level, and a record of
the types of its expressions, filed by span; of expressions that share a span the last one counts.  A type file is
walked for its type declarations alone.
-/
namespace UnionScript

/-- A checked program: the tree, the root frame behind it, and the types of its expressions, the latest first. -/
structure AnnotatedProgram where
  program : Program
  scope : Frame
  types : List (Span × Union)

namespace AnnotatedProgram

def typeOf? (a : AnnotatedProgram) (span : Span) : Option Union := a.types.lookup span

/-- The entries of a list sorted by span, the first of each run with one span. -/
def firstOfRuns : List (Span × Union) → List (Span × Union)
  | a :: b :: rest => if a.1 = b.1 then firstOfRuns (a :: rest) else a :: firstOfRuns (b :: rest)
  | short => short

/-- The types of all expressions, one entry a span, in order of spans. -/
def listing (a : AnnotatedProgram) : List (Span × Union) :=
  firstOfRuns (a.types.mergeSort fun s t => (s.1.compare t.1).isLE)

end AnnotatedProgram

/-- What a walk leaves behind: the scopes, the reports and events in the order they came about, and the package cache
if there was one. -/
structure WalkOutcome where
  environment : Environment
  types : List (Span × Union)
  reports : List Report
  packages : Option PackageCache
  events : List Event

def Check.outcome (environment : Environment) (packages : Option PackageCache) (step : Check Unit) : WalkOutcome :=
  let s := (step.run { environment, packages }).2
  { environment := s.environment, types := s.types, reports := s.reports.reverse, packages := s.packages,
    events := s.events.reverse }

namespace Program

def walk (program : Program) (environment : Environment) (packages : Option PackageCache) (limit : Nat) :
    WalkOutcome :=
  let out := Check.outcome environment packages (Check.walkStatements limit program.statements)
  { out with events := out.events ++ [.checked program.statements.length out.reports.length] }

def typeDeclarations (program : Program) : List TypeDeclaration :=
  program.statements.filterMap fun
    | .typeDeclaration d => some d
    | _ => none

/-- Declares the types of a program, and does nothing else of it. -/
def declareTypes (program : Program) (environment : Environment) : WalkOutcome :=
  Check.outcome environment none (program.typeDeclarations.forM Check.declareType)

def annotate (program : Program) (out : WalkOutcome) : AnnotatedProgram :=
  ⟨program, out.environment.root, out.types⟩

end Program
end UnionScript
