import UnionScript.Check.Finding
import UnionScript.Scope.Matching
import UnionScript.Event
/-!
# State — what the checker knows while it walks a program

The checker carries the scopes around the place it is at, what it has reported and which types it has inferred, the
return types of the functions it is inside of, and how deep the expression is it looks at.  Whatever it does to them it
does by single acts (`perform`), and keeps each of these behind those before it, so that the state tells how it came
about.  It changes the scopes only by `change`, which logs what happened, and enters a frame only by `within`, which
leaves it again.
-/
namespace UnionScript

/-- A single act of the checker.  The reports of one act have the latest first. -/
inductive Act where
  | report (rs : List Report)
  | ask (package : String)
  | change (c : Environment.Change)
  | descend (step : Nat)
  | file (step : Nat) (span : Span) (types : Union)
  | enter (returns : Option Union)
  | leave

/-- What the checker knows, and the acts that led to it: reports, types, events, return types and acts have the latest
first. -/
structure CheckState where
  environment : Environment
  packages : Option PackageCache := none
  reports : List Report := []
  types : List (Span × Union) := []
  returns : List (Option Union) := []
  depth : Nat := 0
  events : List Event := []
  course : List Act := []

/-- What an act does to what the checker knows. -/
def Act.effect (s : CheckState) : Act → CheckState
  | report rs => { s with reports := rs ++ s.reports }
  | ask package =>
    { s with
      packages := s.packages.map fun cache => (cache.get package).2
      events := (s.packages.bind fun cache => cache.event? package).toList ++ s.events }
  | change c =>
    { s with environment := s.environment.apply c, events := (c.event? s.environment).toList ++ s.events }
  | descend step => { s with depth := s.depth + step }
  | file step span types => { s with depth := s.depth - step, types := (span, types) :: s.types }
  | enter returns => { s with returns := returns :: s.returns }
  | leave => { s with returns := s.returns.tail }

/-- The state behind an act, which keeps it. -/
def Act.apply (s : CheckState) (a : Act) : CheckState := { a.effect s with course := a :: s.course }

abbrev Check := StateM CheckState

namespace Check

def environment : Check Environment := fun s => (s.environment, s)

def perform (a : Act) : Check Unit := fun s => ((), a.apply s)

def report (finding : Finding) (span : Span) : Check Unit := perform (.report [⟨finding, span⟩])

def change (c : Environment.Change) : Check Unit := perform (.change c)

def within (kind : FrameKind) (body : Check Unit) : Check Unit := do
  change (.push kind)
  body
  change .pop

def returning (types : Option Union) (body : Check Unit) : Check Unit := do
  perform (.enter types)
  body
  perform .leave

def package? (name : String) : Check (Option Package) := fun s =>
  (s.packages.bind fun cache => (cache.get name).1, (Act.ask name).apply s)

/-- Reports every alternative that cannot be resolved; tells whether all can. -/
def requireDefined (types : Union) (span : Span) : Check Bool := fun s =>
  let undefined := types.alternatives.filter fun t => !s.environment.isDefined t
  (undefined.isEmpty, (Act.report (undefined.map fun t => ⟨.typeUndefined t.name, span⟩).reverse).apply s)

/-- Reports the alternatives of a value's union that do not fit an expected one, all of them at once. -/
def requireMatch (actual expected : Union) (span : Span) (subject : Subject) : Check Unit := do
  match (← environment).unmatched actual expected with
  | [] => pure ()
  | t :: rest => report (.mismatch subject expected (.ofList (t :: rest))) span

/-- Infers the types of an expression by `body` and files them under its span, `step` levels deeper than before.  An
expression beyond the limit is reported and not looked into. -/
def visit (limit step : Nat) (span : Span) (body : Check Union) : Check Union := do
  if (← get).depth + step > limit then
    report (.nestingTooDeep limit) span
    return .any
  else
    perform (.descend step)
    let inferred ← body
    let types := if inferred.isEmpty then Union.any else inferred
    perform (.file step span types)
    return types

end Check
end UnionScript
