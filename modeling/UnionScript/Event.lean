import UnionScript.Token
import UnionScript.Text.Quoted
import UnionScript.Scope.Environment
import UnionScript.Package
/-!
# Event — what is logged while programs are read and checked

Every stage tells what it does: how much was read, which scopes were entered and left, which names were declared, which
packages were asked for.  An event knows its level, the part that logs it and its wording, so a log can be cut off below
a level and shown in more than one form.
-/
namespace UnionScript

/-! ## Levels and parts -/

/-- How important an event is, the least important first. -/
inductive LogLevel where
  | trace
  | debug
  | info
  | warn
  deriving Repr, DecidableEq

namespace LogLevel

def rank : LogLevel → Nat
  | trace => 0
  | debug => 1
  | info => 2
  | warn => 3

def label : LogLevel → String
  | trace => "TRACE"
  | debug => "DEBUG"
  | info => "INFO"
  | warn => "WARN"

end LogLevel

/-- The parts that log. -/
inductive LogTarget where
  | lexer
  | parser
  | checker
  | environment
  | packages
  | typeFile
  | compiler
  | commandLine
  deriving Repr, DecidableEq

def LogTarget.label : LogTarget → String
  | lexer => "vapour_compiler::lexer"
  | parser => "vapour_compiler::parser"
  | checker => "vapour_compiler::walker"
  | environment => "vapour_compiler::environment"
  | packages => "vapour_compiler::packages"
  | typeFile => "vapour_compiler::typefile"
  | compiler => "vapour_compiler::compiler"
  | commandLine => "vapour"

/-! ## Events -/

/-- Something that is logged. -/
inductive Event where
  | lexed (tokens files strays : Nat)
  | token (t : Token)
  | parsed (statements errors : Nat)
  | pushed (kind : FrameKind) (depth : Nat)
  | popped (depth : Nat)
  | bound (name : String) (types : Union)
  | typeRegistered (name : String) (types : Union)
  | functionRegistered (name : String)
  | packageAsked (name : String) (known : Bool)
  | checked (statements diagnostics : Nat)
  | typesLoaded (added : Nat) (file : String)
  | decoratorDropped (kind : DecoratorKind) (type : String)
  | typesRead (added : Nat) (path : String)
  | checking (files : Nat)
  | typesWritten (path : String)

namespace Event

/-- How important an event is. -/
def level : Event → LogLevel
  | pushed .. | popped .. | bound .. | typeRegistered .. | functionRegistered .. => .trace
  | lexed .. | token .. | parsed .. | packageAsked .. | checked .. | typesLoaded .. | checking .. => .debug
  | typesRead .. | typesWritten .. => .info
  | decoratorDropped .. => .warn

/-- The part that logs an event. -/
def target : Event → LogTarget
  | lexed .. => .lexer
  | parsed .. => .parser
  | checked .. => .checker
  | pushed .. | popped .. | bound .. | typeRegistered .. | functionRegistered .. => .environment
  | packageAsked .. => .packages
  | decoratorDropped .. => .typeFile
  | token .. | typesLoaded .. => .compiler
  | typesRead .. | checking .. | typesWritten .. => .commandLine

/-- The wording of an event. -/
def message : Event → String
  | lexed tokens files strays => s!"lexed {tokens} tokens from {files} file(s), {strays} skipped character(s)"
  | token t => s!"{t.file}:{t.start.line}:{t.start.column} {t.kind.tag} {Text.quoted t.text}"
  | parsed statements errors => s!"parsed {statements} top-level statement(s), {errors} error(s)"
  | pushed kind depth => s!"push {kind.tag} scope (depth {depth})"
  | popped depth => s!"pop scope (depth {depth})"
  | bound name types => s!"bind `{name}`: {types.render}"
  | typeRegistered name types => s!"register type `{name}`: {types.render}"
  | functionRegistered name => s!"register function `{name}`"
  | packageAsked name true => s!"package `{name}` loaded"
  | packageAsked name false => s!"package `{name}` unknown"
  | checked statements diagnostics => s!"checked {statements} statement(s), {diagnostics} diagnostic(s)"
  | typesLoaded added file => s!"loaded {added} type(s) from {file}"
  | decoratorDropped kind type => s!"dropping @{kind.word} on `{type}`: arguments are not plain values"
  | typesRead added path => s!"{added} type(s) from {path}"
  | checking files => s!"checking {files} file(s)"
  | typesWritten path => s!"wrote types to {path}"

/-- An event with its level and the part that logs it. -/
def render (e : Event) : String :=
  s!"{e.level.label} {e.target.label}: {e.message}"

end Event

/-! ## What a change logs -/

/-- What is logged when a change happens to an environment; leaving the root frame, which cannot be left, is no event. -/
def Environment.Change.event? (before : Environment) : Environment.Change → Option Event
  | .push kind => some (.pushed kind (before.depth + 1))
  | .pop => if before.inner.isEmpty then none else some (.popped (before.depth - 1))
  | .variable v => some (.bound v.name v.types)
  | .type t => some (.typeRegistered t.name t.types)
  | .function g => some (.functionRegistered g.name)

/-- What is logged when a cache is asked for a package: only the first question about a name is an event. -/
def PackageCache.event? (before : PackageCache) (name : String) : Option Event :=
  if before.contains name then none else some (.packageAsked name (before.answer name).isSome)

end UnionScript
