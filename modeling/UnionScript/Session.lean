import UnionScript.Options
import UnionScript.TypeFile
import UnionScript.Check.Annotated
import UnionScript.Token.Stream
/-!
# Session — reading and checking programs one after the other

A session keeps the types of the type files it has loaded, and they are in scope of every program it checks afterwards;
nothing a program declares outlives its own check.  The diagnostics of loads and checks pile up until they are taken,
and what the package cache has learned stays known.
-/
namespace UnionScript

def StrayCharacter.diagnostic (s : StrayCharacter) : Diagnostic :=
  ⟨.warn, s.span, s!"unrecognised character `{s.character}` skipped"⟩

def ParseError.diagnostic (e : ParseError) : Diagnostic :=
  ⟨.fatal, e.span, e.message⟩

def TokenStream.event (stream : TokenStream) (sources : List SourceFile) : Event :=
  .lexed stream.tokens.length sources.length stream.strays.length

def ParsedProgram.event (parsed : ParsedProgram) : Event :=
  .parsed parsed.program.statements.length parsed.errors.length

def SourceFile.unreadable (path : String) : String :=
  s!"Failed to read {Text.quoted path}"

/-- The state of a session: diagnostics and events in the order they came about. -/
structure Session where
  options : Options
  root : Frame
  packages : Option PackageCache
  diagnostics : List Diagnostic := []
  events : List Event := []

namespace Session

/-- A fresh session.  It has a package cache if its options name any packages. -/
def ofOptions (options : Options) : Session where
  options
  root := .builtin
  packages := if options.packages.isEmpty then none else some (.ofTable options.packages)

def withPackages (session : Session) (cache : PackageCache) : Session :=
  { session with packages := some cache }

/-- The session with some diagnostics and events added. -/
def add (session : Session) (diagnostics : List Diagnostic) (events : List Event) : Session :=
  { session with diagnostics := session.diagnostics ++ diagnostics, events := session.events ++ events }

/-- What is read from some sources: the program, and the diagnostics and events of reading it. -/
structure Reading where
  program : Program
  diagnostics : List Diagnostic
  events : List Event

def read (options : Options) (sources : List SourceFile) : Reading :=
  let stream := TokenStream.scan sources
  let parsed := ParsedProgram.ofTokens stream.tokens options.maxDepth
  { program := parsed.program
    diagnostics := stream.strays.map StrayCharacter.diagnostic ++ parsed.errors.map ParseError.diagnostic
    events := [stream.event sources] ++ (if options.dumpTokens then stream.tokens.map Event.token else []) ++
      [parsed.event] }

/-- Loads a type file: declares its types for the rest of the session, and tells how many they are. -/
def load (session : Session) (source : SourceFile) : Nat × Session :=
  let reading := read session.options [source]
  let out := reading.program.declareTypes (.ofRoot session.root)
  let root := out.environment.root
  let added := root.declaredTypes.length - session.root.declaredTypes.length
  (added, { session.add (reading.diagnostics ++ out.reports.map Report.diagnostic)
      (reading.events ++ out.events ++ [.typesLoaded added source.name]) with root })

def compile (session : Session) (sources : List SourceFile) : AnnotatedProgram × Session :=
  let reading := read session.options sources
  let out := reading.program.walk (.ofRoot session.root) session.packages session.options.maxDepth
  (reading.program.annotate out,
    { session.add (reading.diagnostics ++ out.reports.map Report.diagnostic) (reading.events ++ out.events) with
      packages := out.packages })

def take (session : Session) : List Diagnostic × Session :=
  (session.diagnostics, { session with diagnostics := [] })

end Session
end UnionScript
