import UnionScript.CommandLine.Arguments
import UnionScript.CommandLine.Excerpt
import UnionScript.CommandLine.FileTree
import UnionScript.Session
import UnionScript.Text.Lines
/-!
# Run — what a command line does

A run loads the type files, checks all source files as one program, shows what it found and writes the declared types
if asked to.  It fails when a file cannot be used or the options are invalid; else it succeeds exactly when nothing it
shows is fatal.
-/
namespace UnionScript

/-! ## Failures -/

/-- Why a run cannot be completed. -/
inductive RunFailure where
  | configUnreadable (path : String) (fault : FileFault)
  | configInvalid (path : String)
  | typesUnreadable (path : String) (fault : FileFault)
  | inaccessible (path : String) (fault : FileFault)
  | unlisted (path : String) (fault : FileFault)
  | noFiles
  | sourceUnreadable (path : String) (fault : FileFault)
  | unwritable (path : String) (fault : FileFault)
  deriving Repr, DecidableEq

def RunFailure.message : RunFailure → String
  | configUnreadable path fault => s!"Failed to read config {path}: {fault.message}"
  | configInvalid path => s!"Invalid config {path}: {Options.invalidMessage}"
  | typesUnreadable path fault =>
    s!"Failed to load type file {path}: {SourceFile.unreadable path}: {fault.message}"
  | inaccessible path fault => s!"Failed to access {Text.quoted path}: {fault.message}"
  | unlisted path fault => s!"Failed to read directory {Text.quoted path}: {fault.message}"
  | noFiles => "no .vp files found"
  | sourceUnreadable path fault => s!"{SourceFile.unreadable path}: {fault.message}"
  | unwritable path fault => s!"Failed to write {Text.quoted path}: {fault.message}"

/-! ## Steps -/

/-- A line of output. -/
inductive OutputLine where
  | out (text : String)
  | err (text : String)
  deriving Repr, DecidableEq

/-- What a run has done so far: its output, the latest line first, and the file it wrote. -/
structure RunState where
  output : List OutputLine := []
  written : Option (String × String) := none

abbrev Run := EStateM RunFailure RunState

namespace Run

def put (line : OutputLine) : Run Unit := modify fun s => { s with output := line :: s.output }

def logLevel (inv : Invocation) : LogLevel := if inv.verbose || inv.dumpTokens then .debug else .warn

/-- The line of an event in the log; the names of levels are padded to one width. -/
def logLine (e : Event) : String :=
  let label := e.level.label
  s!"[{label}" ++ String.ofList (List.replicate (5 - label.length) ' ') ++ s!" {e.target.label}] {e.message}"

/-- Logs the events that are important enough. -/
def log (inv : Invocation) (events : List Event) : Run Unit :=
  (events.filter fun e => (logLevel inv).rank ≤ e.level.rank).forM fun e => put (.err (logLine e))

def readFile (node : FileNode) (failure : FileFault → RunFailure) : Run String :=
  match node.read with
  | .ok text => pure text
  | .error fault => throw (failure fault)

/-- The options of a run: those of the configuration file, overridden by the command line. -/
def options (inv : Invocation) (files : Files) : Run Options := do
  let base ← match inv.config with
    | none => pure {}
    | some path =>
      match Options.ofJson? (← readFile (files.look path) (.configUnreadable path)) with
      | some o => pure o
      | none => throw (.configInvalid path)
  return { base with
    dumpTokens := base.dumpTokens || inv.dumpTokens
    maxDepth := inv.maxDepth.getD base.maxDepth }

def loadTypes (inv : Invocation) (files : Files) (session : Session) (path : String) : Run Session := do
  let text ← readFile (files.look path) (.typesUnreadable path)
  let (added, after) := session.load { name := path, text }
  log inv (after.events.drop session.events.length ++ [.typesRead added path])
  return after

/-! ## Source files -/

mutual

/-- The source files at a path: the file itself if it has the extension of sources, or those below a directory. -/
def sourcesAt (path : String) : FileNode → Except RunFailure (List (String × FileNode))
  | .missing fault => .error (.inaccessible path fault)
  | .closed fault => .error (.unlisted path fault)
  | .directory children => sourcesBelow path children
  | .file text => .ok (if Path.extension? path = some "vp" then [(path, .file text)] else [])
  | .unreadable fault => .ok (if Path.extension? path = some "vp" then [(path, .unreadable fault)] else [])
  | .special => .ok []

def sourcesBelow (path : String) : List (String × FileNode) → Except RunFailure (List (String × FileNode))
  | [] => .ok []
  | (name, child) :: rest =>
    match sourcesAt (Path.join path name) child with
    | .error failure => .error failure
    | .ok found =>
      match sourcesBelow path rest with
      | .error failure => .error failure
      | .ok more => .ok (found ++ more)

end

def sources (inv : Invocation) (files : Files) : Run (List SourceFile) := do
  let inputs := if inv.paths.isEmpty then [files.workingDirectory] else inv.paths
  let found ← inputs.mapM fun path =>
    match sourcesAt path (files.look path) with
    | .ok found => pure found
    | .error failure => throw failure
  let targets := Path.ordered found.flatten
  if targets.isEmpty then throw .noFiles
  else targets.mapM fun (path, node) => do
    return { name := path, text := ← readFile node (.sourceUnreadable path) }

/-! ## The whole run -/

/-- Shows a diagnostic; the lines of its file are known if it is one of the sources. -/
def showDiagnostic (inv : Invocation) (sources : List SourceFile) (d : Diagnostic) : Run Unit :=
  if inv.json then put (.out (Excerpt.record d))
  else
    let lines := ((sources.find? fun s => s.name == d.span.file).map fun s => Text.lines s.text).getD []
    (Excerpt.render lines d).forM fun line => put (.err line)

def writeTypes (inv : Invocation) (files : Files) (annotated : AnnotatedProgram) : Run Unit :=
  match inv.typesOut with
  | none => pure ()
  | some path => do
    log inv annotated.scope.typeFileEvents
    match files.writeFault? path with
    | some fault => throw (.unwritable path fault)
    | none =>
      modify fun s => { s with written := some (path, annotated.scope.typeFile) }
      log inv [.typesWritten path]

def summary (shown : List Diagnostic) (sources : List SourceFile) : String :=
  s!"{Diagnostic.count shown .fatal} error(s), {Diagnostic.count shown .warn} warning(s) in {sources.length} file(s)"

/-- Runs a command line; tells whether nothing fatal was found. -/
def main (inv : Invocation) (files : Files) : Run Bool := do
  let session ← inv.types.foldlM (loadTypes inv files) (.ofOptions (← options inv files))
  let sources ← sources inv files
  log inv [.checking sources.length]
  let (annotated, after) := session.compile sources
  log inv (after.events.drop session.events.length)
  let shown := Diagnostic.view after.diagnostics .commandLine
  shown.forM (showDiagnostic inv sources)
  writeTypes inv files annotated
  if !inv.json && !shown.isEmpty then put (.err (summary shown sources)) else pure ()
  return !Diagnostic.hasFatal shown

end Run

/-! ## Outcomes -/

/-- What a run leaves behind: its exit code, its output in order, and the file it wrote. -/
structure RunOutcome where
  exitCode : Nat
  output : List OutputLine
  written : Option (String × String)

namespace RunOutcome

def ofInvocation (inv : Invocation) (files : Files) : RunOutcome :=
  match (Run.main inv files).run {} with
  | .ok clean s => ⟨if clean then 0 else 1, s.output.reverse, s.written⟩
  | .error failure s => ⟨2, (OutputLine.err s!"error: {failure.message}" :: s.output).reverse, s.written⟩

def ofWords (words : List String) (files : Files) : RunOutcome :=
  match Invocation.ofWords words with
  | .ok inv => ofInvocation inv files
  | .error stop =>
    ⟨stop.exitCode, [if stop.exitCode = 0 then .out stop.message else .err stop.message], none⟩

def stdout (outcome : RunOutcome) : String :=
  String.join (outcome.output.map fun
    | .out text => text ++ "\n"
    | .err _ => "")

def stderr (outcome : RunOutcome) : String :=
  String.join (outcome.output.map fun
    | .out _ => ""
    | .err text => text ++ "\n")

end RunOutcome
end UnionScript
