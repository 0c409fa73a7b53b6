import UnionScript.CommandLine.Run
/-!
# Main — the program

The files that a command line names are read before anything is decided; what the run says and does is
`RunOutcome.ofWords` of the words and those files.  If the disk refuses the one file that a run writes, its outcome is
that of a run which knew of the refusal.
-/
namespace UnionScript

namespace FileFault

/-- The number of a system error, which may be given negated. -/
def systemNumber (code : UInt32) : UInt32 := min code (0 - code)

def ofError : IO.Error → FileFault
  | .noFileOrDirectory .. => notFound
  | .inappropriateType _ code _ => if systemNumber code = 20 then notDirectory else isDirectory
  | .permissionDenied _ code details => other s!"{details.capitalize} (os error {systemNumber code})"
  | error => other error.toString

end FileFault

namespace FileNode

def readFrom (place : IO.FS.DirEntry) : IO FileNode := do
  match ← (IO.FS.readBinFile place.path).toBaseIO with
  | .ok bytes => return (String.fromUTF8? bytes).elim (unreadable .notText) file
  | .error error => return unreadable (.ofError error)

/-- What stands at a place of the disk; the children of a directory are looked at if they are asked for. -/
partial def snapshot (below : Bool) (place : IO.FS.DirEntry) : IO FileNode := do
  match ← place.path.metadata.toBaseIO with
  | .error error => return missing (.ofError error)
  | .ok found =>
    match found.type with
    | .file => readFrom place
    | .dir =>
      if below then
        match ← place.path.readDir.toBaseIO with
        | .error error => return closed (.ofError error)
        | .ok entries =>
          let children ← entries.toList.mapM fun entry => return (entry.fileName, ← snapshot true entry)
          return directory (children.mergeSort fun a b => (compare a.1 b.1).isLE)
      else return directory []
    | _ => return special

def ofDisk (below : Bool) (path : String) : IO FileNode :=
  if path.isEmpty then return missing .notFound else snapshot below { root := ".", fileName := path }

end FileNode

def Files.ofDisk (words : List String) : IO Files := do
  let workingDirectory := (← IO.currentDir).toString
  let inv := (Invocation.ofWords words).toOption.getD {}
  let trees := if inv.paths.isEmpty then [workingDirectory] else inv.paths
  let nodes ← trees.mapM fun path => return (path, ← FileNode.ofDisk true path)
  let more ← (inv.config.toList ++ inv.types).mapM fun path => return (path, ← FileNode.ofDisk false path)
  return { workingDirectory, look := fun path => ((nodes ++ more).lookup path).getD default, writeFault? := fun _ => none }

/-- The outcome of a command line, with its file written if the disk takes it. -/
def RunOutcome.perform (words : List String) (files : Files) : IO RunOutcome := do
  let outcome := RunOutcome.ofWords words files
  match outcome.written with
  | none => return outcome
  | some (path, text) =>
    match ← (IO.FS.writeFile path text).toBaseIO with
    | .ok _ => return outcome
    | .error error => return RunOutcome.ofWords words { files with writeFault? := fun _ => some (.ofError error) }

end UnionScript

def main (words : List String) : IO UInt32 := do
  let outcome ← UnionScript.RunOutcome.perform words (← UnionScript.Files.ofDisk words)
  for line in outcome.output do
    match line with
    | .out text => IO.println text
    | .err text => IO.eprintln text
  return UInt32.ofNat outcome.exitCode
