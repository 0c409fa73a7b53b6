import UnionScript.CommandLine.Path
/-!
# FileTree — the files a run looks at

A run sees files as what stands at a path (`FileNode`), and everything it will see is known before it starts: what is
at each path, where it works, and which paths cannot be written (`Files`).  So a run is a function, and the same one
serves a tree held in memory and a snapshot of a disk.
-/
namespace UnionScript

/-- Why a file cannot be used. -/
inductive FileFault where
  | notFound
  | notDirectory
  | isDirectory
  | notText
  | other (description : String)
  deriving Repr, DecidableEq

def FileFault.message : FileFault → String
  | notFound => "No such file or directory (os error 2)"
  | notDirectory => "Not a directory (os error 20)"
  | isDirectory => "Is a directory (os error 21)"
  | notText => "stream did not contain valid UTF-8"
  | other description => description

/-- What stands at a path.  The children of a directory are in the order of their names; a closed directory is one that
cannot be listed. -/
inductive FileNode where
  | file (text : String)
  | unreadable (fault : FileFault)
  | directory (children : List (String × FileNode))
  | closed (fault : FileFault)
  | special
  | missing (fault : FileFault)

instance : Inhabited FileNode := ⟨.missing .notFound⟩

namespace FileNode

def read : FileNode → Except FileFault String
  | file text => .ok text
  | unreadable fault | missing fault => .error fault
  | directory _ | closed _ => .error .isDirectory
  | special => .ok ""

/-- What is reached from a node by some segments of a path, given the directories above the node. -/
def descend (above : List FileNode) (node : FileNode) : List String → FileNode
  | [] => node
  | segment :: rest =>
    match node with
    | directory children =>
      if segment = "" ∨ segment = "." then descend above node rest
      else if segment = ".." then
        match above with
        | [] => descend [] node rest
        | parent :: further => descend further parent rest
      else
        match children.lookup segment with
        | some child => descend (node :: above) child rest
        | none => missing .notFound
    | closed fault | missing fault => missing fault
    | _ => missing .notDirectory

def putChild (name : String) (node : FileNode) : List (String × FileNode) → List (String × FileNode)
  | [] => [(name, node)]
  | (other, known) :: rest =>
    match Ord.compare name other with
    | .lt => (name, node) :: (other, known) :: rest
    | .eq => (name, node) :: rest
    | .gt => (other, known) :: putChild name node rest

/-- The children of a node; only a directory has any. -/
def children : FileNode → List (String × FileNode)
  | directory cs => cs
  | _ => []

/-- A node with a file put where some names lead; directories that are missing on the way are made. -/
def put (text : String) : List String → FileNode → FileNode
  | [], _ => file text
  | name :: rest, node =>
    directory (putChild name (put text rest ((node.children.lookup name).getD (directory []))) node.children)

end FileNode

/-- The names that lead to a path from where it starts; two dots take the name before them back. -/
def Path.names (path : String) : List String :=
  (parts path).foldl (fun names part => match part with
    | .name text => names ++ [text]
    | .up => names.dropLast
    | _ => names) []

/-- A directory in memory, with the path it is known by. -/
structure FileTree where
  path : String
  root : FileNode

namespace FileTree

def ofFiles (path : String) (files : List (String × String)) : FileTree :=
  ⟨path, files.foldl (fun node f => node.put f.2 (Path.names f.1)) (.directory [])⟩

/-- What stands at a path; outside of the tree there is nothing. -/
def look (tree : FileTree) (path : String) : FileNode :=
  if path = "" then .missing .notFound
  else if path = tree.path then tree.root
  else if path.toList.head? = some '/' then .missing .notFound
  else tree.root.descend [] (Path.segments path)

/-- The segments of a path without the empty ones at its end, which trailing slashes leave. -/
def trimmed (path : String) : List String :=
  ((Path.segments path).reverse.dropWhile (· == "")).reverse

/-- Why a path cannot be written, if it cannot: the directory around it must be there, and it must not be one itself
or be spelled like one. -/
def writeFault? (tree : FileTree) (path : String) : Option FileFault :=
  if path.toList.head? = some '/' then some .notFound
  else match tree.root.descend [] (trimmed path).dropLast with
  | .directory _ =>
    if (Path.segments path).getLast? = some "" then some .isDirectory
    else match tree.look path with
      | .directory _ | .closed _ => some .isDirectory
      | _ => none
  | .closed fault | .missing fault => some fault
  | _ => some .notDirectory

def write (tree : FileTree) (path text : String) : FileTree :=
  { tree with root := tree.root.put text (Path.names path) }

end FileTree

/-- Everything a run sees of files. -/
structure Files where
  workingDirectory : String
  look : String → FileNode
  writeFault? : String → Option FileFault

def Files.ofTree (tree : FileTree) : Files :=
  ⟨tree.path, tree.look, tree.writeFault?⟩

end UnionScript
