/-!
# Path — file paths as the command line orders and names them

A path is kept as it was spelled, because that is how files are shown; two spellings are the same path when their parts
are (`parts`), and paths come in the order of their parts.  Slashes may repeat, and a dot counts only in front.
-/
namespace UnionScript
namespace Path

/-! ## Parts -/

/-- A part of a path. -/
inductive Part where
  | root
  | here
  | up
  | name (text : String)
  deriving Repr, DecidableEq

def Part.rank : Part → Nat
  | root => 0
  | here => 1
  | up => 2
  | name _ => 3

/-- Parts in order: the root, a dot, two dots, then names. -/
def Part.compare : Part → Part → Ordering
  | name a, name b => Ord.compare a b
  | p, q => Ord.compare p.rank q.rank

/-- What stands between the slashes of a text; the characters of the unfinished segment are given in reverse. -/
def segmentsFrom : List Char → List Char → List String
  | pending, [] => [String.ofList pending.reverse]
  | pending, c :: cs =>
    if c = '/' then String.ofList pending.reverse :: segmentsFrom [] cs else segmentsFrom (c :: pending) cs

def segments (path : String) : List String := segmentsFrom [] path.toList

/-- The part that a segment behind the first slash stands for, if it stands for one. -/
def partOf? : String → Option Part
  | "" => none
  | "." => none
  | ".." => some .up
  | text => some (.name text)

def parts (path : String) : List Part :=
  match segments path with
  | [""] => []
  | "" :: rest => .root :: rest.filterMap partOf?
  | "." :: rest => .here :: rest.filterMap partOf?
  | all => all.filterMap partOf?

def compareParts : List Part → List Part → Ordering
  | [], [] => .eq
  | [], _ :: _ => .lt
  | _ :: _, [] => .gt
  | p :: ps, q :: qs => (p.compare q).then (compareParts ps qs)

def compare (a b : String) : Ordering := compareParts (parts a) (parts b)

/-! ## Names -/

def join (directory child : String) : String :=
  if directory.toList.getLast? = some '/' then directory ++ child else directory ++ "/" ++ child

/-- What follows the last dot of a name, unless the name starts with that dot. -/
def extensionOf? (name : List Char) : Option (List Char) :=
  match name.reverse.dropWhile (· != '.') with
  | _ :: front => if front.isEmpty then none else some (name.reverse.takeWhile (· != '.')).reverse
  | [] => none

def extension? (path : String) : Option String :=
  match (parts path).getLast? with
  | some (.name text) => (extensionOf? text.toList).map String.ofList
  | _ => none

/-! ## Sets of paths -/

/-- Puts a path and what belongs to it into an ordered list; one that is there already, in whatever spelling, stays. -/
def insert {α : Type} (path : String) (a : α) : List (String × α) → List (String × α)
  | [] => [(path, a)]
  | (other, b) :: rest =>
    match compare path other with
    | .lt => (path, a) :: (other, b) :: rest
    | .eq => (other, b) :: rest
    | .gt => (other, b) :: insert path a rest

/-- An ordered list of paths without repetitions; of the spellings of one path the first counts. -/
def ordered {α : Type} (entries : List (String × α)) : List (String × α) :=
  entries.foldl (fun found e => insert e.1 e.2 found) []

end Path
end UnionScript
