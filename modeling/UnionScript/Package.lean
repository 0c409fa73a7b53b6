/-!
# Package — what host packages export, asked for once

The checker wants to know what a package exports, and finding out may be slow or give another answer the next time.  A
cache stands in front of the source: the first thing it learns about a name, be it that there is no such package,
stays its answer for good, and the source is asked only for names of which it knows nothing yet.
-/
namespace UnionScript

/-- Where exports come from: the answer to the question of a number, counted from zero, for a name. -/
abbrev PackageSource := Nat → String → Option (List String)

def PackageSource.ofTable (table : List (String × List String)) : PackageSource :=
  fun _ name => table.lookup name

/-- A package and the distinct names it exports. -/
structure Package where
  name : String
  exports : List String
  deriving Repr, DecidableEq

namespace Package

def ofExports (name : String) (exports : List String) : Package :=
  ⟨name, exports.eraseDups⟩

def isExported (p : Package) (name : String) : Bool := name ∈ p.exports

def size (p : Package) : Nat := p.exports.length

end Package

/-- What is known about packages: an entry for every name asked for or put in, and the questions asked so far. -/
structure PackageCache where
  source : PackageSource
  entries : List (String × Option Package) := []
  asked : List String := []

namespace PackageCache

def ofSource (source : PackageSource) : PackageCache := { source }

def ofTable (table : List (String × List String)) : PackageCache := ofSource (.ofTable table)

def entry? (cache : PackageCache) (name : String) : Option (Option Package) := cache.entries.lookup name

def contains (cache : PackageCache) (name : String) : Bool := (cache.entry? name).isSome

def size (cache : PackageCache) : Nat := cache.entries.length

/-- The source's answer for a name, were it asked now. -/
def answer (cache : PackageCache) (name : String) : Option Package :=
  (cache.source cache.asked.length name).map (Package.ofExports name)

/-- The package of a name and the cache afterwards, which has asked the source if it knew nothing. -/
def get (cache : PackageCache) (name : String) : Option Package × PackageCache :=
  match cache.entry? name with
  | some known => (known, cache)
  | none =>
    let answer := cache.answer name
    (answer, { cache with entries := (name, answer) :: cache.entries, asked := cache.asked ++ [name] })

/-- Puts a package in unless something is known about its name; tells whether it was put in. -/
def insert (cache : PackageCache) (p : Package) : Bool × PackageCache :=
  if cache.contains p.name then (false, cache)
  else (true, { cache with entries := (p.name, some p) :: cache.entries })

def summary (cache : PackageCache) : String :=
  "PackageCache \x7b entries: " ++ toString cache.size ++ " \x7d"

end PackageCache
end UnionScript
