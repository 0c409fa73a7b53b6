import UnionScript.Scope.Environment
/-!
# Matching — whether a value of one union fits where another is expected

An alternative fits an expected union when it agrees with some alternative the union leads to: the union's own ones,
and, wherever one of these names a declared type, the members of that type, as lists if the alternative is one.  Types
may refer to themselves and to each other, so the search remembers which type it has opened, and whether as a list;
every opened type is a declared one, and each is opened at most twice, which is why the search ends.
-/
namespace UnionScript
namespace Environment

/-- A declared type that has been opened, by name and whether as a list. -/
abbrev Opened := String × Bool

/-- What the search can open: every declared name, as such and as a list. -/
def openable (env : Environment) : List Opened :=
  env.frames.flatMap fun f => f.types.flatMap fun t => [(t.name, false), (t.name, true)]

def unopened (env : Environment) (opened : List Opened) : List Opened :=
  env.openable.filter fun key => key ∉ opened

/-- The members of a type, all of them as lists where a list of the type is meant. -/
def members (t : TypeEntry) (list : Bool) : List TypeName :=
  t.types.alternatives.map fun m => { m with list := m.list || list }

theorem mem_openable {env : Environment} {name : String} {t : TypeEntry} (h : env.findType? name = some t)
    (list : Bool) : (t.name, list) ∈ env.openable := by
  obtain ⟨f, hf, ht⟩ := List.exists_of_findSome?_eq_some h
  refine List.mem_flatMap.2 ⟨f, hf, List.mem_flatMap.2 ⟨t, List.mem_of_find?_eq_some ht, ?_⟩⟩
  cases list <;> simp

theorem length_unopened_lt {env : Environment} {opened : List Opened} {key : Opened} (hmem : key ∈ env.openable)
    (hnew : key ∉ opened) : (env.unopened (key :: opened)).length < (env.unopened opened).length := by
  have hsub : env.unopened (key :: opened) = (env.unopened opened).filter fun k => k ≠ key := by
    simp only [unopened, List.filter_filter]
    congr 1
    funext k
    by_cases hk : k = key <;> simp [hk]
  rw [hsub]
  refine List.length_filter_lt_length_iff_exists.2 ⟨key, ?_, by simp⟩
  simp [unopened, hmem, hnew]

/-- Whether an alternative agrees with one that the pending alternatives lead to, without opening a type again. -/
def accepts (env : Environment) (actual : TypeName) (opened : List Opened) (pending : List TypeName) : Bool :=
  match pending with
  | [] => false
  | candidate :: rest =>
    if candidate.isAny || candidate.agrees actual then true
    else match h : env.findType? candidate.name with
      | none => accepts env actual opened rest
      | some t =>
        if hseen : t.builtin ∨ (t.name, candidate.list) ∈ opened then accepts env actual opened rest
        else
          have := length_unopened_lt (mem_openable h candidate.list) (fun hm => hseen (Or.inr hm))
          accepts env actual ((t.name, candidate.list) :: opened) (members t candidate.list ++ rest)
termination_by ((env.unopened opened).length, pending.length)

/-- The alternatives of a value's union that do not fit an expected union. -/
def unmatched (env : Environment) (actual expected : Union) : List TypeName :=
  if expected.containsAny then []
  else actual.alternatives.filter fun a => !a.isAny && !env.accepts a [] expected.alternatives

/-- Whether every alternative of a value's union fits an expected union. -/
def fits (env : Environment) (actual expected : Union) : Bool :=
  (env.unmatched actual expected).isEmpty

end Environment
end UnionScript
