/-!
# Union — the types a value may have

A type annotation is a union of alternatives, `int | []person | tibble::tbl_df`.  An alternative names a type, perhaps
in a package, perhaps as a list of it.  A union holds its alternatives in the order written and each at most once; the
order matters for display only.
-/
namespace UnionScript

/-! ## Alternatives -/

/-- One alternative of a union: a type by name, the package to find it in, and whether it is a list of that type. -/
structure TypeName where
  name : String
  package : Option String := none
  list : Bool := false
  deriving Repr, DecidableEq, Inhabited

namespace TypeName

def any : TypeName := { name := "any" }

/-- Whether an alternative stands for every type, be it as a list. -/
def isAny (t : TypeName) : Bool :=
  t.name == "any" && t.package.isNone

/-- Two alternatives agree when name and list flag do; the package only tells where the name is looked up. -/
def agrees (t u : TypeName) : Bool :=
  t.name == u.name && t.list == u.list

/-- The type of the elements: the same alternative without its list flag. -/
def element (t : TypeName) : TypeName :=
  { t with list := false }

/-- The written form, `[]`, then the package and `::`, then the name. -/
def render (t : TypeName) : String :=
  (if t.list then "[]" else "") ++ (match t.package with | some p => p ++ "::" | none => "") ++ t.name

end TypeName

/-! ## Unions -/

/-- The items of a list behind those already kept, each at its first occurrence. -/
def keepNew {α : Type} [DecidableEq α] (kept : List α) : List α → List α
  | [] => kept
  | a :: rest => if a ∈ kept then keepNew kept rest else keepNew (kept ++ [a]) rest

theorem keepNew_nodup {α : Type} [DecidableEq α] :
    ∀ (kept items : List α), kept.Nodup → (keepNew kept items).Nodup
  | kept, [], h => h
  | kept, a :: rest, h => by
    unfold keepNew
    split
    · exact keepNew_nodup kept rest h
    · rename_i ha
      refine keepNew_nodup _ rest (List.nodup_append.2 ⟨h, by simp, ?_⟩)
      intro x hx y hy e
      rw [List.mem_singleton] at hy
      exact ha (hy ▸ e ▸ hx)

theorem mem_keepNew {α : Type} [DecidableEq α] {a : α} :
    ∀ {kept items : List α}, a ∈ keepNew kept items ↔ a ∈ kept ∨ a ∈ items
  | kept, [] => by simp [keepNew]
  | kept, b :: rest => by
    unfold keepNew
    split
    · rename_i hb
      rw [mem_keepNew, List.mem_cons]
      constructor
      · exact Or.imp_right Or.inr
      · rintro (h | rfl | h)
        · exact Or.inl h
        · exact Or.inl hb
        · exact Or.inr h
    · rw [mem_keepNew, List.mem_append, List.mem_singleton, List.mem_cons, or_assoc]

/-- The types a value may have: alternatives in the order written, each at most once. -/
structure Union where
  alternatives : List TypeName
  distinct : alternatives.Nodup
  deriving DecidableEq

namespace Union

def empty : Union := ⟨[], .nil⟩

instance : Inhabited Union := ⟨empty⟩

def ofList (ts : List TypeName) : Union :=
  ⟨keepNew [] ts, keepNew_nodup [] ts .nil⟩

theorem mem_ofList {t : TypeName} {ts : List TypeName} : t ∈ (ofList ts).alternatives ↔ t ∈ ts := by
  simp [ofList, mem_keepNew]

def single (t : TypeName) : Union :=
  ⟨[t], by simp⟩

def named (name : String) : Union := single { name }

def any : Union := single TypeName.any

/-- The first union, then the alternatives of the second that it lacks. -/
def merge (u v : Union) : Union :=
  ⟨keepNew u.alternatives v.alternatives, keepNew_nodup _ _ u.distinct⟩

/-- The types of the elements of a value: every alternative without its list flag. -/
def elements (u : Union) : Union :=
  ofList (u.alternatives.map TypeName.element)

def isEmpty (u : Union) : Bool := u.alternatives.isEmpty

def size (u : Union) : Nat := u.alternatives.length

def containsAny (u : Union) : Bool := u.alternatives.any TypeName.isAny

/-- The written form: the alternatives with ` | ` between them. -/
def render (u : Union) : String :=
  " | ".intercalate (u.alternatives.map TypeName.render)

end Union

/-! ## Built-in types -/

def builtinTypes : List String :=
  ["any", "int", "num", "char", "bool", "null", "na", "na_char", "na_int", "na_real", "na_complex", "nan", "list",
   "matrix", "dataframe", "factor"]

end UnionScript
