import Mathlib.Data.List.Forall2
import UnionScript.TypeFile
/-!
# Alike — scopes that no lookup tells apart

Two entries of a type are alike when they say the same of it: places aside, and with the type itself left out of its own
members or not (`TypeEntry.Alike`).  Two environments are alike when they differ in alike entries only.  Lookups in
alike environments answer alike, and alike changes keep environments alike, so what is declared alike from the start
stays so (`Environment.Alike.run`).
-/
namespace UnionScript

/-! ## Entries -/

namespace TypeEntry

/-- The members of one entry are members of another, but for the type itself.  A type of the name `any` would accept
everything by being a member, so it may not be missing. -/
def MembersWithin (t t' : TypeEntry) : Prop :=
  ∀ m ∈ t.types.alternatives, m ∈ t'.types.alternatives ∨ (t.isItself m = true ∧ m.isAny = false)

/-- Two entries that say the same of a type. -/
structure Alike (t t' : TypeEntry) : Prop where
  name : t.name = t'.name
  kind : t.kind = t'.kind
  builtin : t.builtin = t'.builtin
  attributes : t.attributes.map (fun a => (a.name, a.types)) = t'.attributes.map (fun a => (a.name, a.types))
  members : t.MembersWithin t'
  members_symm : t'.MembersWithin t

theorem Alike.refl (t : TypeEntry) : t.Alike t :=
  ⟨rfl, rfl, rfl, rfl, fun _ hm => Or.inl hm, fun _ hm => Or.inl hm⟩

theorem Alike.symm {t t' : TypeEntry} (h : t.Alike t') : t'.Alike t :=
  ⟨h.name.symm, h.kind.symm, h.builtin.symm, h.attributes.symm, h.members_symm, h.members⟩

/-- The place in the order of declarations plays no part. -/
theorem Alike.order {t t' : TypeEntry} (h : t.Alike t') (n n' : Nat) :
    Alike { t with order := n } { t' with order := n' } :=
  ⟨h.name, h.kind, h.builtin, h.attributes, h.members, h.members_symm⟩

theorem attribute?_map (name : String) : ∀ (as : List TypedName),
    (as.find? fun a => a.name == name).map TypedName.types =
      ((as.map fun a => (a.name, a.types)).find? fun p => p.1 == name).map Prod.snd
  | [] => rfl
  | a :: as => by
    rw [List.map_cons, List.find?_cons, List.find?_cons]
    cases a.name == name with
    | true => rfl
    | false => exact attribute?_map name as

/-- Alike entries have the same types for an attribute. -/
theorem Alike.attribute? {t t' : TypeEntry} (h : t.Alike t') (name : String) :
    (t.attribute? name).map TypedName.types = (t'.attribute? name).map TypedName.types := by
  unfold TypeEntry.attribute?
  rw [attribute?_map, attribute?_map, h.attributes]

end TypeEntry

/-! ## Frames -/

namespace Frame

/-- Two frames that differ in alike types only. -/
structure Alike (f f' : Frame) : Prop where
  kind : f.kind = f'.kind
  bindings : f.bindings = f'.bindings
  functions : f.functions = f'.functions
  types : List.Forall₂ TypeEntry.Alike f.types f'.types

theorem Alike.refl (f : Frame) : f.Alike f :=
  ⟨rfl, rfl, rfl, List.forall₂_same.2 fun t _ => .refl t⟩

theorem Alike.symm {f f' : Frame} (h : f.Alike f') : f'.Alike f :=
  ⟨h.kind.symm, h.bindings.symm, h.functions.symm, (h.types.imp fun _ _ => TypeEntry.Alike.symm).flip⟩

theorem Alike.findVariable? {f f' : Frame} (h : f.Alike f') (name : String) :
    f.findVariable? name = f'.findVariable? name := by
  rw [Frame.findVariable?, Frame.findVariable?, h.bindings]

theorem Alike.findFunction? {f f' : Frame} (h : f.Alike f') (name : String) :
    f.findFunction? name = f'.findFunction? name := by
  rw [Frame.findFunction?, Frame.findFunction?, h.functions]

theorem find?_alike {ts ts' : List TypeEntry} (h : List.Forall₂ TypeEntry.Alike ts ts') (name : String) :
    Option.Rel TypeEntry.Alike (ts.find? fun t => t.name == name) (ts'.find? fun t => t.name == name) := by
  induction h with
  | nil => exact .none
  | cons ht _ ih =>
    rw [List.find?_cons, List.find?_cons, ← ht.name]
    split
    · exact .some ht
    · exact ih

theorem Alike.findType? {f f' : Frame} (h : f.Alike f') (name : String) :
    Option.Rel TypeEntry.Alike (f.findType? name) (f'.findType? name) :=
  find?_alike h.types name

theorem Alike.putVariable {f f' : Frame} (h : f.Alike f') (v : Variable) : (f.putVariable v).Alike (f'.putVariable v) :=
  ⟨h.kind, by simp only [Frame.putVariable, h.bindings], h.functions, h.types⟩

theorem Alike.putFunction {f f' : Frame} (h : f.Alike f') (g : FunctionSignature) :
    (f.putFunction g).Alike (f'.putFunction g) :=
  ⟨h.kind, h.bindings, by simp only [Frame.putFunction, h.functions], h.types⟩

theorem Alike.putType {f f' : Frame} (h : f.Alike f') {t t' : TypeEntry} (ht : t.Alike t') :
    (f.putType t).Alike (f'.putType t') := by
  refine ⟨h.kind, h.bindings, h.functions, List.rel_append (List.rel_filter ?_ h.types) (.cons ht .nil)⟩
  intro b b' hb
  simp [hb.name, ht.name]

end Frame

/-! ## Environments -/

namespace Environment

/-- Two environments that differ in alike types only. -/
structure Alike (env env' : Environment) : Prop where
  inner : List.Forall₂ Frame.Alike env.inner env'.inner
  root : env.root.Alike env'.root

theorem Alike.refl (env : Environment) : env.Alike env :=
  ⟨List.forall₂_same.2 fun f _ => .refl f, .refl env.root⟩

theorem Alike.symm {env env' : Environment} (h : env.Alike env') : env'.Alike env :=
  ⟨(h.inner.imp fun _ _ => Frame.Alike.symm).flip, h.root.symm⟩

theorem Alike.frames {env env' : Environment} (h : env.Alike env') :
    List.Forall₂ Frame.Alike env.frames env'.frames :=
  List.rel_append h.inner (.cons h.root .nil)

theorem Alike.current {env env' : Environment} (h : env.Alike env') : env.current.Alike env'.current := by
  obtain ⟨inner, root, next⟩ := env
  obtain ⟨inner', root', next'⟩ := env'
  obtain ⟨hinner, hroot⟩ := h
  cases hinner with
  | nil => exact hroot
  | cons hf _ => exact hf

/-! ### Lookups -/

theorem findSome?_congr {α : Type} {look look' : Frame → Option α} {fs fs' : List Frame}
    (h : List.Forall₂ Frame.Alike fs fs') (hlook : ∀ f f', Frame.Alike f f' → look f = look' f') :
    fs.findSome? look = fs'.findSome? look' := by
  induction h with
  | nil => rfl
  | cons hf _ ih => rw [List.findSome?_cons, List.findSome?_cons, hlook _ _ hf, ih]

theorem Alike.findVariable? {env env' : Environment} (h : env.Alike env') (name : String) :
    env.findVariable? name = env'.findVariable? name :=
  findSome?_congr h.frames fun _ _ hf => hf.findVariable? name

theorem Alike.findFunction? {env env' : Environment} (h : env.Alike env') (name : String) :
    env.findFunction? name = env'.findFunction? name :=
  findSome?_congr h.frames fun _ _ hf => hf.findFunction? name

theorem findSome?_alike {fs fs' : List Frame} (h : List.Forall₂ Frame.Alike fs fs') (name : String) :
    Option.Rel TypeEntry.Alike (fs.findSome? fun f => f.findType? name) (fs'.findSome? fun f => f.findType? name) := by
  induction h with
  | nil => exact .none
  | @cons f f' _ _ hf _ ih =>
    rw [List.findSome?_cons, List.findSome?_cons]
    generalize f.findType? name = found, f'.findType? name = found', hf.findType? name = hfound
    cases hfound with
    | none => exact ih
    | some ht => exact .some ht

theorem Alike.findType? {env env' : Environment} (h : env.Alike env') (name : String) :
    Option.Rel TypeEntry.Alike (env.findType? name) (env'.findType? name) :=
  findSome?_alike h.frames name

theorem isSome_eq_of_rel {α : Type} {R : α → α → Prop} {a a' : Option α} (h : Option.Rel R a a') :
    a.isSome = a'.isSome := by
  cases h <;> rfl

theorem Alike.declaresFunctionHere {env env' : Environment} (h : env.Alike env') (name : String) :
    env.declaresFunctionHere name = env'.declaresFunctionHere name := by
  rw [Environment.declaresFunctionHere, Environment.declaresFunctionHere, h.current.findFunction?]

theorem Alike.isDefined {env env' : Environment} (h : env.Alike env') (t : TypeName) :
    env.isDefined t = env'.isDefined t := by
  rw [Environment.isDefined, Environment.isDefined, isSome_eq_of_rel (h.findType? t.name)]

theorem Alike.kinds {env env' : Environment} (h : env.Alike env') :
    env.frames.map Frame.kind = env'.frames.map Frame.kind :=
  List.forall₂_eq_eq_eq ▸ List.rel_map (fun _ _ hf => hf.kind) h.frames

theorem inFunction_eq (env : Environment) :
    env.inFunction = (env.frames.map Frame.kind).any fun k => k == .function := by
  rw [Environment.inFunction, List.any_map]
  rfl

theorem Alike.inFunction {env env' : Environment} (h : env.Alike env') : env.inFunction = env'.inFunction := by
  rw [inFunction_eq, inFunction_eq, h.kinds]

theorem Alike.inLoop {env env' : Environment} (h : env.Alike env') : env.inLoop = env'.inLoop := by
  rw [Environment.inLoop, Environment.inLoop, h.kinds]

/-! ### Changes -/

/-- Two changes that do the same, but for alike types. -/
inductive Change.Alike : Change → Change → Prop
  | same (c : Change) : Alike c c
  | type {t t' : TypeEntry} (h : t.Alike t') : Alike (.type t) (.type t')

theorem Alike.modifyCurrent {env env' : Environment} (h : env.Alike env') {change change' : Frame → Frame}
    (hchange : ∀ f f', Frame.Alike f f' → (change f).Alike (change' f')) :
    (env.modifyCurrent change).Alike (env'.modifyCurrent change') := by
  obtain ⟨inner, root, next⟩ := env
  obtain ⟨inner', root', next'⟩ := env'
  obtain ⟨hinner, hroot⟩ := h
  cases hinner with
  | nil => exact ⟨.nil, hchange _ _ hroot⟩
  | cons hf hrest => exact ⟨.cons (hchange _ _ hf) hrest, hroot⟩

theorem Alike.declareType {env env' : Environment} (h : env.Alike env') {t t' : TypeEntry} (ht : t.Alike t') :
    (env.declareType t).Alike (env'.declareType t') := by
  obtain ⟨hinner, hroot⟩ := h.modifyCurrent fun _ _ hf => hf.putType (ht.order env.nextOrder env'.nextOrder)
  exact ⟨hinner, hroot⟩

/-- **Alike changes keep environments alike.** -/
theorem Alike.apply {env env' : Environment} (h : env.Alike env') {c c' : Change} (hc : c.Alike c') :
    (env.apply c).Alike (env'.apply c') := by
  cases hc with
  | type ht => exact h.declareType ht
  | same c =>
    cases c with
    | push kind => exact ⟨.cons (.refl _) h.inner, h.root⟩
    | pop =>
      refine ⟨?_, h.root⟩
      simpa only [Environment.apply, Environment.pop, List.drop_one] using List.forall₂_drop 1 h.inner
    | «variable» v => exact h.modifyCurrent fun _ _ hf => hf.putVariable v
    | type t => exact h.declareType (.refl t)
    | function g => exact h.modifyCurrent fun _ _ hf => hf.putFunction g

/-- What is declared alike from the start stays so. -/
theorem Alike.run {env env' : Environment} (h : env.Alike env') {cs cs' : List Change}
    (hcs : List.Forall₂ Change.Alike cs cs') : (env.run cs).Alike (env'.run cs') := by
  induction hcs generalizing env env' with
  | nil => exact h
  | cons hc _ ih => exact ih (h.apply hc)

end Environment
end UnionScript
