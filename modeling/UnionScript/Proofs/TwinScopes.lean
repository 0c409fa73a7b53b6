import UnionScript.Proofs.Balance
import UnionScript.Proofs.Reach
import UnionScript.Proofs.TopLevel
import UnionScript.Proofs.Twins
/-!
# TwinScopes — scopes in which twins are walked

Two scopes are twins if they declare the same, but for places, for the orders of types and for what stands in a body of a
decorator.  Orders may differ because a body that is left again may have declared types; but of any two types of a frame
the same one comes first in both scopes, since types get ever greater orders (`Environment.Fresh`).  Names mean the same in
twin scopes, unions fit alike, and what is declared alike keeps them twins.  A cache in front of a static source answers the
same however often and in whatever order it is asked (`PackageCache.IsStatic`).
-/
namespace UnionScript

/-! ## Entries -/

section Entries

variable (same : Span → Span → Prop)

structure Variable.Twins (v v' : Variable) : Prop where
  name : v.name = v'.name
  types : v.types = v'.types
  constant : v.constant = v'.constant
  span : same v.span v'.span

structure FunctionSignature.Twins (g g' : FunctionSignature) : Prop where
  name : g.name = g'.name
  parameters : g.parameters = g'.parameters
  returnTypes : g.returnTypes = g'.returnTypes
  span : same g.span g'.span

variable (b b' : List Statement)

/-- Two types that are declared the same, but for places and for bodies in their decorators.  Orders play no part. -/
structure TypeEntry.Twins (t t' : TypeEntry) : Prop where
  name : t.name = t'.name
  types : t.types = t'.types
  list : t.list = t'.list
  kind : t.kind = t'.kind
  attributes : List.Forall₂ (TypedName.Twins same) t.attributes t'.attributes
  classes : t.classes = t'.classes
  decorators : ∃ n, Twin.OfDecorators same b b' n t.decorators t'.decorators
  builtin : t.builtin = t'.builtin
  span : same t.span t'.span

/-- Two lists of types that are declared the same, with the same order among them. -/
def TypesTwins (ts ts' : List TypeEntry) : Prop :=
  ∃ ps : List (TypeEntry × TypeEntry), ts = ps.map Prod.fst ∧ ts' = ps.map Prod.snd ∧
    (∀ p ∈ ps, p.1.Twins same b b' p.2) ∧ ∀ p ∈ ps, ∀ q ∈ ps, p.1.order ≤ q.1.order ↔ p.2.order ≤ q.2.order

/-- Two frames that declare the same. -/
structure Frame.Twins (f f' : Frame) : Prop where
  kind : f.kind = f'.kind
  bindings : List.Forall₂ (Variable.Twins same) f.bindings f'.bindings
  functions : List.Forall₂ (FunctionSignature.Twins same) f.functions f'.functions
  types : TypesTwins same b b' f.types f'.types

end Entries

variable {same : Span → Span → Prop} {b b' : List Statement}

namespace TypeEntry

theorem Twins.refl (h : ∀ span, same span span) (t : TypeEntry) : t.Twins same b b' t where
  name := rfl
  types := rfl
  list := rfl
  kind := rfl
  attributes := List.forall₂_same.2 fun a _ => Twin.typedName_refl h a
  classes := rfl
  decorators := ⟨0, Twin.decorators_refl h _⟩
  builtin := rfl
  span := h _

theorem Twins.order {t t' : TypeEntry} (h : t.Twins same b b' t') (n n' : Nat) :
    Twins same b b' { t with order := n } { t' with order := n' } :=
  { h with }

/-- The attributes of a name are declared the same. -/
theorem Twins.attribute? {t t' : TypeEntry} (h : t.Twins same b b' t') (name : String) :
    (t.attribute? name).map TypedName.types = (t'.attribute? name).map TypedName.types := by
  have hpairs : t.attributes.map (fun a => (a.name, a.types)) = t'.attributes.map fun a => (a.name, a.types) :=
    List.forall₂_eq_eq_eq ▸ List.rel_map (fun _ _ ha => Prod.ext ha.name ha.types) h.attributes
  unfold TypeEntry.attribute?
  rw [attribute?_map, attribute?_map, hpairs]

end TypeEntry

/-! ## Frames -/

namespace Frame

section Lists

variable {α : Type} {R : α → α → Prop} {nameOf : α → String} (hname : ∀ a a', R a a' → nameOf a = nameOf a')

include hname

theorem find?_rel {as as' : List α} (h : List.Forall₂ R as as') (name : String) :
    Option.Rel R (as.find? fun a => nameOf a == name) (as'.find? fun a => nameOf a == name) := by
  induction h with
  | nil => exact .none
  | cons ha _ ih =>
    rw [List.find?_cons, List.find?_cons, ← hname _ _ ha]
    split
    · exact .some ha
    · exact ih

theorem put_rel {as as' : List α} (h : List.Forall₂ R as as') {a a' : α} (ha : R a a') :
    List.Forall₂ R (put nameOf a as) (put nameOf a' as') := by
  refine List.rel_append (List.rel_filter ?_ h) (.cons ha .nil)
  intro c c' hc
  simp [hname _ _ hc, hname _ _ ha]

end Lists

end Frame

theorem TypesTwins.forall₂ {ts ts' : List TypeEntry} (h : TypesTwins same b b' ts ts') :
    List.Forall₂ (TypeEntry.Twins same b b') ts ts' := by
  obtain ⟨ps, rfl, rfl, htwins, -⟩ := h
  rw [List.forall₂_map_left_iff, List.forall₂_map_right_iff, List.forall₂_same]
  exact htwins

/-- A type that is declared behind all others. -/
theorem TypesTwins.put {ts ts' : List TypeEntry} (h : TypesTwins same b b' ts ts') {t t' : TypeEntry}
    (ht : t.Twins same b b' t') (hlast : ∀ u ∈ ts, u.order < t.order) (hlast' : ∀ u ∈ ts', u.order < t'.order) :
    TypesTwins same b b' (Frame.put TypeEntry.name t ts) (Frame.put TypeEntry.name t' ts') := by
  obtain ⟨ps, rfl, rfl, htwins, horder⟩ := h
  let kept := ps.filter fun p => p.1.name != t.name
  have hkept : ∀ p ∈ kept, p ∈ ps := fun p hp => (List.mem_filter.1 hp).1
  refine ⟨kept ++ [(t, t')], ?_, ?_, ?_, ?_⟩
  · rw [List.map_append, Frame.put, List.filter_map]
    rfl
  · rw [List.map_append, Frame.put, List.filter_map]
    congr 2
    refine List.filter_congr fun p hp => ?_
    rw [Function.comp_apply, ← ht.name, ← (htwins p hp).name]
  · intro p hp
    rcases List.mem_append.1 hp with hp | hp
    · exact htwins p (hkept p hp)
    · obtain rfl := List.mem_singleton.1 hp
      exact ht
  · have hbehind : ∀ p ∈ kept, p.1.order < t.order ∧ p.2.order < t'.order := fun p hp =>
      ⟨hlast _ (List.mem_map_of_mem (hkept p hp)), hlast' _ (List.mem_map_of_mem (hkept p hp))⟩
    intro p hp q hq
    rcases List.mem_append.1 hp with hp | hp <;> rcases List.mem_append.1 hq with hq | hq
    · exact horder p (hkept p hp) q (hkept q hq)
    · obtain rfl := List.mem_singleton.1 hq
      exact iff_of_true (hbehind p hp).1.le (hbehind p hp).2.le
    · obtain rfl := List.mem_singleton.1 hp
      exact iff_of_false (hbehind q hq).1.not_ge (hbehind q hq).2.not_ge
    · obtain rfl := List.mem_singleton.1 hp
      obtain rfl := List.mem_singleton.1 hq
      exact iff_of_true le_rfl le_rfl

namespace Frame

/-- The declared types of twin frames are twins, in their order. -/
theorem Twins.declaredTypes {f f' : Frame} (h : f.Twins same b b' f') :
    List.Forall₂ (TypeEntry.Twins same b b') f.declaredTypes f'.declaredTypes := by
  obtain ⟨ps, hfst, hsnd, htwins, horder⟩ := h.types
  let declared := ps.filter fun p => !p.1.builtin
  have hdeclared : ∀ p ∈ declared, p ∈ ps := fun p hp => (List.mem_filter.1 hp).1
  have hleft : f.declaredTypes = (declared.mergeSort fun p q => p.1.order ≤ q.1.order).map Prod.fst := by
    rw [Frame.declaredTypes, hfst, List.filter_map]
    exact (List.map_mergeSort (f := Prod.fst) fun _ _ _ _ => rfl).symm
  have hright : f'.declaredTypes = (declared.mergeSort fun p q => p.1.order ≤ q.1.order).map Prod.snd := by
    have hfilter : (ps.filter fun p => !p.2.builtin) = declared :=
      List.filter_congr fun p hp => by rw [(htwins p hp).builtin]
    rw [Frame.declaredTypes, hsnd, List.filter_map]
    show ((ps.filter fun p => !p.2.builtin).map Prod.snd).mergeSort _ = _
    rw [hfilter]
    refine (List.map_mergeSort fun p hp q hq => ?_).symm
    exact decide_eq_decide.2 (horder p (hdeclared p hp) q (hdeclared q hq))
  rw [hleft, hright, List.forall₂_map_left_iff, List.forall₂_map_right_iff, List.forall₂_same]
  exact fun p hp => htwins p (hdeclared p (List.mem_mergeSort.1 hp))

theorem Twins.empty (kind : FrameKind) : Frame.Twins same b b' { kind } { kind } where
  kind := rfl
  bindings := .nil
  functions := .nil
  types := ⟨[], rfl, rfl, List.forall_mem_nil _, List.forall_mem_nil _⟩

theorem Twins.refl (h : ∀ span, same span span) (f : Frame) : f.Twins same b b' f where
  kind := rfl
  bindings := List.forall₂_same.2 fun _ _ => ⟨rfl, rfl, rfl, h _⟩
  functions := List.forall₂_same.2 fun _ _ => ⟨rfl, rfl, rfl, h _⟩
  types := by
    refine ⟨f.types.map fun t => (t, t), ?_, ?_, ?_, ?_⟩
    · rw [List.map_map]
      exact (List.map_id _).symm
    · rw [List.map_map]
      exact (List.map_id _).symm
    · intro p hp
      obtain ⟨t, -, rfl⟩ := List.mem_map.1 hp
      exact .refl h t
    · intro p hp q hq
      obtain ⟨t, -, rfl⟩ := List.mem_map.1 hp
      obtain ⟨u, -, rfl⟩ := List.mem_map.1 hq
      exact Iff.rfl

end Frame

/-! ## Environments -/

namespace Environment

/-- The next declared type gets a greater order than all before. -/
def Fresh (env : Environment) : Prop := ∀ f ∈ env.frames, ∀ t ∈ f.types, t.order < env.nextOrder

/-- Two scopes in which the same is declared. -/
structure Twins (same : Span → Span → Prop) (b b' : List Statement) (env env' : Environment) : Prop where
  frames : List.Forall₂ (Frame.Twins same b b') env.frames env'.frames
  fresh : env.Fresh
  fresh' : env'.Fresh

variable {env env' : Environment}

theorem fresh_ofRoot (root : Frame) : (ofRoot root).Fresh := by
  intro f hf t ht
  obtain rfl : f = root := List.mem_singleton.1 hf
  show t.order < ((f.types.map fun t => t.order + 1).max?).getD 1
  have hmem : t.order + 1 ∈ f.types.map fun t => t.order + 1 := List.mem_map_of_mem ht
  cases hmax : (f.types.map fun t => t.order + 1).max? with
  | none =>
    rw [List.max?_eq_none_iff.1 hmax] at hmem
    cases hmem
  | some m => exact (List.max?_eq_some_iff.1 hmax).2 _ hmem

theorem Twins.ofRoot (h : ∀ span, same span span) (root : Frame) :
    (ofRoot root).Twins same b b' (.ofRoot root) :=
  ⟨.cons (.refl h root) .nil, fresh_ofRoot root, fresh_ofRoot root⟩

theorem Twins.root (h : env.Twins same b b' env') : env.root.Twins same b b' env'.root := by
  have hlast := (List.forall₂_reverse_iff.2 h.frames)
  rw [Environment.frames, Environment.frames, List.reverse_append, List.reverse_append] at hlast
  exact (List.forall₂_cons.1 hlast).1

theorem Twins.cons (h : env.Twins same b b' env') : env.current.Twins same b b' env'.current ∧
    List.Forall₂ (Frame.Twins same b b') env.frames.tail env'.frames.tail := by
  have hframes := h.frames
  rw [frames_eq, frames_eq env'] at hframes
  exact List.forall₂_cons.1 hframes

/-! ### Lookups -/

theorem findSome?_rel {α : Type} {R : α → α → Prop} {look : Frame → Option α} {fs fs' : List Frame}
    (h : List.Forall₂ (Frame.Twins same b b') fs fs')
    (hlook : ∀ f f', Frame.Twins same b b' f f' → Option.Rel R (look f) (look f')) :
    Option.Rel R (fs.findSome? look) (fs'.findSome? look) := by
  induction h with
  | nil => exact .none
  | @cons f f' _ _ hf _ ih =>
    rw [List.findSome?_cons, List.findSome?_cons]
    generalize look f = found, look f' = found', hlook f f' hf = hfound
    cases hfound with
    | none => exact ih
    | some ha => exact .some ha

theorem Twins.findVariable? (h : env.Twins same b b' env') (name : String) :
    Option.Rel (Variable.Twins same) (env.findVariable? name) (env'.findVariable? name) :=
  findSome?_rel h.frames fun _ _ hf => Frame.find?_rel (fun _ _ hv => hv.name) hf.bindings name

theorem Twins.findFunction? (h : env.Twins same b b' env') (name : String) :
    Option.Rel (FunctionSignature.Twins same) (env.findFunction? name) (env'.findFunction? name) :=
  findSome?_rel h.frames fun _ _ hf => Frame.find?_rel (fun _ _ hg => hg.name) hf.functions name

theorem Twins.findType? (h : env.Twins same b b' env') (name : String) :
    Option.Rel (TypeEntry.Twins same b b') (env.findType? name) (env'.findType? name) :=
  findSome?_rel h.frames fun _ _ hf => Frame.find?_rel (fun _ _ ht => ht.name) hf.types.forall₂ name

theorem Twins.declaresFunctionHere (h : env.Twins same b b' env') (name : String) :
    env.declaresFunctionHere name = env'.declaresFunctionHere name :=
  isSome_eq_of_rel (Frame.find?_rel (fun _ _ hg => hg.name) h.cons.1.functions name)

theorem Twins.isDefined (h : env.Twins same b b' env') (t : TypeName) : env.isDefined t = env'.isDefined t := by
  rw [Environment.isDefined, Environment.isDefined, isSome_eq_of_rel (h.findType? t.name)]

theorem Twins.kinds (h : env.Twins same b b' env') : env.frames.map Frame.kind = env'.frames.map Frame.kind :=
  List.forall₂_eq_eq_eq ▸ List.rel_map (fun _ _ hf => hf.kind) h.frames

theorem Twins.inFunction (h : env.Twins same b b' env') : env.inFunction = env'.inFunction := by
  rw [inFunction_eq, inFunction_eq, h.kinds]

theorem Twins.inLoop (h : env.Twins same b b' env') : env.inLoop = env'.inLoop := by
  rw [Environment.inLoop, Environment.inLoop, h.kinds]

/-- The attributes of a type are declared the same. -/
theorem Twins.attribute? (h : env.Twins same b b' env') (type name : String) :
    ((env.findType? type).bind fun entry => entry.attribute? name).map TypedName.types =
      ((env'.findType? type).bind fun entry => entry.attribute? name).map TypedName.types := by
  generalize env.findType? type = found, env'.findType? type = found', h.findType? type = hfound
  cases hfound with
  | none => rfl
  | some ht => exact ht.attribute? name

/-! ### Matches -/

/-- Where types have the same members, the same is led to. -/
theorem Leads.ofMembers {start : List TypeName}
    (h : ∀ name entry, env.findType? name = some entry →
      ∃ entry', env'.findType? name = some entry' ∧ entry.types = entry'.types ∧ entry.builtin = entry'.builtin)
    {t : TypeName} (ht : env.Leads start t) : env'.Leads start t := by
  induction ht with
  | own ht => exact .own ht
  | member _ hfind hdeclared hm ih =>
    obtain ⟨entry', hfind', htypes, hbuiltin⟩ := h _ _ hfind
    exact .member ih hfind' (hbuiltin ▸ hdeclared) (htypes ▸ hm)

/-- **Unions fit alike in twin scopes.** -/
theorem Twins.unmatched (h : env.Twins same b b' env') (actual expected : Union) :
    env.unmatched actual expected = env'.unmatched actual expected := by
  have hleads (t : TypeName) : env.Leads expected.alternatives t ↔ env'.Leads expected.alternatives t := by
    constructor
    · refine Leads.ofMembers fun name entry hfind => ?_
      have hrel := h.findType? name
      rw [hfind] at hrel
      generalize env'.findType? name = found at hrel
      cases hrel with
      | some ht => exact ⟨_, rfl, ht.types, ht.builtin⟩
    · refine Leads.ofMembers fun name entry hfind => ?_
      have hrel := h.findType? name
      rw [hfind] at hrel
      generalize env.findType? name = found at hrel
      cases hrel with
      | some ht => exact ⟨_, rfl, ht.types.symm, ht.builtin.symm⟩
  have haccepts (a : TypeName) : env.accepts a [] expected.alternatives = env'.accepts a [] expected.alternatives := by
    rw [Bool.eq_iff_iff, accepts_iff, accepts_iff]
    exact exists_congr fun t => and_congr_left' (hleads t)
  simp only [Environment.unmatched, haccepts]

/-! ### Changes -/

/-- Two changes that open the same frames and declare the same; what closes frames is not among them. -/
inductive Change.Twins (same : Span → Span → Prop) (b b' : List Statement) : Change → Change → Prop
  | push (kind : FrameKind) : Twins same b b' (.push kind) (.push kind)
  | variable {v v' : Variable} (h : v.Twins same v') : Twins same b b' (.variable v) (.variable v')
  | type {t t' : TypeEntry} (h : t.Twins same b b' t') : Twins same b b' (.type t) (.type t')
  | function {g g' : FunctionSignature} (h : g.Twins same g') : Twins same b b' (.function g) (.function g')

/-- A change of the innermost frame that keeps its types keeps orders fresh. -/
theorem Fresh.modifyCurrent (h : env.Fresh) {change : Frame → Frame}
    (hchange : (change env.current).types = env.current.types) : (env.modifyCurrent change).Fresh := by
  have hmem : env.current ∈ env.frames := frames_eq env ▸ List.mem_cons_self
  intro f hf t ht
  rw [nextOrder_modifyCurrent]
  rw [frames_modifyCurrent] at hf
  rcases List.mem_cons.1 hf with rfl | hf
  · exact h _ hmem t (hchange ▸ ht)
  · exact h f (List.mem_of_mem_tail hf) t ht

theorem Fresh.declareType (h : env.Fresh) (t : TypeEntry) : (env.declareType t).Fresh := by
  have hmem : env.current ∈ env.frames := frames_eq env ▸ List.mem_cons_self
  intro f hf u hu
  show u.order < env.nextOrder + 1
  have hf' : f ∈ (env.modifyCurrent fun f => f.putType { t with order := env.nextOrder }).frames := hf
  rw [frames_modifyCurrent] at hf'
  rcases List.mem_cons.1 hf' with rfl | hf'
  · rcases List.mem_append.1 hu with hu | hu
    · exact Nat.lt_succ_of_lt (h _ hmem u (List.mem_filter.1 hu).1)
    · obtain rfl := List.mem_singleton.1 hu
      exact Nat.lt_succ_self _
  · exact Nat.lt_succ_of_lt (h f (List.mem_of_mem_tail hf') u hu)

theorem Twins.modifyCurrent (h : env.Twins same b b' env') (change change' : Frame → Frame)
    (hchange : (change env.current).Twins same b b' (change' env'.current))
    (hkeeps : (change env.current).types = env.current.types)
    (hkeeps' : (change' env'.current).types = env'.current.types) :
    (env.modifyCurrent change).Twins same b b' (env'.modifyCurrent change') where
  frames := by
    rw [frames_modifyCurrent, frames_modifyCurrent]
    exact .cons hchange h.cons.2
  fresh := h.fresh.modifyCurrent hkeeps
  fresh' := h.fresh'.modifyCurrent hkeeps'

/-- **What is declared alike keeps scopes twins.** -/
theorem Twins.apply (h : env.Twins same b b' env') {c c' : Change} (hc : c.Twins same b b' c') :
    (env.apply c).Twins same b b' (env'.apply c') := by
  have hcurrent := h.cons.1
  have hmem : env.current ∈ env.frames := frames_eq env ▸ List.mem_cons_self
  have hmem' : env'.current ∈ env'.frames := frames_eq env' ▸ List.mem_cons_self
  cases hc with
  | push kind =>
    refine ⟨.cons (.empty kind) h.frames, ?_, ?_⟩
    · intro f hf t ht
      rcases List.mem_cons.1 hf with rfl | hf
      · cases ht
      · exact h.fresh f hf t ht
    · intro f hf t ht
      rcases List.mem_cons.1 hf with rfl | hf
      · cases ht
      · exact h.fresh' f hf t ht
  | @«variable» v v' hv =>
    exact h.modifyCurrent (fun f => f.putVariable v) (fun f => f.putVariable v')
      { hcurrent with bindings := Frame.put_rel (fun _ _ hv => hv.name) hcurrent.bindings hv }
      rfl rfl
  | @function g g' hg =>
    exact h.modifyCurrent (fun f => f.putFunction g) (fun f => f.putFunction g')
      { hcurrent with functions := Frame.put_rel (fun _ _ hg => hg.name) hcurrent.functions hg }
      rfl rfl
  | @type t t' ht =>
    refine ⟨?_, h.fresh.declareType t, h.fresh'.declareType t'⟩
    show List.Forall₂ _ (env.modifyCurrent _).frames (env'.modifyCurrent _).frames
    rw [frames_modifyCurrent, frames_modifyCurrent]
    exact .cons { hcurrent with types := hcurrent.types.put (ht.order _ _) (h.fresh _ hmem) (h.fresh' _ hmem') } h.cons.2

end Environment

/-! ## Packages -/

namespace PackageCache

/-- The source behind a cache answers a question about a name always the same. -/
def IsStatic (cache : PackageCache) : Prop := ∀ n m name, cache.source n name = cache.source m name

/-- Asking a cache changes none of the answers it gives. -/
theorem IsStatic.get_get {cache : PackageCache} (h : cache.IsStatic) (asked name : String) :
    ((cache.get asked).2.get name).1 = (cache.get name).1 := by
  cases hasked : cache.entry? asked with
  | some known =>
    have hsame : (cache.get asked).2 = cache := by rw [get, hasked]
    rw [hsame]
  | none =>
    let after : PackageCache :=
      { cache with entries := (asked, cache.answer asked) :: cache.entries, asked := cache.asked ++ [asked] }
    have hafter : (cache.get asked).2 = after := by rw [get, hasked]
    have hanswer : after.answer name = cache.answer name := by
      rw [answer, answer, h after.asked.length cache.asked.length name]
    rw [hafter]
    by_cases hname : name = asked
    · subst hname
      have hentry : after.entry? name = some (cache.answer name) := by simp [after, entry?]
      rw [get, hentry, get, hasked]
    · have hother : (name == asked) = false := beq_eq_false_iff_ne.2 hname
      have hentry : after.entry? name = cache.entry? name := by simp [after, entry?, List.lookup_cons, hother]
      rw [get, get, hentry]
      cases cache.entry? name with
      | some known => rfl
      | none => exact hanswer

theorem IsStatic.get {cache : PackageCache} (h : cache.IsStatic) (asked : String) : (cache.get asked).2.IsStatic := by
  unfold PackageCache.get
  split <;> exact h

end PackageCache
end UnionScript
