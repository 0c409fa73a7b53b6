import UnionScript.Proofs.Course
import UnionScript.Proofs.Reach
import UnionScript.Proofs.Reloading
/-!
# Standing — what a type name stands for

A type is declared only where its name is free along the whole chain of scopes, so every name is declared in one frame
at most, and no declaration can shadow another one (`Environment.Sound`).  What is declared in some frames stays declared
as long as these are open (`Environment.StandsOn`); hence a name that is resolved keeps its meaning, and since whether a
union fits depends on what names resolve to, and more names can only lead to more, a union that fits goes on fitting
(`walk_keeps_types`).
-/
namespace UnionScript
namespace Environment

variable {env : Environment}

/-! ## The types of a chain of scopes -/

/-- The types declared in any open frame, those of the innermost one first. -/
def types (env : Environment) : List TypeEntry := env.frames.flatMap Frame.types

theorem types_eq (env : Environment) : env.types = env.current.types ++ env.frames.tail.flatMap Frame.types := by
  rw [types, frames_eq, List.flatMap_cons, List.tail_cons]

/-- A name stands for the first type so named. -/
theorem findType?_eq_find? (env : Environment) (name : String) :
    env.findType? name = env.types.find? fun t => t.name == name :=
  (List.find?_flatMap ..).symm

theorem findType?_eq_none_iff {name : String} : env.findType? name = none ↔ ∀ t ∈ env.types, t.name ≠ name := by
  simp [findType?_eq_find?]

/-- What an environment keeps: types have names of their own, the built-in ones are in the root frame, and those that are
not have numbers of their own, all of which are used up. -/
structure Sound (env : Environment) : Prop where
  names : (env.types.map TypeEntry.name).Nodup
  builtin : ∀ name ∈ builtinTypes, TypeEntry.ofBuiltin name ∈ env.root.types
  numbers : ((env.types.filter fun t => !t.builtin).map TypeEntry.order).Nodup
  bounded : ∀ t ∈ env.types, t.builtin = false → t.order < env.nextOrder

namespace Sound

/-- Where every type has a name of its own, a name stands for the type that has it. -/
theorem findType?_eq_some_iff (h : env.Sound) {name : String} {t : TypeEntry} :
    env.findType? name = some t ↔ t ∈ env.types ∧ t.name = name := by
  rw [findType?_eq_find?]
  constructor
  · exact fun hfind => ⟨List.mem_of_find?_eq_some hfind, by simpa using List.find?_some hfind⟩
  · rintro ⟨ht, rfl⟩
    cases hfind : env.types.find? fun u => u.name == t.name with
    | none => exact absurd (beq_self_eq_true t.name) (List.find?_eq_none.1 hfind t ht)
    | some u =>
      have hname : u.name = t.name := by simpa using List.find?_some hfind
      rw [List.inj_on_of_nodup_map h.names (List.mem_of_find?_eq_some hfind) ht hname]

end Sound

/-! ## Changes -/

theorem types_modifyCurrent (env : Environment) (f : Frame → Frame) :
    (env.modifyCurrent f).types = (f env.current).types ++ env.frames.tail.flatMap Frame.types := by
  rw [types, frames_modifyCurrent, List.flatMap_cons]

theorem types_modifyCurrent_eq (env : Environment) {f : Frame → Frame} (hf : (f env.current).types = env.current.types) :
    (env.modifyCurrent f).types = env.types := by rw [types_modifyCurrent, hf, ← types_eq]

/-- A type under a free name is put behind the types of the innermost frame. -/
theorem types_putType {t : TypeEntry} (hfree : env.findType? t.name = none) (order : Nat) :
    (env.current.putType { t with order }).types = env.current.types ++ [{ t with order }] := by
  have hnone : ∀ u ∈ env.current.types, u.name ≠ t.name := fun u hu =>
    findType?_eq_none_iff.1 hfree u (env.types_eq ▸ List.mem_append_left _ hu)
  rw [Frame.putType, Frame.put, List.filter_eq_self.2 (by simpa using hnone)]

theorem types_declareType {t : TypeEntry} (hfree : env.findType? t.name = none) :
    (env.declareType t).types.Perm ({ t with order := env.nextOrder } :: env.types) := by
  have htypes : (env.declareType t).types = env.current.types ++ [{ t with order := env.nextOrder }] ++
      env.frames.tail.flatMap Frame.types := by
    rw [← types_putType hfree, ← types_modifyCurrent env fun f => f.putType { t with order := env.nextOrder }]
    rfl
  rw [htypes, env.types_eq, List.append_assoc]
  exact List.perm_middle

/-- The frames that stay open keep their types when a frame is left. -/
theorem types_pop_sublist (env : Environment) : env.pop.types.Sublist env.types := by
  obtain ⟨inner, root, next⟩ := env
  cases inner with
  | nil => exact List.Sublist.refl _
  | cons f inner => exact List.sublist_append_right _ _

/-- The root frame keeps its types whatever is changed. -/
theorem mem_root_modifyCurrent {f : Frame → Frame} (hf : ∀ t ∈ env.current.types, t ∈ (f env.current).types)
    {t : TypeEntry} (ht : t ∈ env.root.types) : t ∈ (env.modifyCurrent f).root.types := by
  obtain ⟨inner, root, next⟩ := env
  cases inner with
  | nil => exact hf t ht
  | cons g inner => exact ht

/-- A change that leaves the types as they are keeps them sound. -/
theorem Sound.ofTypes (h : env.Sound) {env' : Environment} (htypes : env'.types.Sublist env.types)
    (hroot : ∀ t ∈ env.root.types, t ∈ env'.root.types) (hnext : env.nextOrder ≤ env'.nextOrder) : env'.Sound where
  names := h.names.sublist (htypes.map _)
  builtin name hname := hroot _ (h.builtin name hname)
  numbers := h.numbers.sublist ((htypes.filter _).map _)
  bounded t ht hbuiltin := Nat.lt_of_lt_of_le (h.bounded t (htypes.subset ht) hbuiltin) hnext

theorem Sound.ofModified (h : env.Sound) {f : Frame → Frame} (hf : (f env.current).types = env.current.types) :
    (env.modifyCurrent f).Sound := by
  refine h.ofTypes (env.types_modifyCurrent_eq hf ▸ List.Sublist.refl _) (fun _ => mem_root_modifyCurrent fun _ hu => hf ▸ hu) ?_
  exact Nat.le_of_eq (env.nextOrder_modifyCurrent f).symm

/-- So does declaring a type under a free name, which gets a number of its own. -/
theorem Sound.declareType (h : env.Sound) {t : TypeEntry} (hfree : env.findType? t.name = none)
    (hbuiltin : t.builtin = false) : (env.declareType t).Sound where
  names := by
    refine (((types_declareType hfree).map TypeEntry.name).nodup_iff).2 (List.nodup_cons.2 ⟨fun hmem => ?_, h.names⟩)
    obtain ⟨u, hu, hname⟩ := List.mem_map.1 hmem
    exact findType?_eq_none_iff.1 hfree u hu hname
  builtin name hname := mem_root_modifyCurrent (f := fun f => f.putType { t with order := env.nextOrder })
    (fun u hu => types_putType hfree _ ▸ List.mem_append_left _ hu) (h.builtin name hname)
  numbers := by
    refine ((((types_declareType hfree).filter _).map TypeEntry.order).nodup_iff).2 ?_
    rw [List.filter_cons_of_pos (by simpa using hbuiltin), List.map_cons]
    refine List.nodup_cons.2 ⟨fun hmem => ?_, h.numbers⟩
    obtain ⟨u, hu, horder⟩ := List.mem_map.1 hmem
    rw [List.mem_filter, Bool.not_eq_true'] at hu
    exact Nat.lt_irrefl _ (horder ▸ h.bounded u hu.1 hu.2)
  bounded u hu hu' := by
    rcases List.mem_cons.1 ((types_declareType hfree).subset hu) with rfl | hu
    · exact Nat.lt_succ_self _
    · exact Nat.lt_succ_of_lt (h.bounded u hu hu')

/-- **Every change keeps types sound**, if types are declared under free names. -/
theorem Sound.apply (h : env.Sound) : ∀ {c : Change},
    (∀ t, c = .type t → env.findType? t.name = none ∧ t.builtin = false) → (env.apply c).Sound
  | .push _, _ => h.ofTypes (List.Sublist.refl _) (fun _ ht => ht) (Nat.le_refl _)
  | .pop, _ => h.ofTypes env.types_pop_sublist (fun _ ht => ht) (Nat.le_refl _)
  | .variable v, _ => h.ofModified (f := fun f => f.putVariable v) rfl
  | .function g, _ => h.ofModified (f := fun f => f.putFunction g) rfl
  | .type t, hfree => h.declareType (hfree t rfl).1 (hfree t rfl).2

/-- The built-in names are declared in the root frame only, as the built-in types. -/
theorem Sound.findType?_builtin (h : env.Sound) {name : String} (hname : name ∈ builtinTypes) :
    env.root.findType? name = some (.ofBuiltin name) ∧ ∀ f ∈ env.inner, f.findType? name = none := by
  have htypes : env.types = env.inner.flatMap Frame.types ++ env.root.types := by
    rw [types, frames, List.flatMap_append, List.flatMap_singleton]
  have hnames := h.names
  rw [htypes, List.map_append, List.nodup_append] at hnames
  obtain ⟨-, hroot, hapart⟩ := hnames
  have hmem := h.builtin name hname
  refine ⟨?_, fun f hf => List.find?_eq_none.2 fun t ht hsame => ?_⟩
  · cases hfind : env.root.findType? name with
    | none => exact absurd (beq_self_eq_true name) (List.find?_eq_none.1 hfind _ hmem)
    | some u =>
      have hu : u.name = name := by simpa using List.find?_some hfind
      rw [List.inj_on_of_nodup_map hroot (List.mem_of_find?_eq_some hfind) hmem hu]
  · have hname : t.name = (TypeEntry.ofBuiltin name).name := by rwa [beq_iff_eq] at hsame
    exact hapart _ (List.mem_map_of_mem (List.mem_flatMap.2 ⟨f, hf, ht⟩)) _ (List.mem_map_of_mem hmem) hname

/-! ## Frames that stay open -/

theorem depth_eq (env : Environment) : env.depth = env.frames.length := by
  rw [depth, frames, List.length_append, List.length_singleton]

/-- The frames at the bottom of a chain have all the types of some other frames, one of the one and one of the other. -/
def StandsOn (below : List Frame) (env : Environment) : Prop :=
  ∃ opened rest, env.frames = opened ++ rest ∧ List.Forall₂ (fun f g : Frame => ∀ t ∈ f.types, t ∈ g.types) below rest

namespace StandsOn

variable {below : List Frame}

theorem refl (env : Environment) : env.StandsOn env.frames :=
  ⟨[], env.frames, rfl, List.forall₂_same.2 fun _ _ _ ht => ht⟩

theorem mem_types (h : env.StandsOn below) {t : TypeEntry} (ht : t ∈ below.flatMap Frame.types) : t ∈ env.types := by
  obtain ⟨opened, rest, hframes, hrest⟩ := h
  rw [types, hframes, List.flatMap_append]
  refine List.mem_append_right _ ?_
  clear hframes
  induction hrest with
  | nil => exact ht
  | cons hf _ ih =>
    rw [List.flatMap_cons] at ht ⊢
    exact List.mem_append.2 ((List.mem_append.1 ht).imp (hf t) ih)

/-- The innermost frame may gain types. -/
theorem modifyCurrent (h : env.StandsOn below) {f : Frame → Frame}
    (hf : ∀ t ∈ env.current.types, t ∈ (f env.current).types) : (env.modifyCurrent f).StandsOn below := by
  obtain ⟨opened, rest, hframes, hrest⟩ := h
  rw [frames_eq] at hframes
  cases opened with
  | cons g opened =>
    obtain ⟨rfl, htail⟩ := List.cons.inj hframes
    exact ⟨f env.current :: opened, rest, by rw [frames_modifyCurrent, htail]; rfl, hrest⟩
  | nil =>
    rw [List.nil_append] at hframes
    subst hframes
    cases hrest with
    | cons hg htail => exact ⟨[], _, frames_modifyCurrent env f, .cons (fun t ht => hf t (hg t ht)) htail⟩

/-- A frame may be left that was opened above them. -/
theorem pop (h : env.StandsOn below) (hdepth : below.length ≤ env.pop.depth) : env.pop.StandsOn below := by
  obtain ⟨opened, rest, hframes, hrest⟩ := h
  obtain ⟨inner, root, next⟩ := env
  cases inner with
  | nil => exact ⟨opened, rest, hframes, hrest⟩
  | cons f inner =>
    cases opened with
    | cons g opened => exact ⟨opened, rest, (List.cons.inj hframes).2, hrest⟩
    | nil =>
      have hlength := congrArg List.length hframes
      rw [List.nil_append, ← hrest.length_eq] at hlength
      simp only [frames, List.length_append, List.length_cons, List.length_nil] at hlength
      simp only [Environment.pop, depth, List.tail_cons] at hdepth
      omega

theorem apply (h : env.StandsOn below) : ∀ {c : Change},
    (∀ t, c = .type t → env.findType? t.name = none) → below.length ≤ (env.apply c).depth → (env.apply c).StandsOn below
  | .push kind, _, _ => by
    obtain ⟨opened, rest, hframes, hrest⟩ := h
    have hpushed : (env.apply (.push kind)).frames = { kind } :: env.frames := rfl
    exact ⟨{ kind } :: opened, rest, by rw [hpushed, hframes, List.cons_append], hrest⟩
  | .pop, _, hdepth => h.pop hdepth
  | .variable v, _, _ => h.modifyCurrent (f := fun f => f.putVariable v) fun _ ht => ht
  | .function g, _, _ => h.modifyCurrent (f := fun f => f.putFunction g) fun _ ht => ht
  | .type t, hfree, _ => h.modifyCurrent (f := fun f => f.putType { t with order := env.nextOrder }) fun _ hu =>
      types_putType (hfree t rfl) _ ▸ List.mem_append_left _ hu

end StandsOn

/-! ## What resolved names decide -/

/-- The names that are resolved in one environment mean the same in the other. -/
def ResolvesIn (env env' : Environment) : Prop := ∀ name t, env.findType? name = some t → env'.findType? name = some t

variable {env' : Environment}

theorem StandsOn.resolvesIn (h : env'.StandsOn env.frames) (hsound : env.Sound) (hsound' : env'.Sound) :
    env.ResolvesIn env' := fun name t ht => by
  obtain ⟨hmem, hname⟩ := hsound.findType?_eq_some_iff.1 ht
  exact hsound'.findType?_eq_some_iff.2 ⟨h.mem_types hmem, hname⟩

theorem Leads.ofResolves (h : env.ResolvesIn env') {start : List TypeName} {t : TypeName} (ht : env.Leads start t) :
    env'.Leads start t := by
  induction ht with
  | own ht => exact .own ht
  | member _ hfind hbuiltin hm ih => exact .member ih (h _ _ hfind) hbuiltin hm

/-- **More names can only make more unions fit.** -/
theorem ResolvesIn.still_fits (h : env.ResolvesIn env') {actual expected : Union} (hfits : env.fits actual expected = true) :
    env'.fits actual expected = true := by
  unfold fits at hfits ⊢
  rw [List.isEmpty_iff] at hfits ⊢
  refine List.eq_nil_iff_forall_not_mem.2 fun a ha => ?_
  obtain ⟨hmem, hany, hmissed⟩ := mem_unmatched.1 ha
  have hmem' : a ∈ env.unmatched actual expected := mem_unmatched.2 ⟨hmem, hany, fun t ht => hmissed t (ht.ofResolves h)⟩
  exact List.not_mem_nil (hfits ▸ hmem')

end Environment

/-! ## Along a walk -/

open Environment (Sound StandsOn)

variable {s : CheckState}

/-- Only changes have to do with the scopes. -/
theorem Act.environment_apply (s : CheckState) (a : Act) :
    (a.apply s).environment = s.environment ∨ ∃ c, a = .change c ∧ (a.apply s).environment = s.environment.apply c := by
  cases a with
  | change c => exact .inr ⟨c, rfl, rfl⟩
  | _ => exact .inl rfl

/-- What an act may do to types is what a change may. -/
theorem Act.Admissible.free {c : Environment.Change} (h : (Act.change c).Admissible s) (t : TypeEntry)
    (hc : c = .type t) : s.environment.findType? t.name = none ∧ t.builtin = false := by
  subst hc
  exact h

/-- **Acts that may be performed keep types sound.** -/
theorem sound_after : ∀ {acts : List Act} {s : CheckState}, s.environment.Sound → Act.AllAdmissible s acts →
    (s.after acts).environment.Sound
  | [], _, h, _ => h
  | a :: acts, s, h, ⟨ha, hacts⟩ => by
    have hnext : (a.apply s).environment.Sound := by
      rcases a.environment_apply s with hsame | ⟨c, rfl, hc⟩
      · rwa [hsame]
      · exact h.apply ha.free
    show ((a.apply s).after acts).environment.Sound
    exact sound_after hnext hacts

/-- **Frames that stay open keep their types.** -/
theorem standsOn_after {below : List Frame} : ∀ {acts : List Act} {s : CheckState}, s.environment.StandsOn below →
    Act.AllAdmissible s acts → (∀ part, part <+: acts → below.length ≤ (s.after part).environment.depth) →
      (s.after acts).environment.StandsOn below
  | [], _, h, _, _ => h
  | a :: acts, s, h, ⟨ha, hacts⟩, hdepth => by
    have hnext : (a.apply s).environment.StandsOn below := by
      rcases a.environment_apply s with hsame | ⟨c, rfl, hc⟩
      · rwa [hsame]
      · have hopen := hdepth [.change c] (List.cons_prefix_cons.2 ⟨rfl, List.nil_prefix⟩)
        exact h.apply (fun t ht => (ha.free t ht).1) hopen
    show ((a.apply s).after acts).environment.StandsOn below
    exact standsOn_after hnext hacts fun part hpart => hdepth (a :: part) (List.cons_prefix_cons.2 ⟨rfl, hpart⟩)

namespace Check

/-- The scope of a session, whatever type files it has loaded. -/
theorem sound_ofRoot {root : Frame} {es : List Numbered} (h : Lists (.ofRoot root) es) :
    (Environment.ofRoot root).Sound := by
  have htypes : (Environment.ofRoot root).types = Frame.builtin.types ++ es.map numberedEntry := by
    rw [← h.types]
    exact List.append_nil _
  refine ⟨htypes ▸ h.distinct, fun name hname => ?_, ?_, fun t ht hbuiltin => ?_⟩
  · rw [h.types]
    exact List.mem_append_left _ (List.mem_map_of_mem hname)
  · have hdeclared : (Environment.ofRoot root).types.filter (fun t => !t.builtin) = es.map numberedEntry := by
      rw [htypes, List.filter_append, List.filter_eq_nil_iff.2 (by decide), List.nil_append]
      refine List.filter_eq_self.2 fun t ht => ?_
      obtain ⟨e, -, rfl⟩ := List.mem_map.1 ht
      rfl
    rw [hdeclared, List.map_map]
    exact List.pairwise_map.2 (h.ordered.imp Nat.ne_of_lt)
  · rw [htypes] at ht
    rcases List.mem_append.1 ht with ht | ht
    · obtain ⟨name, -, rfl⟩ := List.mem_map.1 ht
      exact absurd hbuiltin.symm Bool.false_ne_true
    · obtain ⟨e, he, rfl⟩ := List.mem_map.1 ht
      exact h.bounded e he

/-- **A name that stands for a type stands for it until the type's scope is left.**  A walk of any statements that starts
from the scope of a session, with any type files loaded, keeps acts of which the following holds.  After any of them, no
two types in the open frames have the same name, the built-in names are declared in the root frame only and still as the
built-in types, and no two types that are declared have the same number.  And if no frame that was open after some of them
is left by the acts that follow, then every name that was resolved means the same after those, and every union that fitted
another one fits it still. -/
theorem walk_keeps_types (options : Options) (files : List SourceFile) (packages : Option PackageCache) (limit : Nat)
    (statements : List Statement) :
    let start : CheckState := { environment := .ofRoot ((Session.ofOptions options).loadAll files).root, packages }
    let behind : CheckState := (walkStatements limit statements start).2
    let acts : List Act := behind.course.reverse
    start.after acts = behind ∧
    (∀ before, before <+: acts →
      let env := (start.after before).environment
      (env.types.map TypeEntry.name).Nodup ∧
      (∀ name ∈ builtinTypes,
        env.root.findType? name = some (.ofBuiltin name) ∧ ∀ f ∈ env.inner, f.findType? name = none) ∧
      ((env.types.filter fun t => !t.builtin).map TypeEntry.order).Nodup) ∧
    ∀ before between, before ++ between <+: acts →
      (∀ part, part <+: between →
        (start.after before).environment.depth ≤ (start.after (before ++ part)).environment.depth) →
      let env := (start.after before).environment
      let env' := (start.after (before ++ between)).environment
      (∀ name t, env.findType? name = some t → env'.findType? name = some t) ∧
        ∀ actual expected, env.fits actual expected = true → env'.fits actual expected = true := by
  intro start behind acts
  have hfresh : Lists (.ofRoot (Session.ofOptions options).root) [] := lists_builtin
  obtain ⟨es, hes, -⟩ := Session.lists_loadAll files hfresh
  have hstart : start.environment.Sound := sound_ofRoot hes
  obtain ⟨acts', hacts, hadmissible⟩ := (proceeds_walk limit).walkStatements statements start
  have hcourse : acts = acts' := hacts.course_eq rfl
  clear_value acts
  subst hcourse
  have hsound {before : List Act} (hbefore : before <+: acts) : (start.after before).environment.Sound := by
    obtain ⟨rest, rfl⟩ := hbefore
    exact sound_after hstart (Act.allAdmissible_append.1 hadmissible).1
  refine ⟨hacts.after_eq, fun before hbefore => ?_, fun before between hbetween hopen => ?_⟩
  · have h := hsound hbefore
    exact ⟨h.names, fun name => h.findType?_builtin, h.numbers⟩
  · have hresolves : (start.after before).environment.ResolvesIn (start.after (before ++ between)).environment := by
      refine StandsOn.resolvesIn ?_ (hsound ((List.prefix_append _ _).trans hbetween)) (hsound hbetween)
      obtain ⟨rest, rfl⟩ := hbetween
      have hadmissible := Act.allAdmissible_append.1 (Act.allAdmissible_append.1 hadmissible).1
      rw [CheckState.after_append]
      refine standsOn_after (.refl _) hadmissible.2 fun part hpart => ?_
      have hdepth := hopen part hpart
      rwa [CheckState.after_append, Environment.depth_eq] at hdepth
    exact ⟨hresolves, fun _ _ => hresolves.still_fits⟩

end Check
end UnionScript
