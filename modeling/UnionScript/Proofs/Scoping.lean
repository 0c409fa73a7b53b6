import UnionScript.Proofs.Standing
/-!
# Scoping — unions that mention only what is in scope

A union in a frame may mention the types that are declared in that frame or in one below it, and types of packages
(`Environment.WellScoped`).  Opening and leaving frames keeps this, and so does a declaration whose own unions mention
only what is in scope where it is made; so it holds along a walk as soon as this is known of every declaration in it
(`Act.WellScoped`).
-/
namespace UnionScript

/-! ## Unions in scope -/

/-- An alternative of a package, or one that names one of some types. -/
def TypeName.KnownAmong (types : List TypeEntry) (a : TypeName) : Prop :=
  a.package.isSome = true ∨ ∃ t ∈ types, t.name = a.name

/-- A union that mentions only some types. -/
def Union.KnownAmong (types : List TypeEntry) (u : Union) : Prop := ∀ a ∈ u.alternatives, a.KnownAmong types

/-- A union with at least one alternative, none of them twice, that mentions only some types. -/
structure Union.SoundAmong (types : List TypeEntry) (u : Union) : Prop where
  nonempty : u.alternatives ≠ []
  distinct : u.alternatives.Nodup
  known : u.KnownAmong types

theorem TypeName.KnownAmong.mono {types types' : List TypeEntry} (h : ∀ t ∈ types, ∃ t' ∈ types', t'.name = t.name)
    {a : TypeName} : a.KnownAmong types → a.KnownAmong types'
  | .inl hpackage => .inl hpackage
  | .inr ⟨t, ht, hname⟩ =>
    let ⟨t', ht', hname'⟩ := h t ht
    .inr ⟨t', ht', hname'.trans hname⟩

namespace Union

variable {types types' : List TypeEntry} {u v : Union}

theorem SoundAmong.mono (h : ∀ t ∈ types, ∃ t' ∈ types', t'.name = t.name) (hu : u.SoundAmong types) :
    u.SoundAmong types' :=
  ⟨hu.nonempty, hu.distinct, fun a ha => (hu.known a ha).mono h⟩

/-- A union that is not empty is sound as soon as its alternatives are known. -/
theorem soundAmong_of_known (hsome : u.isEmpty = false) (hknown : u.KnownAmong types) :
    u.SoundAmong types :=
  ⟨List.isEmpty_eq_false_iff.1 hsome, u.distinct, hknown⟩

theorem soundAmong_named {name : String} (h : ∃ t ∈ types, t.name = name) : (named name).SoundAmong types :=
  soundAmong_of_known rfl fun a ha => by
    obtain rfl := List.mem_singleton.1 ha
    exact .inr h

end Union

/-! ## Frames -/

/-- The unions of a function's parameters and of what it returns. -/
def FunctionSignature.unions (g : FunctionSignature) : List Union :=
  g.parameters.map ParameterSignature.types ++ g.returnTypes.toList

/-- The union a type is made of, and those of its attributes. -/
def TypeEntry.unions (t : TypeEntry) : List Union := t.types :: t.attributes.map TypedName.types

/-- Every union that a frame holds. -/
def Frame.unions (f : Frame) : List Union :=
  f.bindings.map Variable.types ++ f.functions.flatMap FunctionSignature.unions ++ f.types.flatMap TypeEntry.unions

theorem Frame.mem_unions {f : Frame} {u : Union} : u ∈ f.unions ↔
    (∃ v ∈ f.bindings, v.types = u) ∨ (∃ g ∈ f.functions, u ∈ g.unions) ∨ ∃ t ∈ f.types, u ∈ t.unions := by
  simp [Frame.unions]

theorem Frame.mem_put {α : Type} {nameOf : α → String} {a b : α} {entries : List α} (h : b ∈ put nameOf a entries) :
    b = a ∨ b ∈ entries := by
  rcases List.mem_append.1 h with h | h
  · exact .inr (List.mem_filter.1 h).1
  · exact .inl (List.mem_singleton.1 h)

/-- An entry may take the place of another one, under the same name. -/
theorem Frame.exists_mem_put {α : Type} (nameOf : α → String) (a : α) {entries : List α} {b : α} (hb : b ∈ entries) :
    ∃ c ∈ put nameOf a entries, nameOf c = nameOf b := by
  by_cases hname : nameOf b = nameOf a
  · exact ⟨a, List.mem_append_right _ (List.mem_singleton_self a), hname.symm⟩
  · exact ⟨b, List.mem_append_left _ (List.mem_filter.2 ⟨hb, by simpa using hname⟩), rfl⟩

namespace Environment

variable {env : Environment}

/-- Every union that a frame holds mentions only the types of that frame and of those below it. -/
def HoldsSound (env : Environment) : Prop :=
  ∀ f below, f :: below <:+ env.frames → ∀ u ∈ f.unions, u.SoundAmong ((f :: below).flatMap Frame.types)

/-- What an environment is whose unions mention only what is in scope; the built-in types always are. -/
structure WellScoped (env : Environment) : Prop where
  unions : env.HoldsSound
  builtin : ∀ name ∈ builtinTypes, ∃ t ∈ env.root.types, t.name = name

namespace WellScoped

theorem builtin_known (h : env.WellScoped) {name : String} (hname : name ∈ builtinTypes) :
    ∃ t ∈ env.types, t.name = name := by
  obtain ⟨t, ht, htname⟩ := h.builtin name hname
  exact ⟨t, List.mem_flatMap.2 ⟨env.root, List.mem_append_right _ (List.mem_singleton_self _), ht⟩, htname⟩

/-- What an open frame holds is in scope at the place the environment is about. -/
theorem soundAmong (h : env.WellScoped) {f : Frame} (hf : f ∈ env.frames) {u : Union} (hu : u ∈ f.unions) :
    u.SoundAmong env.types := by
  obtain ⟨above, below, hframes⟩ := List.append_of_mem hf
  refine (h.unions f below ⟨above, hframes.symm⟩ u hu).mono fun t ht => ⟨t, ?_, rfl⟩
  rw [types, hframes, List.flatMap_append]
  exact List.mem_append_right _ ht

/-! ### Changes -/

theorem push (h : env.WellScoped) (kind : FrameKind) : (env.push kind).WellScoped where
  unions f below hsuffix u hu := by
    rcases List.suffix_cons_iff.1 hsuffix with hnew | hold
    · cases hnew
      exact absurd hu List.not_mem_nil
    · exact h.unions f below hold u hu
  builtin := h.builtin

theorem pop (h : env.WellScoped) : env.pop.WellScoped where
  unions f below hsuffix := by
    refine h.unions f below (hsuffix.trans ?_)
    obtain ⟨inner, root, next⟩ := env
    cases inner with
    | nil => exact List.suffix_rfl
    | cons g inner => exact List.suffix_cons g _
  builtin := h.builtin

/-- The innermost frame may gain unions that mention only what is in scope then. -/
theorem modifyCurrent (h : env.WellScoped) {f : Frame → Frame}
    (htypes : ∀ t ∈ env.current.types, ∃ t' ∈ (f env.current).types, t'.name = t.name)
    (hunions : ∀ u ∈ (f env.current).unions, u ∈ env.current.unions ∨ u.SoundAmong (env.modifyCurrent f).types) :
    (env.modifyCurrent f).WellScoped where
  unions g below hsuffix u hu := by
    rw [frames_modifyCurrent] at hsuffix
    rcases List.suffix_cons_iff.1 hsuffix with hnew | hold
    · obtain ⟨rfl, rfl⟩ := List.cons.inj hnew
      rcases hunions u hu with hu | hu
      · have hcurrent : env.current ∈ env.frames := env.frames_eq ▸ List.mem_cons_self
        refine (h.soundAmong hcurrent hu).mono fun t ht => ?_
        rw [types_eq] at ht
        rcases List.mem_append.1 ht with ht | ht
        · obtain ⟨t', ht', hname⟩ := htypes t ht
          exact ⟨t', List.mem_append_left _ ht', hname⟩
        · exact ⟨t, List.mem_append_right _ ht, rfl⟩
      · rwa [types_modifyCurrent] at hu
    · have hbelow : g :: below <:+ env.frames := env.frames_eq ▸ hold.trans (List.suffix_cons _ _)
      exact h.unions g below hbelow u hu
  builtin name hname := by
    obtain ⟨inner, root, next⟩ := env
    obtain ⟨t, ht, htname⟩ := h.builtin name hname
    cases inner with
    | nil =>
      obtain ⟨t', ht', hname'⟩ := htypes t ht
      exact ⟨t', ht', hname'.trans htname⟩
    | cons g inner => exact ⟨t, ht, htname⟩

theorem declareVariable (h : env.WellScoped) {v : Variable} (hv : v.types.SoundAmong env.types) :
    (env.declareVariable v).WellScoped := by
  have htypes := env.types_modifyCurrent_eq (f := fun f => f.putVariable v) rfl
  refine h.modifyCurrent (fun t ht => ⟨t, ht, rfl⟩) fun u hu => ?_
  rcases Frame.mem_unions.1 hu with ⟨w, hw, rfl⟩ | hrest
  · rcases Frame.mem_put hw with rfl | hw
    · exact .inr (htypes ▸ hv)
    · exact .inl (Frame.mem_unions.2 (.inl ⟨w, hw, rfl⟩))
  · exact .inl (Frame.mem_unions.2 (.inr hrest))

theorem declareFunction (h : env.WellScoped) {g : FunctionSignature} (hg : ∀ u ∈ g.unions, u.SoundAmong env.types) :
    (env.declareFunction g).WellScoped := by
  have htypes := env.types_modifyCurrent_eq (f := fun f => f.putFunction g) rfl
  refine h.modifyCurrent (fun t ht => ⟨t, ht, rfl⟩) fun u hu => ?_
  rcases Frame.mem_unions.1 hu with hvariable | ⟨k, hk, huk⟩ | htype
  · exact .inl (Frame.mem_unions.2 (.inl hvariable))
  · rcases Frame.mem_put hk with rfl | hk
    · exact .inr (htypes ▸ hg u huk)
    · exact .inl (Frame.mem_unions.2 (.inr (.inl ⟨k, hk, huk⟩)))
  · exact .inl (Frame.mem_unions.2 (.inr (.inr htype)))

/-- A type may mention itself: what its unions mention must be in scope once it is declared. -/
theorem declareType (h : env.WellScoped) {t : TypeEntry} (ht : ∀ u ∈ t.unions, u.SoundAmong (env.declareType t).types) :
    (env.declareType t).WellScoped := by
  have hmodified := h.modifyCurrent (f := fun f => f.putType { t with order := env.nextOrder })
    (fun u hu => Frame.exists_mem_put TypeEntry.name _ hu) fun u hu => by
      rcases Frame.mem_unions.1 hu with hvariable | hfunction | ⟨k, hk, huk⟩
      · exact .inl (Frame.mem_unions.2 (.inl hvariable))
      · exact .inl (Frame.mem_unions.2 (.inr (.inl hfunction)))
      · rcases Frame.mem_put hk with rfl | hk
        · exact .inr (ht u huk)
        · exact .inl (Frame.mem_unions.2 (.inr (.inr ⟨k, hk, huk⟩)))
  exact ⟨hmodified.unions, hmodified.builtin⟩

end WellScoped

/-- What can be resolved is in scope. -/
theorem isDefined_iff {a : TypeName} : env.isDefined a = true ↔ a.KnownAmong env.types := by
  unfold isDefined TypeName.KnownAmong
  rw [findType?_eq_find?, Bool.or_eq_true, List.find?_isSome]
  simp

end Environment

/-! ## Acts -/

/-- What is filed by an act mentions only what is in scope where it is performed, and the scopes behind it are well. -/
def Act.Keeps (s : CheckState) (a : Act) : Prop :=
  (∀ step span types, a = .file step span types → types.SoundAmong s.environment.types) ∧
    (a.apply s).environment.WellScoped

/-- Acts each of which keeps the scopes well. -/
def Act.AllKeep (s : CheckState) : List Act → Prop
  | [] => True
  | a :: acts => a.Keeps s ∧ AllKeep (a.apply s) acts

theorem Act.allKeep_append : ∀ {acts more : List Act} {s : CheckState},
    AllKeep s (acts ++ more) ↔ AllKeep s acts ∧ AllKeep (s.after acts) more
  | [], _, _ => ⟨fun h => ⟨trivial, h⟩, And.right⟩
  | a :: acts, more, s => by
    rw [List.cons_append, AllKeep, AllKeep, allKeep_append, and_assoc]
    rfl

theorem Act.AllKeep.wellScoped : ∀ {acts : List Act} {s : CheckState}, AllKeep s acts → s.environment.WellScoped →
    (s.after acts).environment.WellScoped
  | [], _, _, h => h
  | a :: acts, s, ⟨ha, hacts⟩, _ => by
    show ((a.apply s).after acts).environment.WellScoped
    exact AllKeep.wellScoped hacts ha.2

/-- An act that is neither a change nor files a type keeps everything. -/
def Act.Asks : Act → Prop
  | .change _ | .file _ _ _ => False
  | _ => True

theorem Act.Asks.keeps {s : CheckState} {a : Act} (ha : a.Asks) (h : s.environment.WellScoped) : a.Keeps s := by
  refine ⟨fun step span types hfile => ?_, ?_⟩
  · subst hfile
    exact ha.elim
  · rcases a.environment_apply s with hsame | ⟨c, rfl, -⟩
    · rwa [hsame]
    · exact ha.elim

end UnionScript
