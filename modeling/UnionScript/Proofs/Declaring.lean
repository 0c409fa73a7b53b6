import UnionScript.Check.Annotated
import UnionScript.Proofs.Alike
import UnionScript.Proofs.Balance
import UnionScript.Proofs.Declarations
/-!
# Declaring — types declared one after the other

Types are declared without a report exactly where each name is free when its turn comes and all that the type is made of
can be resolved behind it (`Admits`), and then nothing else happens than that they are declared (`declareAll_of_admits`,
`admits_of_declareAll`).  Alike types are admitted alike (`admits_alike`).  A walk of bare declarations does no more than
that (`walkStatements_bare`).
-/
namespace UnionScript

/-! ## Scopes -/

namespace Environment

theorem findType?_declareType (env : Environment) (t : TypeEntry) (name : String) :
    (env.declareType t).findType? name =
      if t.name = name then some { t with order := env.nextOrder } else env.findType? name := by
  have hput (f : Frame) : (f.putType { t with order := env.nextOrder }).findType? name =
      if t.name = name then some { t with order := env.nextOrder } else f.findType? name := Frame.find?_put ..
  have hframes : ∃ f rest, env.frames = f :: rest ∧
      (env.declareType t).frames = f.putType { t with order := env.nextOrder } :: rest := by
    obtain ⟨inner, root, next⟩ := env
    cases inner with
    | nil => exact ⟨root, [], rfl, rfl⟩
    | cons f inner => exact ⟨f, inner ++ [root], rfl, rfl⟩
  obtain ⟨f, rest, hbefore, hbehind⟩ := hframes
  rw [findType?, findType?, hbefore, hbehind, List.findSome?_cons, List.findSome?_cons, hput]
  by_cases h : t.name = name
  · rw [if_pos h, if_pos h]
  · rw [if_neg h, if_neg h]

end Environment

namespace Check

variable {s : CheckState} {env env' : Environment} {d d' : TypeDeclaration}

/-- Whether all that a type is made of can be resolved. -/
structure Resolves (env : Environment) (d : TypeDeclaration) : Prop where
  types : ∀ m ∈ d.types.alternatives, env.isDefined m
  attributes : ∀ a ∈ d.attributes, ∀ m ∈ a.types.alternatives, env.isDefined m

/-- The scopes in which some types are declared. -/
def declared (env : Environment) (ds : List TypeDeclaration) : Environment :=
  ds.foldl (fun env d => env.declareType (entryOf d)) env

/-- Types are declared in the frames that are open. -/
theorem inner_declared : ∀ {ds : List TypeDeclaration} {env : Environment}, env.inner = [] →
    (declared env ds).inner = []
  | [], _, h => h
  | d :: ds, ⟨inner, root, next⟩, h => by
    obtain rfl : inner = [] := h
    show (declared (Environment.declareType ⟨[], root, next⟩ (entryOf d)) ds).inner = []
    exact inner_declared rfl

/-- Whether some types can be declared without a report. -/
def Admits (env : Environment) : List TypeDeclaration → Prop
  | [] => True
  | d :: ds => env.findType? d.name = none ∧ Resolves (env.declareType (entryOf d)) d ∧
      Admits (env.declareType (entryOf d)) ds

/-! ## What is reported -/

theorem length_reports_le {limit : Nat} {x : Extent} {α : Type} {step : Check α} (h : Does limit x step)
    (s : CheckState) : s.reports.length ≤ (step s).2.reports.length := by
  have hprefix := (CheckState.Continues.ofEffect (h s)).reports.length_le
  rwa [List.length_reverse, List.length_reverse] at hprefix

theorem requireDefined_of_defined {types : Union} (h : ∀ m ∈ types.alternatives, s.environment.isDefined m)
    (span : Span) : ∃ course, (requireDefined types span s).2 = { s with course } := by
  have hnone : types.alternatives.filter (fun m => !s.environment.isDefined m) = [] :=
    List.filter_eq_nil_iff.2 fun m hm => by rw [h m hm]; decide
  unfold requireDefined
  rw [hnone]
  exact ⟨_, rfl⟩

theorem defined_of_requireDefined {types : Union} {span : Span}
    (h : (requireDefined types span s).2.reports.length = s.reports.length) :
    ∀ m ∈ types.alternatives, s.environment.isDefined m := by
  intro m hm
  have h : (((types.alternatives.filter fun t => !s.environment.isDefined t).map fun t =>
      (⟨.typeUndefined t.name, span⟩ : Report)).reverse ++ s.reports).length = s.reports.length := h
  rw [List.length_append, List.length_reverse, List.length_map] at h
  have hnone : types.alternatives.filter (fun m => !s.environment.isDefined m) = [] :=
    List.length_eq_zero_iff.1 (by omega)
  simpa using List.filter_eq_nil_iff.1 hnone m hm

theorem requireAttributes_of_defined : ∀ {attributes : List TypedName} {s : CheckState},
    (∀ a ∈ attributes, ∀ m ∈ a.types.alternatives, s.environment.isDefined m) →
      ∃ course, (requireAttributes attributes s).2 = { s with course }
  | [], s, _ => ⟨s.course, rfl⟩
  | a :: rest, s, h => by
    obtain ⟨course, hfirst⟩ := requireDefined_of_defined (h a List.mem_cons_self) a.span
    have hrest := requireAttributes_of_defined (s := { s with course }) fun b hb => h b (List.mem_cons_of_mem a hb)
    show ∃ course, (requireAttributes rest (requireDefined a.types a.span s).2).2 = { s with course }
    rwa [hfirst]

theorem defined_of_requireAttributes : ∀ {attributes : List TypedName} {s : CheckState},
    (requireAttributes attributes s).2.reports.length = s.reports.length →
    ∀ a ∈ attributes, ∀ m ∈ a.types.alternatives, s.environment.isDefined m
  | [], _, _ => nofun
  | a :: rest, s, h => by
    have hfirst := length_reports_le (does_requireDefined a.types a.span : Does 0 .statement _) s
    have hrest := length_reports_le (does_requireAttributes rest : Does 0 .statement _)
      (requireDefined a.types a.span s).2
    have h : (requireAttributes rest (requireDefined a.types a.span s).2).2.reports.length = s.reports.length := h
    have hdefined := defined_of_requireDefined (Nat.le_antisymm (by omega) hfirst)
    refine List.forall_mem_cons.2 ⟨hdefined, ?_⟩
    obtain ⟨course, hfirst⟩ := requireDefined_of_defined hdefined a.span
    rw [hfirst] at h
    exact defined_of_requireAttributes (s := { s with course }) h

/-! ## What is declared -/

theorem declareType_eq (d : TypeDeclaration) (s : CheckState) :
    declareType d s = (match s.environment.findType? d.name with
      | some existing =>
        report (if existing.builtin then .builtinTypeRedefined d.name else .typeDefinedTwice d.name) d.span
      | none => do
        change (.type (entryOf d))
        let _ ← requireDefined d.types d.span
        requireAttributes d.attributes : Check Unit) s := rfl

/-- The step that declares a type whose name is free. -/
theorem declareType_of_free (h : s.environment.findType? d.name = none) :
    declareType d s = (do
      let _ ← requireDefined d.types d.span
      requireAttributes d.attributes) (change (.type (entryOf d)) s).2 := by
  rw [declareType_eq, h]
  rfl

theorem environment_requireAttributes : ∀ (attributes : List TypedName) (s : CheckState),
    (requireAttributes attributes s).2.environment = s.environment
  | [], _ => rfl
  | _ :: rest, s => environment_requireAttributes rest (requireDefined _ _ s).2

/-- A declaration changes the scopes by its type or not at all. -/
theorem environment_declareType (d : TypeDeclaration) (s : CheckState) :
    (declareType d s).2.environment = s.environment ∨
      (declareType d s).2.environment = s.environment.declareType (entryOf d) := by
  cases hfound : s.environment.findType? d.name with
  | some existing =>
    rw [declareType_eq, hfound]
    exact .inl rfl
  | none =>
    rw [declareType_of_free hfound]
    exact .inr (environment_requireAttributes d.attributes (requireDefined d.types d.span _).2)

theorem declareType_of_resolves (hfree : s.environment.findType? d.name = none)
    (h : Resolves (s.environment.declareType (entryOf d)) d) :
    ∃ course, (declareType d s).2 = { (change (.type (entryOf d)) s).2 with course } := by
  let t := (change (.type (entryOf d)) s).2
  obtain ⟨course, htypes⟩ := requireDefined_of_defined (s := t) h.types d.span
  have hattributes := requireAttributes_of_defined (s := { t with course }) h.attributes
  rw [declareType_of_free hfree]
  show ∃ course, (requireAttributes d.attributes (requireDefined d.types d.span t).2).2 = { t with course }
  rwa [htypes]

theorem resolves_of_declareType (h : (declareType d s).2.reports.length = s.reports.length) :
    s.environment.findType? d.name = none ∧ Resolves (s.environment.declareType (entryOf d)) d := by
  cases hfree : s.environment.findType? d.name with
  | some existing =>
    have hreport : (declareType d s).2.reports.length = s.reports.length + 1 := by
      rw [declareType_eq, hfree]
      rfl
    omega
  | none =>
    rw [declareType_of_free hfree] at h
    let t := (change (.type (entryOf d)) s).2
    have h : (requireAttributes d.attributes (requireDefined d.types d.span t).2).2.reports.length = t.reports.length := h
    have hfirst := length_reports_le (does_requireDefined d.types d.span : Does 0 .statement _) t
    have hrest := length_reports_le (does_requireAttributes d.attributes : Does 0 .statement _)
      (requireDefined d.types d.span t).2
    have htypes := defined_of_requireDefined (Nat.le_antisymm (by omega) hfirst)
    obtain ⟨course, hsame⟩ := requireDefined_of_defined htypes d.span
    rw [hsame] at h
    exact ⟨rfl, htypes, defined_of_requireAttributes (s := { t with course }) h⟩

/-- Declares types one after the other. -/
abbrev declareAll (ds : List TypeDeclaration) : Check Unit := ds.forM declareType

theorem declareAll_cons (d : TypeDeclaration) (ds : List TypeDeclaration) (s : CheckState) :
    (declareAll (d :: ds) s).2 = (declareAll ds (declareType d s).2).2 := rfl

theorem declareAll_of_admits : ∀ {ds : List TypeDeclaration} {s : CheckState}, Admits s.environment ds →
    ∃ events course, (declareAll ds s).2 = { s with environment := declared s.environment ds, events, course }
  | [], s, _ => ⟨s.events, s.course, rfl⟩
  | d :: ds, s, ⟨hfree, hresolves, hrest⟩ => by
    obtain ⟨course, hfirst⟩ := declareType_of_resolves hfree hresolves
    rw [declareAll_cons, hfirst]
    exact declareAll_of_admits (s := { (change (.type (entryOf d)) s).2 with course }) hrest

theorem does_declareAll : ∀ ds : List TypeDeclaration, Does 0 .statement (declareAll ds)
  | [] => does_pure _
  | d :: ds => does_bind (does_declareType d) fun _ => does_declareAll ds

/-- **Types that are declared without a report are admitted.** -/
theorem admits_of_declareAll : ∀ {ds : List TypeDeclaration} {s : CheckState},
    (declareAll ds s).2.reports.length = s.reports.length → Admits s.environment ds
  | [], _, _ => trivial
  | d :: ds, s, h => by
    rw [declareAll_cons] at h
    have hfirst := length_reports_le (does_declareType d : Does 0 .statement _) s
    have hrest := length_reports_le (does_declareAll ds) (declareType d s).2
    obtain ⟨hfree, hresolves⟩ := resolves_of_declareType (Nat.le_antisymm (by omega) hfirst)
    obtain ⟨course, hsame⟩ := declareType_of_resolves hfree hresolves
    rw [hsame] at h
    exact ⟨hfree, hresolves, admits_of_declareAll (s := { (change (.type (entryOf d)) s).2 with course }) h⟩

/-- **Bare declarations are walked by declaring their types.** -/
theorem walkStatements_bare (limit : Nat) : ∀ {statements : List Statement},
    (∀ st ∈ statements, st.IsBareDeclaration) →
    walkStatements limit statements = declareAll (Program.typeDeclarations ⟨statements⟩)
  | [], _ => rfl
  | st :: rest, h => by
    have ih := walkStatements_bare limit fun st hst => h st (List.mem_cons_of_mem _ hst)
    have hst := h st List.mem_cons_self
    rw [walkStatements, ih]
    cases st with
    | typeDeclaration d => rfl
    | comment text roxygen span => rfl
    | _ => exact hst.elim

theorem walkStatements_append (limit : Nat) : ∀ (statements behind : List Statement) (s : CheckState),
    (walkStatements limit (statements ++ behind) s).2 =
      (walkStatements limit behind (walkStatements limit statements s).2).2
  | [], _, _ => rfl
  | st :: statements, behind, s => by
    rw [List.cons_append, walkStatements, walkStatements]
    exact walkStatements_append limit statements behind (walkStatement limit st s).2

theorem declareTypes_of_admits {program : Program} {env : Environment} (h : Admits env program.typeDeclarations) :
    (program.declareTypes env).reports = [] ∧
      (program.declareTypes env).environment = declared env program.typeDeclarations := by
  let s : CheckState := { environment := env }
  have hadmits : Admits s.environment program.typeDeclarations := h
  obtain ⟨events, course, hs⟩ := declareAll_of_admits hadmits
  show (declareAll program.typeDeclarations s).2.reports.reverse = [] ∧
    (declareAll program.typeDeclarations s).2.environment = _
  rw [hs]
  exact ⟨rfl, rfl⟩

/-! ## Alike types -/

/-- Declarations of alike types. -/
def AlikeDeclarations : List TypeDeclaration → List TypeDeclaration → Prop :=
  List.Forall₂ fun d d' => (entryOf d).Alike (entryOf d')

theorem resolves_alike (henv : env.Alike env') (hd : (entryOf d).Alike (entryOf d'))
    (hself : env.findType? d.name ≠ none) (h : Resolves env d) : Resolves env' d' := by
  have hdefined (m : TypeName) : env'.isDefined m = env.isDefined m := (henv.isDefined m).symm
  constructor
  · intro m hm
    rw [hdefined]
    rcases hd.members_symm m hm with hm | ⟨hm, -⟩
    · exact h.types m hm
    · have hname : m.name = d.name := by
        rw [TypeEntry.isItself, Bool.and_eq_true, Bool.and_eq_true] at hm
        exact (beq_iff_eq.1 hm.1.1).trans hd.name.symm
      rw [Environment.isDefined, hname, Option.isSome_iff_ne_none.2 hself, Bool.or_true]
  · intro a ha m hm
    have hmem : (a.name, a.types) ∈ d.attributes.map fun a => (a.name, a.types) := by
      have hsame : d.attributes.map (fun a => (a.name, a.types)) = d'.attributes.map fun a => (a.name, a.types) :=
        hd.attributes
      rw [hsame]
      exact List.mem_map_of_mem ha
    obtain ⟨b, hb, hsame⟩ := List.mem_map.1 hmem
    rw [hdefined]
    exact h.attributes b hb m ((Prod.mk.inj hsame).2 ▸ hm)

/-- **Alike types are admitted alike, and then declared alike.** -/
theorem admits_alike {ds ds' : List TypeDeclaration} (hds : AlikeDeclarations ds ds') :
    ∀ {env env' : Environment}, env.Alike env' → Admits env ds →
      Admits env' ds' ∧ (declared env ds).Alike (declared env' ds') := by
  induction hds with
  | nil => exact fun henv _ => ⟨trivial, henv⟩
  | @cons d d' ds ds' hd _ ih =>
    rintro env env' henv ⟨hfree, hresolves, hrest⟩
    have hdeclared : (env.declareType (entryOf d)).Alike (env'.declareType (entryOf d')) := henv.declareType hd
    have hfree' : env'.findType? d'.name = none := by
      have hrel := henv.findType? d.name
      have hname : d.name = d'.name := hd.name
      rw [hfree, hname] at hrel
      cases hfound : env'.findType? d'.name with
      | none => rfl
      | some t =>
        rw [hfound] at hrel
        exact nomatch hrel
    have hself : (env.declareType (entryOf d)).findType? d.name ≠ none := by
      rw [Environment.findType?_declareType, if_pos (show (entryOf d).name = d.name from rfl)]
      nofun
    obtain ⟨hadmits, halike⟩ := ih hdeclared hrest
    exact ⟨⟨hfree', resolves_alike hdeclared hd hself hresolves, hadmits⟩, halike⟩

/-- Nothing that is admitted has a name that is known. -/
theorem name_ne_of_admits {name : String} : ∀ {ds : List TypeDeclaration} {env : Environment}, Admits env ds →
    env.findType? name ≠ none → ∀ d ∈ ds, d.name ≠ name
  | [], _, _, _ => nofun
  | d :: ds, env, ⟨hfree, _, hrest⟩, hknown => by
    have hname : d.name ≠ name := fun e => hknown (e ▸ hfree)
    refine List.forall_mem_cons.2 ⟨hname, name_ne_of_admits hrest ?_⟩
    rw [Environment.findType?_declareType, if_neg (show (entryOf d).name ≠ name from hname)]
    exact hknown

end Check
end UnionScript
