import UnionScript.Proofs.Integrity
import UnionScript.Proofs.Returning
/-!
# Reference — the unions of a walk, place by place

A walk that reports nothing fatal keeps every union it meets within scope: those that the open frames hold after each of
its acts, and those that it infers, where it files them.  An expression is walked where it stands, inside the frames that
are open there, so the union that is inferred for it mentions only types of these frames (`walk_keeps_scopes`).
-/
namespace UnionScript

/-! ## Places -/

def Node.Annotated : Node → Prop
  | .expression _ e => e.Annotated
  | .statement s => s.Annotated

/-- Where no union is empty in the whole, none is in a part. -/
theorem Node.Part.annotated {n m : Node} {opened : Option Enclosure} (h : n.Part opened m) (hn : n.Annotated) :
    m.Annotated := by
  cases h with
  | element h => exact annotatedElements_iff.1 hn _ h
  | operand => exact hn
  | left => exact hn.1
  | right => exact hn.2
  | branchCondition => exact hn.1
  | consequence h => exact Block.annotated_iff.1 hn.2.1 _ h
  | alternative h => exact Block.annotated_iff.1 hn.2.2 _ h
  | iterable => exact hn.2.1
  | forBody h => exact Block.annotated_iff.1 hn.2.2 _ h
  | loopCondition => exact hn.1
  | whileBody h => exact Block.annotated_iff.1 hn.2 _ h
  | repeatBody h => exact Block.annotated_iff.1 hn _ h
  | default h hdefault =>
    obtain ⟨-, hparameters, -⟩ := FunctionLiteral.annotated_iff.1 hn
    exact (annotatedParameters_iff.1 hparameters _ h).2 _ hdefault
  | functionBody h =>
    obtain ⟨-, -, -, hbody⟩ := FunctionLiteral.annotated_iff.1 hn
    exact Block.annotated_iff.1 hbody _ h
  | callee => exact hn.1
  | argument h => exact annotatedArguments_iff.1 hn.2 _ h
  | object => exact hn.1
  | position h => exact annotatedArguments_iff.1 hn.2 _ h
  | bound => exact hn.2
  | returned => exact hn
  | deferred => exact hn
  | inBlock h => exact Block.annotated_iff.1 hn _ h
  | expression => exact hn

theorem Stands.annotated {statements : List Statement} (hall : AnnotatedStatements statements) {around : List Enclosure}
    {n : Node} (h : Stands statements around n) : n.Annotated := by
  induction h with
  | among h => exact annotatedStatements_iff.1 hall _ h
  | within _ hpart ih => exact hpart.annotated ih

/-! ## The scopes of sessions -/

/-- A frame that holds the built-in types, and no union that is empty. -/
structure Frame.Founded (f : Frame) : Prop where
  nonempty : ∀ u ∈ f.unions, u.isEmpty = false
  builtin : ∀ name ∈ builtinTypes, ∃ t ∈ f.types, t.name = name

theorem Frame.founded_builtin : Frame.builtin.Founded := ⟨by decide, by decide⟩

theorem Frame.Founded.putType {f : Frame} (h : f.Founded) {t : TypeEntry} (ht : ∀ u ∈ t.unions, u.isEmpty = false) :
    (f.putType t).Founded where
  nonempty u hu := by
    rcases Frame.mem_unions.1 hu with hvariable | hfunction | ⟨k, hk, huk⟩
    · exact h.nonempty u (Frame.mem_unions.2 (.inl hvariable))
    · exact h.nonempty u (Frame.mem_unions.2 (.inr (.inl hfunction)))
    · rcases Frame.mem_put hk with rfl | hk
      · exact ht u huk
      · exact h.nonempty u (Frame.mem_unions.2 (.inr (.inr ⟨k, hk, huk⟩)))
  builtin name hname := by
    obtain ⟨k, hk, hkname⟩ := h.builtin name hname
    obtain ⟨k', hk', hname'⟩ := Frame.exists_mem_put TypeEntry.name t hk
    exact ⟨k', hk', hname'.trans hkname⟩

theorem Environment.founded_declareType {env : Environment} (h : env.root.Founded) {t : TypeEntry}
    (ht : ∀ u ∈ t.unions, u.isEmpty = false) : (env.declareType t).root.Founded := by
  obtain ⟨_ | ⟨f, inner⟩, root, next⟩ := env
  · exact h.putType (t := { t with order := next }) ht
  · exact h

theorem Check.founded_declareAll : ∀ {ds : List TypeDeclaration} {s : CheckState}, s.environment.root.Founded →
    (∀ d ∈ ds, (Statement.typeDeclaration d).Annotated) → (declareAll ds s).2.environment.root.Founded
  | [], _, h, _ => h
  | d :: ds, s, h, hds => by
    obtain ⟨hd, hds⟩ := List.forall_mem_cons.1 hds
    rw [declareAll_cons]
    refine founded_declareAll ?_ hds
    rcases environment_declareType d s with hsame | hdeclared
    · rwa [hsame]
    · rw [hdeclared]
      exact Environment.founded_declareType h (List.forall_mem_cons.2 ⟨hd.1, List.forall_mem_map.2 hd.2⟩)

/-- Whatever is loaded, no union in the scope of a session is empty. -/
theorem Session.founded_loadAll : ∀ (files : List SourceFile) {session : Session}, session.root.Founded →
    (session.loadAll files).root.Founded
  | [], _, h => h
  | file :: files, session, h => by
    suffices hload : (session.load file).2.root.Founded from founded_loadAll files hload
    let reading := read session.options [file]
    have hread : AnnotatedStatements reading.program.statements := Parse.annotated_ofTokens _ _
    have hall : ∀ d ∈ reading.program.typeDeclarations, (Statement.typeDeclaration d).Annotated := fun d hd =>
      annotatedStatements_iff.1 hread _ (Program.mem_typeDeclarations.1 hd)
    let start : CheckState := { environment := .ofRoot session.root }
    have hstart : start.environment.root.Founded := h
    exact Check.founded_declareAll hstart hall

theorem Environment.wellScoped_ofRoot {root : Frame} (h : root.Founded)
    (hknown : ∀ u ∈ root.unions, u.KnownAmong root.types) : (Environment.ofRoot root).WellScoped where
  unions f below hsuffix u hu := by
    obtain ⟨rfl, rfl⟩ : f = root ∧ below = [] := by
      rcases List.suffix_cons_iff.1 hsuffix with heq | hnil
      · exact List.cons.inj heq
      · exact absurd (List.suffix_nil.1 hnil) (List.cons_ne_nil _ _)
    have hsound := Union.soundAmong_of_known (h.nonempty u hu) (hknown u hu)
    rwa [List.flatMap_singleton]
  builtin := h.builtin

namespace Check

variable {limit : Nat} {s : CheckState}

/-- What is clean reports no nesting. -/
theorem not_reportsNesting_of_clean (h : s.Clean) : ¬s.ReportsNesting := by
  rintro ⟨⟨finding, span⟩, hr, hnesting⟩
  cases finding with
  | nestingTooDeep => exact h _ hr rfl
  | _ => exact Bool.false_ne_true hnesting

/-- **An expression is given a union that is in scope where it is walked**, and files it there. -/
theorem infer_sound {step : Nat} {e : Expression} {mid : List Act} (hannotated : e.Annotated)
    (hscoped : s.environment.WellScoped) (hclean : (infer limit step e s).2.Clean)
    (hmid : Performs (infer limit step e) s mid) :
    (infer limit step e s).1.SoundAmong s.environment.types ∧
      ∃ inside, mid = .descend step :: (inside ++ [.file step e.span (infer limit step e s).1]) := by
  obtain ⟨_, _, hkeep⟩ := upholds_infer limit step e hannotated s.environment.types True s
  obtain ⟨inside, hinside⟩ := performs_infer limit step e (not_reportsNesting_of_clean hclean)
  exact ⟨(hkeep ⟨rfl, trivial⟩ hscoped hclean).2.2.2, inside, hmid.unique hinside⟩

/-- **Nothing mentions a type that is out of scope.**  A walk of any program that was read starts from the scope of a
session, with any type files loaded of which no type mentions one that is not there.  If it reports nothing fatal, then
after any of the acts that it has kept, every union that a frame holds, be it of a variable, of a function or of a type
and its attributes, is neither empty nor has an alternative twice, and its alternatives are types of packages or of that
frame and those below it.  The same is true of every union that is filed for an expression, with the frames that are open
when it is; and each node that stands in the program is walked inside the frames that are open around it, where an
expression is given a union that mentions only types of these, which it files under its span. -/
theorem walk_keeps_scopes (options : Options) (files : List SourceFile) (tokens : List Token) (depth : Nat)
    (packages : Option PackageCache) (limit : Nat) :
    let root := ((Session.ofOptions options).loadAll files).root
    let program := (ParsedProgram.ofTokens tokens depth).program
    (∀ u ∈ root.unions, u.KnownAmong root.types) →
    (∀ r ∈ (program.walk (.ofRoot root) packages limit).reports, r.finding.severity ≠ .fatal) →
      let start : CheckState := { environment := .ofRoot root, packages }
      let behind : CheckState := (walkStatements limit program.statements start).2
      let acts : List Act := behind.course.reverse
      start.after acts = behind ∧
      (∀ before, before <+: acts → (start.after before).environment.HoldsSound) ∧
      (∀ before step span types, before ++ [.file step span types] <+: acts →
        types.SoundAmong (start.after before).environment.types) ∧
      ∀ around n, Stands program.statements around n → ∃ pre mid post, acts = pre ++ (mid ++ post) ∧
        let here : CheckState := start.after pre
        here.IsAt (.ofRoot root) around ∧ here.environment.HoldsSound ∧ Performs (n.walk limit) here mid ∧
        ∀ step e, n = .expression step e →
          let types : Union := (infer limit step e here).1
          types.SoundAmong here.environment.types ∧
            ∃ inside, mid = .descend step :: (inside ++ [.file step e.span types]) := by
  intro root program hroot hfatal start behind acts
  have hfounded : root.Founded := Session.founded_loadAll files Frame.founded_builtin
  have hstart : start.environment.WellScoped := Environment.wellScoped_ofRoot hfounded hroot
  have hclean : behind.Clean := fun r hr => hfatal r (List.mem_reverse.2 hr)
  have hannotated : AnnotatedStatements program.statements := Parse.annotated_ofTokens tokens depth
  obtain ⟨acts', hacts, hkeep⟩ := upholds_walkStatements limit program.statements hannotated start
  have hcourse : acts = acts' := hacts.course_eq rfl
  clear_value acts
  subst hcourse
  obtain ⟨hall, -⟩ := hkeep trivial hstart hclean
  have hscoped {before : List Act} (hbefore : before <+: acts) : (start.after before).environment.WellScoped := by
    obtain ⟨rest, rfl⟩ := hbefore
    exact (Act.allKeep_append.1 hall).1.wellScoped hstart
  refine ⟨hacts.after_eq, fun before hbefore => (hscoped hbefore).unions, ?_, fun around n hstands => ?_⟩
  · rintro before step span types ⟨rest, rfl⟩
    rw [List.append_assoc] at hall
    exact (Act.allKeep_append.1 hall).2.1.1 step span types rfl
  · obtain ⟨pre, mid, post, hwhole, hmid, hat⟩ :=
      comes_by hstands rfl (not_reportsNesting_of_clean hclean)
    obtain rfl : acts = pre ++ (mid ++ post) := hacts.unique hwhole
    have hhere := hscoped (List.prefix_append pre (mid ++ post))
    refine ⟨pre, mid, post, rfl, hat, hhere.unions, hmid, ?_⟩
    rintro step e rfl
    have hends : behind = (infer limit step e (start.after pre)).2.after post := hwhole.inside hmid
    have hnode : (infer limit step e (start.after pre)).2.Clean := fun r hr =>
      hclean r (hends ▸ CheckState.reports_subset_after post _ hr)
    exact infer_sound (hstands.annotated hannotated) hhere hnode hmid

/-- A type of a file, and a type inside a function that is made of it. -/
theorem walk_keeps_scopes_local :
    let file : SourceFile := ⟨"p.types", "type p: int"⟩
    let source : SourceFile := ⟨"m.vp", "func f(x: p): p \x7b\n type q: p | null\n let y: q = x\n return(x)\n\x7d"⟩
    let root := ((Session.ofOptions {}).loadAll [file]).root
    let tokens := (TokenStream.scan [source]).tokens
    let program := (ParsedProgram.ofTokens tokens 16).program
    (∀ u ∈ root.unions, u.KnownAmong root.types) ∧
    (∀ r ∈ (program.walk (.ofRoot root) none 16).reports, r.finding.severity ≠ .fatal) ∧
      let start : CheckState := { environment := .ofRoot root, packages := none }
      let acts : List Act := (walkStatements 16 program.statements start).2.course.reverse
      (∀ before, before <+: acts → (start.after before).environment.HoldsSound) ∧
        ∀ before step span types, before ++ [.file step span types] <+: acts →
          types.SoundAmong (start.after before).environment.types := by
  intro file source root tokens program
  have hknown : root.unions.all (fun u => u.alternatives.all fun a =>
      a.package.isSome || root.types.any fun t => t.name == a.name) = true := by
    subst root file
    cbv
  have hreports : (program.walk (.ofRoot root) none 16).reports.isEmpty = true := by
    subst program tokens source root file
    cbv
  have hroot : ∀ u ∈ root.unions, u.KnownAmong root.types := fun u hu a ha => by
    have hfound := List.all_eq_true.1 (List.all_eq_true.1 hknown u hu) a ha
    simpa [TypeName.KnownAmong] using hfound
  have hnone := List.isEmpty_iff.1 hreports
  have hclean : ∀ r ∈ (program.walk (.ofRoot root) none 16).reports, r.finding.severity ≠ .fatal := fun r hr =>
    absurd (hnone ▸ hr) List.not_mem_nil
  obtain ⟨-, hheld, hfiled, -⟩ := walk_keeps_scopes {} [file] tokens 16 none 16 hroot hclean
  exact ⟨hroot, hclean, hheld, hfiled⟩

end Check
end UnionScript
