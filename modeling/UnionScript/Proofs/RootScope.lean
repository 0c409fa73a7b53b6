import UnionScript.Proofs.Calls
/-!
# RootScope — what a program leaves in the root scope

Of the statements of a program only those at top level reach the root scope: its bindings and its type declarations.
What is walked inside of anything else opens frames that are closed again, and what is walked as an expression declares
functions only.  So behind a program the root scope holds the first binding and the first type declaration of each name,
in the order of the program (`Program.walk_root`); each further one is reported at its name and leaves the scopes alone.
-/
namespace UnionScript

/-- The variables the top-level bindings of a program declare, were each of them the first of its name. -/
def Program.variables (program : Program) : List Variable :=
  program.statements.filterMap fun
    | .binding constant target _ =>
      some { name := target.name, types := target.types, constant, span := target.span }
    | _ => none

namespace Check

variable {limit : Nat} {s : CheckState}

/-! ## Statements and variables -/

/-- The state behind the initial value of a binding. -/
def valued (limit : Nat) (value : Option Expression) (s : CheckState) : CheckState :=
  match value with
  | some e => (infer limit 1 e s).2
  | none => s

theorem walkStatement_binding (limit : Nat) (constant : Bool) (target : TypedName) (value : Option Expression) (s : CheckState) :
    ∃ actual, (walkStatement limit (.binding constant target value) s).2 =
      (declareBinding constant target actual (valued limit value s)).2 := by
  cases value with
  | none => exact ⟨none, by rw [walkStatement, valued]⟩
  | some e => exact ⟨some (infer limit 1 e s).1, by rw [walkStatement]; rfl⟩

theorem effect_valued (limit : Nat) (value : Option Expression) (s : CheckState) :
    Effect limit .expression s (valued limit value s) := by
  cases value with
  | none => exact .nothing s
  | some e => exact (does_closed limit).infer 1 e .expression s

theorem declareBinding_eq (constant : Bool) (target : TypedName) (actual : Option Union) (s : CheckState) :
    declareBinding constant target actual s = (match s.environment.findVariable? target.name with
      | some _ => report (.variableDeclaredTwice target.name) target.span
      | none => do
        let defined ← requireDefined target.types target.span
        match defined, actual with
        | true, some types => requireMatch types target.types target.span (.variable target.name)
        | _, _ => pure ()
        change (.variable { name := target.name, types := target.types, constant, span := target.span }) :
          Check Unit) s := rfl

/-- A binding of a free name declares its variable, whatever is reported of its types. -/
theorem environment_declareBinding {constant : Bool} {target : TypedName} {actual : Option Union}
    (hfree : s.environment.findVariable? target.name = none) :
    (declareBinding constant target actual s).2.environment = s.environment.declareVariable
      { name := target.name, types := target.types, constant, span := target.span } := by
  let v : Variable := { name := target.name, types := target.types, constant, span := target.span }
  rw [declareBinding_eq, hfree]
  let t := (requireDefined target.types target.span s).2
  show ((match (requireDefined target.types target.span s).1, actual with
    | true, some types => requireMatch types target.types target.span (.variable target.name) >>= fun _ =>
      change (.variable v)
    | _, _ => change (.variable v) : Check Unit) t).2.environment = _
  cases (requireDefined target.types target.span s).1 with
  | false => rfl
  | true =>
    cases actual with
    | none => rfl
    | some types =>
      show (requireMatch types target.types target.span (.variable target.name) t).2.environment.declareVariable v = _
      rw [requireMatch_environment]
      rfl

/-- A binding of a name that is taken is reported, behind its value, and does nothing else. -/
theorem walkStatement_binding_of_taken (constant : Bool) {target : TypedName} {value : Option Expression} {v : Variable}
    (htaken : (valued limit value s).environment.findVariable? target.name = some v) :
    (walkStatement limit (.binding constant target value) s).2 =
      (valued limit value s).reporting [⟨.variableDeclaredTwice target.name, target.span⟩] := by
  obtain ⟨actual, hwalk⟩ := walkStatement_binding limit constant target value s
  rw [hwalk, declareBinding_eq, htaken]
  rfl

/-- In a root scope a name is looked up among its variables. -/
theorem findVariable?_of_inner {env : Environment} (h : env.inner = []) {name : String} :
    env.findVariable? name = none ↔ name ∉ env.root.bindings.map Variable.name := by
  unfold Environment.findVariable? Environment.frames Frame.findVariable?
  rw [h]
  simp

/-! ## The variables of a root scope -/

/-- A root scope whose types, variables and functions stand as after the effects of an expression has its variables. -/
theorem bindings_of_expression {t : CheckState} (heffect : Effect limit .expression s t)
    (h : s.environment.inner = []) : t.environment.root.bindings = s.environment.root.bindings := by
  have hcurrent := (CheckState.Continues.ofEffect heffect).current.2.1
  rwa [current_of_inner (inner_of_effect heffect h), current_of_inner h] at hcurrent

/-- A variable under a free name stands behind the others. -/
theorem bindings_declareVariable : ∀ {env : Environment} {v : Variable}, env.inner = [] →
    v.name ∉ env.root.bindings.map Variable.name →
    (env.declareVariable v).root.bindings = env.root.bindings ++ [v]
  | ⟨[], root, _⟩, v, _, hfree => by
    show root.bindings.filter (fun b => b.name != v.name) ++ [v] = _
    have hkept : root.bindings.filter (fun b => b.name != v.name) = root.bindings :=
      List.filter_eq_self.2 fun b hb => bne_iff_ne.2 fun e => hfree (List.mem_map.2 ⟨b, hb, e⟩)
    rw [hkept]

theorem bindings_declareType (d : TypeDeclaration) (h : s.environment.inner = []) :
    (declareType d s).2.environment.root.bindings = s.environment.root.bindings := by
  rcases environment_declareType d s with hsame | hdeclared
  · rw [hsame]
  · rw [hdeclared, (retyped_declareType h (entryOf d)).root]

/-- **A statement adds the variable that it binds**, if the name is new, and no other. -/
theorem bindings_walkStatement (limit : Nat) (st : Statement) (h : s.environment.inner = []) :
    (walkStatement limit st s).2.environment.root.bindings = s.environment.root.bindings ++
      firstOfEach Variable.name (s.environment.root.bindings.map Variable.name) (Program.variables ⟨[st]⟩) := by
  by_cases hbinding : ∃ constant target value, st = .binding constant target value
  · obtain ⟨constant, target, value, rfl⟩ := hbinding
    let v : Variable := { name := target.name, types := target.types, constant, span := target.span }
    have hvariables : Program.variables ⟨[.binding constant target value]⟩ = [v] := rfl
    have hinner := inner_of_effect (effect_valued limit value s) h
    have hkept := bindings_of_expression (effect_valued limit value s) h
    rw [hvariables]
    cases hfound : (valued limit value s).environment.findVariable? target.name with
    | none =>
      have hfree := (findVariable?_of_inner hinner).1 hfound
      obtain ⟨actual, hwalk⟩ := walkStatement_binding limit constant target value s
      rw [hwalk, environment_declareBinding hfound, bindings_declareVariable hinner hfree, hkept,
        firstOfEach_cons_of_not_mem (hkept ▸ hfree)]
      rfl
    | some found =>
      have htaken : v.name ∈ s.environment.root.bindings.map Variable.name :=
        Decidable.of_not_not fun hfree => by
          rw [(findVariable?_of_inner hinner).2 (hkept ▸ hfree)] at hfound
          exact nomatch hfound
      rw [walkStatement_binding_of_taken constant hfound, firstOfEach_cons_of_mem htaken]
      exact hkept.trans (List.append_nil _).symm
  · have hvariables : Program.variables ⟨[st]⟩ = [] := by
      cases st with
      | binding constant target value => exact absurd ⟨constant, target, value, rfl⟩ hbinding
      | _ => rfl
    rw [hvariables, firstOfEach, List.append_nil]
    by_cases htype : ∃ d, st = .typeDeclaration d
    · obtain ⟨d, rfl⟩ := htype
      rw [walkStatement]
      exact bindings_declareType d h
    · exact bindings_of_expression (does_walkStatement limit (fun constant target value hst =>
        hbinding ⟨constant, target, value, hst⟩) (fun d hst => htype ⟨d, hst⟩) s) h

/-- **A program adds the variables that it binds first under new names, in their order**, and no others. -/
theorem bindings_walkStatements (limit : Nat) : ∀ (statements : List Statement) {s : CheckState},
    s.environment.inner = [] →
    (walkStatements limit statements s).2.environment.root.bindings = s.environment.root.bindings ++
      firstOfEach Variable.name (s.environment.root.bindings.map Variable.name) (Program.variables ⟨statements⟩)
  | [], _, _ => (List.append_nil _).symm
  | st :: rest, s, h => by
    have hinner := inner_of_effect ((does_closed limit).walkStatement st s) h
    have hrest := bindings_walkStatements limit rest hinner
    have hvariables : Program.variables ⟨st :: rest⟩ = Program.variables ⟨[st]⟩ ++ Program.variables ⟨rest⟩ :=
      List.filterMap_append (l := [st])
    rw [walkStatements]
    refine hrest.trans ?_
    rw [bindings_walkStatement limit st h, hvariables, firstOfEach_append, List.map_append, List.append_assoc]

/-! ## Types declared again -/

/-- A type that is listed is a built-in one exactly if its name is one of theirs. -/
theorem Lists.builtin_iff {env : Environment} {es : List Numbered} {t : TypeEntry} {name : String} (h : Lists env es)
    (hfound : env.findType? name = some t) : t.builtin = true ↔ name ∈ builtinTypes := by
  have hroot : env.root.types.find? (fun u => u.name == name) = some t := by
    unfold Environment.findType? Environment.frames Frame.findType? at hfound
    rw [h.inner] at hfound
    simpa using hfound
  have hname : t.name = name := by simpa using List.find?_some hroot
  have hbuiltin : builtinTypes = Frame.builtin.types.map TypeEntry.name := by decide
  have hmem := List.mem_of_find?_eq_some hroot
  rw [h.types] at hmem
  rcases List.mem_append.1 hmem with hmem | hmem
  · obtain ⟨n, hn, rfl⟩ := List.mem_map.1 hmem
    exact ⟨fun _ => hname ▸ hn, fun _ => rfl⟩
  · obtain ⟨e, he, rfl⟩ := List.mem_map.1 hmem
    refine ⟨nofun, fun hn => ?_⟩
    have hdistinct := h.distinct
    rw [List.map_append] at hdistinct
    rw [hbuiltin, ← hname] at hn
    exact absurd rfl ((List.nodup_append.1 hdistinct).2.2 _ hn _ (List.mem_map_of_mem (List.mem_map_of_mem he)))

/-- A declaration under a name that is listed is reported and does nothing else. -/
theorem Lists.walkStatement_of_taken {es : List Numbered} (h : Lists s.environment es) {d : TypeDeclaration}
    (htaken : d.name ∈ s.environment.root.types.map TypeEntry.name) :
    (walkStatement limit (.typeDeclaration d) s).2 = s.reporting
      [⟨if d.name ∈ builtinTypes then .builtinTypeRedefined d.name else .typeDefinedTwice d.name, d.span⟩] := by
  cases hfound : s.environment.findType? d.name with
  | none => exact absurd htaken (h.free_iff.1 hfound)
  | some existing =>
    have hbuiltin := h.builtin_iff hfound
    rw [walkStatement, declareType_eq, hfound]
    by_cases hname : d.name ∈ builtinTypes
    · rw [if_pos hname]
      simp only [hbuiltin.2 hname]
      rfl
    · rw [if_neg hname]
      simp only [Bool.eq_false_iff.2 (mt hbuiltin.1 hname)]
      rfl

end Check

/-! ## Programs -/

namespace Program

open Check

variable {root : Frame} {packages : Option PackageCache} {limit : Nat} {program : Program}

/-- The state behind the first statements of a program that is walked from a root scope. -/
def behind (root : Frame) (packages : Option PackageCache) (limit : Nat) (statements : List Statement) : CheckState :=
  (walkStatements limit statements { environment := .ofRoot root, packages }).2

theorem behind_concat (before : List Statement) (st : Statement) :
    behind root packages limit (before ++ [st]) = (walkStatement limit st (behind root packages limit before)).2 :=
  walkStatements_append limit before [st] _

/-- What was reported behind the first statements of a program is reported of the program, and first. -/
theorem diagnostics_behind {before rest : List Statement} {st : Statement} {s : CheckState} {r : Report}
    (hprogram : program.statements = before ++ st :: rest)
    (hbehind : behind root packages limit (before ++ [st]) = s.reporting [r]) :
    ∃ later, (program.walk (.ofRoot root) packages limit).reports.map Report.diagnostic =
      s.reports.reverse.map Report.diagnostic ++ r.diagnostic :: later := by
  let t := behind root packages limit (before ++ [st])
  have hreports : t.reports = r :: s.reports := congrArg CheckState.reports hbehind
  obtain ⟨later, hlater⟩ := (CheckState.Continues.ofEffect ((does_closed limit).walkStatements rest t)).reports
  refine ⟨later.map Report.diagnostic, ?_⟩
  have hwalk : behind root packages limit program.statements = (walkStatements limit rest t).2 := by
    rw [hprogram, List.append_cons]
    exact walkStatements_append limit (before ++ [st]) rest _
  show (behind root packages limit program.statements).reports.reverse.map Report.diagnostic = _
  rw [hwalk, ← hlater, hreports, List.reverse_cons, List.map_append, List.map_append, List.append_assoc]
  rfl

/-- The scope holds the first binding of each name. -/
theorem bindings_behind (hbindings : root.bindings = []) (statements : List Statement) :
    (behind root packages limit statements).environment.root.bindings =
      firstOfEach Variable.name [] (Program.variables ⟨statements⟩) := by
  let start : CheckState := { environment := .ofRoot root, packages }
  have hwalk := bindings_walkStatements limit statements (s := start) rfl
  rwa [show start.environment.root.bindings = [] from hbindings] at hwalk

/-- **A binding of a name that was bound before** comes up with one fatal diagnostic, at the name, behind what its initial
value comes up with, and declares nothing. -/
theorem rebinding_reported (hbindings : root.bindings = []) {before rest : List Statement} {constant : Bool}
    {target : TypedName} {value : Option Expression}
    (hprogram : program.statements = before ++ .binding constant target value :: rest)
    (htaken : target.name ∈ (Program.variables ⟨before⟩).map Variable.name) :
    let s : CheckState := valued limit value (behind root packages limit before)
    let finding : Finding := .variableDeclaredTwice target.name
    behind root packages limit (before ++ [.binding constant target value]) = s.reporting [⟨finding, target.span⟩] ∧
      ∃ later : List Diagnostic, (program.walk (.ofRoot root) packages limit).reports.map Report.diagnostic =
        s.reports.reverse.map Report.diagnostic ++ ⟨.fatal, target.span, finding.message⟩ :: later := by
  intro s finding
  have hinner : (behind root packages limit before).environment.inner = [] :=
    inner_of_effect ((does_closed limit).walkStatements before _) rfl
  have hvalued := effect_valued limit value (behind root packages limit before)
  have hfound : s.environment.findVariable? target.name ≠ none := by
    rw [ne_eq, findVariable?_of_inner (inner_of_effect hvalued hinner), bindings_of_expression hvalued hinner,
      bindings_behind hbindings, Decidable.not_not]
    obtain ⟨v, hv, hname⟩ := List.mem_map.1 htaken
    exact hname ▸ @key_mem_of_firstOfEach _ _ _ _ [] _ _ hv
  obtain ⟨v, hv⟩ := Option.ne_none_iff_exists'.1 hfound
  have hstate := (behind_concat before _).trans (walkStatement_binding_of_taken constant hv)
  exact ⟨hstate, diagnostics_behind hprogram hstate⟩

/-- **A declaration of a name that was declared before or is built in** comes up with one fatal diagnostic, and nothing
else comes of it. -/
theorem redeclaration_reported {es : List Numbered} (hlists : Lists (.ofRoot root) es) {before rest : List Statement}
    {d : TypeDeclaration} (hprogram : program.statements = before ++ .typeDeclaration d :: rest)
    (htaken : d.name ∈ root.types.map TypeEntry.name ++ (Program.typeDeclarations ⟨before⟩).map TypeDeclaration.name) :
    let s : CheckState := behind root packages limit before
    let finding : Finding := if d.name ∈ builtinTypes then .builtinTypeRedefined d.name else .typeDefinedTwice d.name
    behind root packages limit (before ++ [.typeDeclaration d]) = s.reporting [⟨finding, d.span⟩] ∧
      ∃ later : List Diagnostic, (program.walk (.ofRoot root) packages limit).reports.map Report.diagnostic =
        s.reports.reverse.map Report.diagnostic ++ ⟨.fatal, d.span, finding.message⟩ :: later := by
  intro s finding
  let start : CheckState := { environment := .ofRoot root, packages }
  have hstart : Lists start.environment es := hlists
  obtain ⟨new, hnew, hfirsts⟩ := hstart.afterStatements limit before
  have hlisted : d.name ∈ s.environment.root.types.map TypeEntry.name := by
    rw [show s.environment.root.types.map TypeEntry.name = _ from hstart.names_append hnew, hfirsts]
    rcases List.mem_append.1 htaken with hroot | hdeclared
    · exact List.mem_append_left _ hroot
    · obtain ⟨d', hd', hname⟩ := List.mem_map.1 hdeclared
      exact hname ▸ key_mem_of_firstOfEach hd'
  have hstate := (behind_concat before _).trans (hnew.walkStatement_of_taken hlisted)
  have hfatal : (⟨finding, d.span⟩ : Report).diagnostic = ⟨.fatal, d.span, finding.message⟩ := by
    have hseverity : finding.severity = .fatal := by
      dsimp only [finding]
      split <;> rfl
    rw [Report.diagnostic, hseverity]
  rw [← hfatal]
  exact ⟨hstate, diagnostics_behind hprogram hstate⟩

/-- **What a program leaves in the root scope of a session.**  Whatever was loaded and checked before: the scope behind a
program holds for each name that is bound at top level the variable of its first binding, and no other; and behind the
types of the root scope, which are as they were, it lists for each new name that is declared at top level the type of its
first declaration, in the order of the program, and no other.  A binding of a name that was bound before comes up with
one fatal diagnostic, at the name, besides what its initial value comes up with, and a declaration of a name that was
declared before or is built in with one and nothing else; neither of them declares anything. -/
theorem walk_root (options : Options) (packages packages' : Option PackageCache) (calls : List Session.Call)
    (program : Program) (limit : Nat) :
    let root : Frame := ((Session.fresh options packages).after calls).root
    let out : WalkOutcome := program.walk (.ofRoot root) packages' limit
    let scope : Frame := out.environment.root
    scope.bindings = firstOfEach Variable.name [] program.variables ∧
    (∃ new : List Numbered,
      new.map Prod.snd =
        firstOfEach TypeDeclaration.name (root.types.map TypeEntry.name) program.typeDeclarations ∧
      scope.types = root.types ++ new.map numberedEntry ∧
      scope.declaredTypes = root.declaredTypes ++ new.map numberedEntry) ∧
    (∀ (before : List Statement) (constant : Bool) (target : TypedName) (value : Option Expression)
        (rest : List Statement), program.statements = before ++ .binding constant target value :: rest →
      target.name ∈ (Program.variables ⟨before⟩).map Variable.name →
      let s : CheckState := valued limit value (behind root packages' limit before)
      let finding : Finding := .variableDeclaredTwice target.name
      behind root packages' limit (before ++ [.binding constant target value]) = s.reporting [⟨finding, target.span⟩] ∧
        ∃ later : List Diagnostic, out.reports.map Report.diagnostic =
          s.reports.reverse.map Report.diagnostic ++ ⟨.fatal, target.span, finding.message⟩ :: later) ∧
    ∀ (before : List Statement) (d : TypeDeclaration) (rest : List Statement),
      program.statements = before ++ .typeDeclaration d :: rest →
      d.name ∈ root.types.map TypeEntry.name ++ (Program.typeDeclarations ⟨before⟩).map TypeDeclaration.name →
      let s : CheckState := behind root packages' limit before
      let finding : Finding := if d.name ∈ builtinTypes then .builtinTypeRedefined d.name else .typeDefinedTwice d.name
      behind root packages' limit (before ++ [.typeDeclaration d]) = s.reporting [⟨finding, d.span⟩] ∧
        ∃ later : List Diagnostic, out.reports.map Report.diagnostic =
          s.reports.reverse.map Report.diagnostic ++ ⟨.fatal, d.span, finding.message⟩ :: later := by
  intro root out scope
  obtain ⟨es, hes⟩ := Session.Holds.after calls (Session.holds_fresh options packages)
  rw [List.nil_append] at hes
  let start : CheckState := { environment := .ofRoot root, packages := packages' }
  have hlists : Lists start.environment es := hes.lists
  refine ⟨bindings_behind hes.bindings program.statements, ?_, fun _ _ _ _ _ => rebinding_reported hes.bindings,
    fun _ _ _ => redeclaration_reported hes.lists⟩
  obtain ⟨new, hnew, hfirsts⟩ := hlists.afterStatements limit program.statements
  have hscope : Lists out.environment (es ++ new) := hnew
  refine ⟨new, hfirsts, ?_, ?_⟩
  · rw [show scope.types = _ from hscope.types, show root.types = _ from hes.types, List.map_append, List.append_assoc]
  · rw [show scope.declaredTypes = _ from hscope.declaredTypes, show root.declaredTypes = _ from hes.declaredTypes,
      List.map_append]

/-- A variable that is bound again as a constant of other types, and a built-in type that is declared again. -/
theorem walk_root_redeclared :
    let place (line : Nat) : Span := ⟨"m.vp", ⟨line, 5⟩, ⟨line, 5⟩⟩
    let int : Union := .named "int"
    let declaration (name : String) (line : Nat) : TypeDeclaration := ⟨name, place line, false, .plain, int, [], []⟩
    let first : List Statement := [.binding false ⟨"x", place 1, int⟩ none, .typeDeclaration (declaration "t" 2)]
    let again : Statement := .binding true ⟨"x", place 3, .named "t"⟩ none
    let program : Program := ⟨first ++ again :: [.typeDeclaration (declaration "int" 4)]⟩
    let out := program.walk (.ofRoot ((Session.fresh {} none).after []).root) none 8
    out.environment.root.bindings = [⟨"x", int, false, place 1⟩] ∧
      out.environment.root.declaredTypes.map TypeEntry.name = ["t"] ∧
      ⟨.fatal, place 3, (Finding.variableDeclaredTwice "x").message⟩ ∈ out.reports.map Report.diagnostic ∧
      ⟨.fatal, place 4, (Finding.builtinTypeRedefined "int").message⟩ ∈ out.reports.map Report.diagnostic := by
  intro place int declaration first again program out
  subst out
  obtain ⟨hbindings, ⟨new, hnew, -, hdeclared⟩, hbinding, htype⟩ := walk_root {} none none [] program 8
  have hnames : new.map Prod.snd = [declaration "t" 2] := hnew
  have hroot : ((Session.fresh {} none).after []).root.declaredTypes = [] := (Session.holds_fresh {} none).declaredTypes
  obtain ⟨later, hlater⟩ := (hbinding first true _ none _ rfl List.mem_cons_self).2
  obtain ⟨later', hlater'⟩ := (htype (first ++ [again]) (declaration "int" 4) [] rfl
    (List.mem_append_left _ (by decide))).2
  refine ⟨hbindings, ?_, ?_, ?_⟩
  · rw [hdeclared, hroot, List.nil_append, List.map_map,
      show TypeEntry.name ∘ numberedEntry = TypeDeclaration.name ∘ Prod.snd from rfl, ← List.map_map, hnames]
    rfl
  · rw [hlater]
    exact List.mem_append_right _ List.mem_cons_self
  · rw [hlater']
    exact List.mem_append_right _ List.mem_cons_self

end Program
end UnionScript
