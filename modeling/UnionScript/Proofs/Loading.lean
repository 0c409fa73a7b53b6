import Mathlib
import UnionScript.Proofs.Agreement
import UnionScript.Proofs.Sources
import UnionScript.Proofs.TopLevel
/-!
# Loading — a loaded type file stands for the declarations it was written for

A session that has loaded the type file of some declarations checks a program as if the declarations stood in front of
it (`loaded_agrees`).  What was loaded differs from what was declared in place only in what no check can see, and the
program is read the same whether the declarations are in front of it or not.
-/
namespace UnionScript
namespace Session

open Parse Check Grammar

variable {session : Session} {options : Options} {sources : List SourceFile} {statements : List Statement}

/-! ## Checking and loading -/

/-- What the checker knows behind some statements of a program. -/
def walked (session : Session) (statements : List Statement) : CheckState :=
  (walkStatements session.options.maxDepth statements
    { environment := .ofRoot session.root, packages := session.packages }).2

theorem compile_of_statementsFrom {s : ParseState}
    (h : statementsFrom session.options.maxDepth false [] (.ofSources sources) = .ok statements s) :
    (session.compile sources).1 =
        ⟨⟨statements⟩, (session.walked statements).environment.root, (session.walked statements).types⟩ ∧
      (session.compile sources).2.diagnostics = session.diagnostics ++
        ((sources.flatMap SourceFile.strays).map StrayCharacter.diagnostic ++
          s.errors.reverse.map ParseError.diagnostic ++
          (session.walked statements).reports.reverse.map Report.diagnostic) := by
  obtain ⟨hprogram, hdiagnostics⟩ := read_of_statementsFrom h
  unfold Session.compile
  dsimp only
  rw [hprogram, hdiagnostics]
  exact ⟨rfl, rfl⟩

/-- What the checker knows behind declarations that are admitted: the types they declare. -/
theorem walked_declarations (hbare : ∀ st ∈ statements, st.IsBareDeclaration)
    (h : Admits (.ofRoot session.root) (Program.typeDeclarations ⟨statements⟩)) : ∃ events course,
      session.walked statements = {
        environment := declared (.ofRoot session.root) (Program.typeDeclarations ⟨statements⟩)
        packages := session.packages, events, course } := by
  unfold walked
  rw [walkStatements_bare _ hbare]
  exact declareAll_of_admits h

/-- **A program is walked alike behind declarations and where alike types are in scope.** -/
theorem walked_behind {loaded : Session} (hoptions : loaded.options = session.options)
    (hpackages : loaded.packages = session.packages) (hbare : ∀ st ∈ statements, st.IsBareDeclaration)
    (h : Admits (.ofRoot session.root) (Program.typeDeclarations ⟨statements⟩))
    (hroot : loaded.root.Alike (declared (.ofRoot session.root) (Program.typeDeclarations ⟨statements⟩)).root)
    (behind : List Statement) : (loaded.walked behind).Alike (session.walked (statements ++ behind)) := by
  obtain ⟨events, course, hdeclarations⟩ := walked_declarations hbare h
  have hinner : (declared (.ofRoot session.root) (Program.typeDeclarations ⟨statements⟩)).inner = [] :=
    inner_declared rfl
  have hstates : CheckState.Alike { environment := .ofRoot loaded.root, packages := loaded.packages }
      (session.walked statements) := by
    rw [hdeclarations]
    refine ⟨⟨?_, hroot⟩, hpackages, rfl, rfl, rfl, rfl⟩
    rw [hinner]
    exact .nil
  have hagree := ((agree_closed session.options.maxDepth).walkStatements behind _ _ hstates).2
  unfold walked at hagree ⊢
  rw [walkStatements_append, hoptions]
  exact hagree

/-- A file of declarations that are admitted is loaded without a diagnostic, and its types are in scope behind it. -/
theorem load_of_statementsFrom {source : SourceFile} {s : ParseState}
    (h : statementsFrom session.options.maxDepth false [] (.ofSources [source]) = .ok statements s)
    (hstrays : source.strays = []) (herrors : s.errors = [])
    (hadmits : Admits (.ofRoot session.root) (Program.typeDeclarations ⟨statements⟩)) : ∃ events,
      (session.load source).2 = { session with
        root := (declared (.ofRoot session.root) (Program.typeDeclarations ⟨statements⟩)).root, events } := by
  obtain ⟨hprogram, hdiagnostics⟩ := read_of_statementsFrom h
  obtain ⟨hreports, henvironment⟩ := declareTypes_of_admits hadmits
  have hstrays' : [source].flatMap SourceFile.strays = [] := by rw [List.flatMap_cons, hstrays]; rfl
  have hnone : session.diagnostics ++ ((Session.read session.options [source]).diagnostics ++
      ((Session.read session.options [source]).program.declareTypes (.ofRoot session.root)).reports.map
        Report.diagnostic) = session.diagnostics := by
    rw [hdiagnostics, hprogram, hreports, hstrays', herrors]
    exact List.append_nil _
  have hroot : ((Session.read session.options [source]).program.declareTypes (.ofRoot session.root)).environment.root =
      (declared (.ofRoot session.root) (Program.typeDeclarations ⟨statements⟩)).root := by
    rw [hprogram, henvironment]
  unfold Session.load
  dsimp only
  rw [Session.add, hnone, hroot]
  exact ⟨_, rfl⟩

/-! ## The type file of declarations -/

/-- What a session that compiles a file of bare declarations without a diagnostic finds in it. -/
theorem of_compile_clean {d : SourceFile} (hsession : session.root = .builtin)
    (hclean : (session.compile [d]).2.diagnostics = [])
    (hbare : ∀ st ∈ (session.compile [d]).1.program.statements, st.IsBareDeclaration) :
    ∃ statements, d.strays = [] ∧ Declarations d.line statements ∧ (∀ st ∈ statements, st.IsBareDeclaration) ∧
      Admits (.ofRoot .builtin) (Program.typeDeclarations ⟨statements⟩) ∧
      (session.compile [d]).1.scope =
        (declared (.ofRoot .builtin) (Program.typeDeclarations ⟨statements⟩)).root := by
  obtain ⟨statements, s, -, hread⟩ := exists_statements [d] session.options.maxDepth
  have hread : statementsFrom session.options.maxDepth false [] (.ofSources [d]) = .ok statements s := hread []
  obtain ⟨hprogram, hdiagnostics⟩ := compile_of_statementsFrom hread
  rw [hprogram] at hbare
  rw [hdiagnostics] at hclean
  have hbare : ∀ st ∈ statements, st.IsBareDeclaration := hbare
  obtain ⟨-, hclean⟩ := List.append_eq_nil_iff.1 hclean
  obtain ⟨hfound, hreports⟩ := List.append_eq_nil_iff.1 hclean
  obtain ⟨hstrays, herrors⟩ := List.append_eq_nil_iff.1 hfound
  have hstrays : d.strays ++ [] = [] := List.map_eq_nil_iff.1 hstrays
  have herrors : s.errors = [] := List.reverse_eq_nil_iff.1 (List.map_eq_nil_iff.1 herrors)
  have hreports : (session.walked statements).reports = [] :=
    List.reverse_eq_nil_iff.1 (List.map_eq_nil_iff.1 hreports)
  have hadmits : Admits (.ofRoot session.root) (Program.typeDeclarations ⟨statements⟩) := by
    unfold walked at hreports
    rw [walkStatements_bare _ hbare] at hreports
    exact admits_of_declareAll (s := { environment := .ofRoot session.root, packages := session.packages })
      (congrArg List.length hreports)
  obtain ⟨events, course, hwalked⟩ := walked_declarations hbare hadmits
  rw [List.append_nil] at hstrays
  rw [hsession] at hadmits hwalked
  refine ⟨statements, hstrays, declarations_of_read hread herrors hbare, hbare, hadmits, ?_⟩
  rw [hprogram, hwalked]

/-- **Checking against a loaded type file agrees with checking the declarations in place.**  If a file of undecorated
type declarations compiles without a diagnostic, its type file loads without one, and whatever program is compiled
behind it yields the diagnostics and the types of expressions that it yields behind the declarations themselves. -/
theorem loaded_agrees (options : Options) (d m : SourceFile) (name : String)
    (hclean : ((ofOptions options).compile [d]).2.diagnostics = [])
    (hbare : ∀ st ∈ ((ofOptions options).compile [d]).1.program.statements, st.IsBareDeclaration) :
    let fresh := ofOptions options
    let loaded := (fresh.load ⟨name, (fresh.compile [d]).1.scope.typeFile⟩).2
    loaded.diagnostics = [] ∧
      (loaded.compile [m]).2.diagnostics = (fresh.compile [d, m]).2.diagnostics ∧
      (loaded.compile [m]).1.types = (fresh.compile [d, m]).1.types := by
  intro fresh loaded
  obtain ⟨statements, hstrays, hdeclarations, hbare, hadmits, hscope⟩ := of_compile_clean rfl hclean hbare
  let ds := Program.typeDeclarations ⟨statements⟩
  -- The type file is read as alike declarations.
  have hany : ∀ d ∈ ds, d.name ≠ "any" := name_ne_of_admits hadmits (by decide)
  have hnamed : ∀ d ∈ ds, (entryOf d).IsNamed := hdeclarations.isNamed d.nameable_line
  let file : SourceFile := ⟨name, (fresh.compile [d]).1.scope.typeFile⟩
  have hfile : file.text = "\n".intercalate (ds.map fun d => (entryOf d).declaration) :=
    (congrArg Frame.typeFile hscope).trans (typeFile_of_admits hadmits)
  obtain ⟨hstrays', written, hwritten, halike⟩ := read_typeFile (fun d hd => ⟨hnamed d hd, hany d hd⟩) hfile
  obtain ⟨hadmits', hdeclared⟩ := admits_alike halike (.refl (.ofRoot .builtin)) hadmits
  obtain ⟨s, herrors, hread⟩ := read_declarations hwritten fresh.options.maxDepth
  obtain ⟨events, hloaded⟩ : ∃ events, loaded = { fresh with
      root := (declared (.ofRoot .builtin) (Program.typeDeclarations ⟨written⟩)).root, events } :=
    load_of_statementsFrom hread hstrays' herrors hadmits'
  -- The program is read the same behind the declarations.
  obtain ⟨behind, t, -, hbehind⟩ := exists_statements [m] options.maxDepth
  have halone : statementsFrom loaded.options.maxDepth false [] (.ofSources [m]) = .ok behind t := by
    rw [hloaded]
    exact hbehind []
  have hinPlace : statementsFrom fresh.options.maxDepth false [] (.ofSources [d, m]) = .ok (statements ++ behind) t :=
    read_behind hdeclarations hbehind
  obtain ⟨hprogram, hdiagnostics⟩ := compile_of_statementsFrom halone
  obtain ⟨hprogram', hdiagnostics'⟩ := compile_of_statementsFrom hinPlace
  have hwalked : (loaded.walked behind).Alike (fresh.walked (statements ++ behind)) :=
    walked_behind (by rw [hloaded]) (by rw [hloaded]) hbare hadmits (by rw [hloaded]; exact hdeclared.root.symm) behind
  have hstrays'' : [d, m].flatMap SourceFile.strays = [m].flatMap SourceFile.strays := by
    rw [List.flatMap_cons, hstrays]
    rfl
  have hempty : loaded.diagnostics = [] := by rw [hloaded]; rfl
  refine ⟨hempty, ?_, ?_⟩
  · rw [hdiagnostics, hdiagnostics', hempty, hstrays'', hwalked.reports]
    rfl
  · rw [hprogram, hprogram']
    exact hwalked.types

/-- A type with itself among its members, which its type file leaves out, and a program that breaks it. -/
theorem loaded_agrees_struct :
    let fresh := ofOptions {}
    let d : SourceFile := ⟨"d.vp", "type p: struct \x7b p, x: int \x7d"⟩
    let m : SourceFile := ⟨"m.vp", "let q: p = p(x = TRUE)"⟩
    let loaded := (fresh.load ⟨"p.types", (fresh.compile [d]).1.scope.typeFile⟩).2
    ((fresh.compile [d]).2.diagnostics = [] ∧
        ∀ st ∈ (fresh.compile [d]).1.program.statements, st.IsBareDeclaration) ∧
      loaded.diagnostics = [] ∧
      (loaded.compile [m]).2.diagnostics = (fresh.compile [d, m]).2.diagnostics ∧
      (loaded.compile [m]).1.types = (fresh.compile [d, m]).1.types := by
  intro fresh d m loaded
  have hcompiled : (fun compiled : AnnotatedProgram × Session => (compiled.2.diagnostics,
      compiled.1.program.statements.all fun st => decide st.IsBareDeclaration)) (fresh.compile [d]) = ([], true) := by
    subst fresh d
    cbv
  obtain ⟨hclean, hall⟩ := Prod.mk.inj hcompiled
  have hbare : ∀ st ∈ (fresh.compile [d]).1.program.statements, st.IsBareDeclaration :=
    fun st hst => of_decide_eq_true (List.all_eq_true.1 hall st hst)
  exact ⟨⟨hclean, hbare⟩, loaded_agrees {} d m "p.types" hclean hbare⟩

end Session
end UnionScript
