import Mathlib
import UnionScript.Proofs.Sources
import UnionScript.Proofs.TopLevel
/-!
# Reloading — the type file of a program, loaded by a fresh session

A fresh session that loads the type file of a program takes up as many types as the program's scope declares, in the
same order, and each of them is what is restored of the one it was printed for (`reloaded_of_program`).  Decorators
apart, every declaration that was read is made of names that can be written down again, whatever errors there were
around it (`isNamed_of_read`), and a scope lists under each name one type only, so that every name is free when the file
is loaded.  A type is restored as it was unless it is a composite type that is one of several of its own members
(`ListsItselfAlone`).
-/
namespace UnionScript

open Check

/-! ## Declarations among statements -/

namespace Parse

variable {deeper : Deeper} {s s' : ParseState}

/-- A bare declaration that is read is made of the identifiers that are there. -/
theorem isNamed_of_statement {d : TypeDeclaration} (h : statement deeper s = .ok (.typeDeclaration d) s')
    (heof : s.eof.kind = .eof) (hnames : Grammar.Nameable s.rest) (hbare : d.decorators = []) :
    (entryOf d).IsNamed := by
  rcases of_statement h heof hbare with ⟨ts, d', hs, hts, hd, -⟩ | ⟨c, roxygen, -, -, hcomment⟩
  · cases hd
    rw [hs, ParseState.rest_before] at hnames
    exact hts.isNamed hnames.of_append.1
  · exact nomatch hcomment

end Parse

theorem Program.mem_typeDeclarations {program : Program} {d : TypeDeclaration} :
    d ∈ program.typeDeclarations ↔ .typeDeclaration d ∈ program.statements := by
  unfold Program.typeDeclarations
  rw [List.mem_filterMap]
  constructor
  · rintro ⟨st, hst, hd⟩
    cases st with
    | typeDeclaration d' =>
      cases hd
      exact hst
    | _ => exact nomatch hd
  · exact fun h => ⟨_, h, rfl⟩

/-! ## What is restored -/

namespace TypeEntry

variable {t : TypeEntry}

/-- Whether a composite type that is one of its own members has no other. -/
def ListsItselfAlone (t : TypeEntry) : Prop :=
  t.kind ≠ .plain → { name := t.name } ∈ t.types.alternatives → t.types = .named t.name

/-- **A type is restored as it was exactly if it is not one of several members of its own.** -/
theorem restoredTypes_eq_iff (h : t.types.alternatives ≠ []) : t.restoredTypes = t.types ↔ t.ListsItselfAlone := by
  by_cases hkind : t.kind = .plain
  · exact ⟨fun _ hcomposite => absurd hkind hcomposite, fun _ => Grammar.restoredTypes_plain hkind⟩
  rw [restoredTypes, if_neg hkind]
  by_cases hothers : t.others = []
  · have hitself : { name := t.name } ∈ t.types.alternatives := by
      obtain ⟨m, all, hall⟩ := List.exists_cons_of_ne_nil h
      have hm : m ∈ t.types.alternatives := hall ▸ List.mem_cons_self
      have hself : t.isItself m = true := by simpa using List.filter_eq_nil_iff.1 hothers m hm
      exact Grammar.isItself_iff.1 hself ▸ hm
    rw [if_pos hothers]
    exact ⟨fun heq _ _ => heq.symm, fun halone => (halone hkind hitself).symm⟩
  · have hself : t.isItself { name := t.name } = true := Grammar.isItself_iff.2 rfl
    have hkept : t.others = t.types.alternatives ↔ { name := t.name } ∉ t.types.alternatives := by
      rw [others, List.filter_eq_self]
      refine ⟨fun hall hmem => ?_, fun hnot m hm => ?_⟩
      · have hother := hall _ hmem
        rw [hself] at hother
        exact Bool.false_ne_true hother
      · rw [Bool.not_eq_true', Bool.eq_false_iff]
        exact fun hm' => hnot (Grammar.isItself_iff.1 hm' ▸ hm)
    rw [if_neg hothers]
    constructor
    · intro heq _ hmem
      exact absurd hmem (hkept.1 (congrArg Union.alternatives heq))
    · intro halone
      have hnot : { name := t.name } ∉ t.types.alternatives := by
        intro hmem
        refine hothers ?_
        rw [others, halone hkind hmem]
        exact List.filter_eq_nil_iff.2 (List.forall_mem_singleton.2 (by rw [hself]; exact Bool.false_ne_true))
      exact Grammar.union_eq (hkept.2 hnot)

end TypeEntry

/-- What is restored of an entry is the same but for places exactly if its types are. -/
theorem TypeEntry.restored_unplaced_iff {t : TypeEntry} :
    t.restored.unplaced = t.unplaced ↔ t.restoredTypes = t.types :=
  ⟨congrArg TypeEntry.types, fun h => congrArg TypeEntry.unplaced (show { t with types := t.restoredTypes } = t by rw [h])⟩

/-! ## Sessions -/

namespace Session

variable {session : Session} {es : List Numbered}

/-- **Bare declarations that are read are made of names that can be written down.** -/
theorem isNamed_of_read (options : Options) (sources : List SourceFile) :
    ∀ d ∈ (read options sources).program.typeDeclarations, d.decorators = [] → (entryOf d).IsNamed := by
  obtain ⟨statements, s, -, hread⟩ := exists_statements sources options.maxDepth
  have hread : Parse.statementsFrom options.maxDepth false [] (.ofSources sources) = .ok statements s := hread []
  obtain ⟨hprogram, -⟩ := read_of_statementsFrom hread
  have hnames : Grammar.Nameable (ParseState.ofSources sources).rest := by
    intro t ht
    obtain ⟨source, -, ht⟩ := List.mem_flatMap.1 ht
    exact source.nameable_line t ht
  have hall := Parse.forall_of_statementsFrom (fun t => t.kind = .identifier → Lexeme.IsName t.text)
    (fun st => ∀ d, st = .typeDeclaration d → d.decorators = [] → (entryOf d).IsNamed)
    (fun h heof hnames _ hst hbare => Parse.isNamed_of_statement (hst ▸ h) heof hnames hbare) hread
    (eof_ofSources sources) hnames fun _ h => absurd h List.not_mem_nil
  rw [hprogram]
  exact fun d hd => hall _ (Program.mem_typeDeclarations.1 hd) d rfl

/-- Loading a file lists the types that it declares first under new names, behind those that were loaded before. -/
theorem lists_load (h : Lists (.ofRoot session.root) es) (file : SourceFile) :
    ∃ new, Lists (.ofRoot (session.load file).2.root) (es ++ new) ∧
      new.map Prod.snd = firstOfEach TypeDeclaration.name (session.root.types.map TypeEntry.name)
        (read session.options [file]).program.typeDeclarations := by
  let s : CheckState := { environment := .ofRoot session.root }
  have hs : Lists s.environment es := h
  obtain ⟨new, hnew, hfirsts⟩ := hs.afterDeclarations (read session.options [file]).program.typeDeclarations
  exact ⟨new, hnew.ofRoot, hfirsts⟩

/-- The scope of a program lists the types that it declares first under new names, behind those that are loaded. -/
theorem lists_compile (h : Lists (.ofRoot session.root) es) (sources : List SourceFile) :
    ∃ new, Lists (.ofRoot (session.compile sources).1.scope) (es ++ new) ∧
      new.map Prod.snd = firstOfEach TypeDeclaration.name (session.root.types.map TypeEntry.name)
        (read session.options sources).program.typeDeclarations := by
  let s : CheckState := { environment := .ofRoot session.root, packages := session.packages }
  have hs : Lists s.environment es := h
  obtain ⟨new, hnew, hfirsts⟩ := hs.afterStatements session.options.maxDepth
    (read session.options sources).program.statements
  exact ⟨new, hnew.ofRoot, hfirsts⟩

theorem names_of_forall₂ {ds ds' : List TypeDeclaration} (h : List.Forall₂ (fun d d' => d'.name = d.name) ds ds') :
    ds'.map TypeDeclaration.name = ds.map TypeDeclaration.name := by
  induction h with
  | nil => rfl
  | cons hd _ ih => rw [List.map_cons, List.map_cons, hd, ih]

theorem unplaced_of_restored {ds ds' : List TypeDeclaration} (h : RestoredDeclarations ds ds') :
    ds'.map (fun d => (entryOf d).unplaced) = ds.map fun d => (entryOf d).restored.unplaced := by
  induction h with
  | nil => rfl
  | cons hd _ ih => rw [List.map_cons, List.map_cons, hd, ih]

/-- A session without types takes up all types of a file whose names are free and of their own, in their order. -/
theorem load_of_read (hroot : session.root = .builtin) {file : SourceFile} {ds : List TypeDeclaration}
    (hds : (read session.options [file]).program.typeDeclarations = ds)
    (hnames : (Frame.builtin.types.map TypeEntry.name ++ ds.map TypeDeclaration.name).Nodup) :
    (session.load file).1 = ds.length ∧ ∃ new : List Numbered,
      (session.load file).2.root.declaredTypes = new.map numberedEntry ∧ new.map Prod.snd = ds := by
  let start : CheckState := { environment := .ofRoot .builtin }
  have hstart : Lists start.environment [] := lists_builtin
  obtain ⟨new, hnew, hall⟩ := hstart.afterNew hnames
  have hload : (session.load file).2.root = (declareAll ds start).2.environment.root := by
    show ((read session.options [file]).program.declareTypes (.ofRoot session.root)).environment.root = _
    rw [hroot, ← hds]
    rfl
  have hbefore : session.root.declaredTypes = [] := by
    rw [hroot]
    exact lists_builtin.declaredTypes
  have hadded : (session.load file).1 =
      (session.load file).2.root.declaredTypes.length - session.root.declaredTypes.length := rfl
  rw [hadded, hbefore, hload, hnew.declaredTypes, List.nil_append, ← hall]
  exact ⟨by rw [List.length_map, List.length_map]; rfl, new, rfl, rfl⟩

/-- **A session without types takes up what is restored of each type that a type file was printed for.** -/
theorem load_typeFile {env : Environment} (h : Lists env es) (hnamed : ∀ e ∈ es, (entryOf e.2).IsNamed)
    (hroot : session.root = .builtin) (name : String) :
    (session.load ⟨name, env.root.typeFile⟩).1 = env.root.declaredTypes.length ∧
      (session.load ⟨name, env.root.typeFile⟩).2.root.declaredTypes.map TypeEntry.unplaced =
        env.root.declaredTypes.map fun t => t.restored.unplaced := by
  let file : SourceFile := ⟨name, env.root.typeFile⟩
  have htext : file.text = "\n".intercalate ((es.map Prod.snd).map fun d => (entryOf d).declaration) := by
    rw [List.map_map]
    exact h.typeFile
  obtain ⟨-, written, hwritten, hrestored⟩ := restored_typeFile (List.forall_mem_map.2 hnamed) htext
  -- No two types of a scope share a name, so every name is free when the file is loaded.
  have hnames : (Frame.builtin.types.map TypeEntry.name ++
      (Program.typeDeclarations ⟨written⟩).map TypeDeclaration.name).Nodup := by
    have hdistinct := h.distinct
    rw [List.map_append, List.map_map] at hdistinct
    rw [names_of_forall₂ (hrestored.imp fun _ _ h => congrArg TypeEntry.name h), List.map_map]
    exact hdistinct
  obtain ⟨_, -, hread⟩ := read_declarations hwritten session.options.maxDepth
  have hds : (read session.options [file]).program.typeDeclarations = Program.typeDeclarations ⟨written⟩ :=
    congrArg Program.typeDeclarations (read_of_statementsFrom hread).1
  obtain ⟨hadded, new, hloaded, hnew⟩ := load_of_read hroot hds hnames
  have hunplaced : new.map (fun e => (numberedEntry e).unplaced) =
      (Program.typeDeclarations ⟨written⟩).map fun d => (entryOf d).unplaced := by
    rw [← hnew, List.map_map]
    rfl
  rw [← hrestored.length_eq, List.length_map] at hadded
  rw [unplaced_of_restored hrestored, List.map_map] at hunplaced
  rw [h.declaredTypes, List.length_map, List.map_map, hloaded, List.map_map]
  exact ⟨hadded, hunplaced⟩

/-! ## Whole programs -/

/-- The session behind some loads, the first one first. -/
def loadAll (session : Session) (files : List SourceFile) : Session :=
  files.foldl (fun session file => (session.load file).2) session

theorem options_loadAll : ∀ (files : List SourceFile) (session : Session),
    (session.loadAll files).options = session.options
  | [], _ => rfl
  | file :: files, session => options_loadAll files (session.load file).2

/-- Loads list types that their files declare. -/
theorem lists_loadAll : ∀ (files : List SourceFile) {session : Session} {es : List Numbered},
    Lists (.ofRoot session.root) es → ∃ new, Lists (.ofRoot (session.loadAll files).root) (es ++ new) ∧
      ∀ e ∈ new, ∃ file ∈ files, e.2 ∈ (read session.options [file]).program.typeDeclarations
  | [], _, _, h => ⟨[], by rw [List.append_nil]; exact h, fun _ he => absurd he List.not_mem_nil⟩
  | file :: files, session, es, h => by
    obtain ⟨new, hnew, hfirsts⟩ := lists_load h file
    have hsub := hfirsts ▸ firstOfEach_sublist _ _
    obtain ⟨more, hmore, hfiles⟩ := lists_loadAll files hnew
    refine ⟨new ++ more, List.append_assoc .. ▸ hmore, List.forall_mem_append.2 ⟨fun e he => ?_, fun e he => ?_⟩⟩
    · exact ⟨file, List.mem_cons_self, hsub.subset (List.mem_map_of_mem he)⟩
    · obtain ⟨file', hfile', hd⟩ := hfiles e he
      exact ⟨file', List.mem_cons_of_mem _ hfile', hd⟩

/-- The scope of a program lists types that its type files and the program itself declare. -/
theorem lists_program (options : Options) (files sources : List SourceFile) :
    ∃ es, Lists (.ofRoot (((ofOptions options).loadAll files).compile sources).1.scope) es ∧
      ∀ e ∈ es, (∃ file ∈ files, e.2 ∈ (read options [file]).program.typeDeclarations) ∨
        e.2 ∈ (read options sources).program.typeDeclarations := by
  let fresh := ofOptions options
  let session := fresh.loadAll files
  have hoptions : session.options = options := options_loadAll files fresh
  have hfresh : Lists (.ofRoot fresh.root) [] := lists_builtin
  obtain ⟨loaded, hloaded, hread⟩ : ∃ new, Lists (.ofRoot session.root) new ∧
      ∀ e ∈ new, ∃ file ∈ files, e.2 ∈ (read options [file]).program.typeDeclarations :=
    lists_loadAll files hfresh
  obtain ⟨own, hown, hfirsts⟩ := lists_compile hloaded sources
  have hsub := hfirsts ▸ firstOfEach_sublist _ _
  rw [hoptions] at hsub
  refine ⟨loaded ++ own, hown, List.forall_mem_append.2 ⟨fun e he => .inl (hread e he), fun e he => .inr ?_⟩⟩
  exact hsub.subset (List.mem_map_of_mem he)

/-- **The type file of a program loads as what is restored of its types.**  Whatever a program holds behind whatever
type files, if no type declaration is decorated, then a fresh session that loads the type file of its scope adds as
many types as the scope declares, and they are what is restored of those, in the same order and places apart.  They are
those themselves exactly if no composite type is one of several members of its own. -/
theorem reloaded_of_program (options options' : Options) (files sources : List SourceFile) (name : String)
    (hfiles : ∀ file ∈ files, ∀ d ∈ (read options [file]).program.typeDeclarations, d.decorators = [])
    (hbare : ∀ d ∈ (read options sources).program.typeDeclarations, d.decorators = []) :
    let original := (((ofOptions options).loadAll files).compile sources).1.scope
    let reloaded := (ofOptions options').load ⟨name, original.typeFile⟩
    reloaded.1 = original.declaredTypes.length ∧
      reloaded.2.root.declaredTypes.map TypeEntry.unplaced =
        original.declaredTypes.map (fun t => t.restored.unplaced) ∧
      (reloaded.2.root.declaredTypes.map TypeEntry.unplaced = original.declaredTypes.map TypeEntry.unplaced ↔
        ∀ t ∈ original.declaredTypes, t.ListsItselfAlone) := by
  intro original reloaded
  obtain ⟨es, hes, hread⟩ := lists_program options files sources
  have hnamed : ∀ e ∈ es, (entryOf e.2).IsNamed := by
    intro e he
    rcases hread e he with ⟨file, hfile, hd⟩ | hd
    · exact isNamed_of_read options [file] _ hd (hfiles file hfile _ hd)
    · exact isNamed_of_read options sources _ hd (hbare _ hd)
  obtain ⟨hadded, hreloaded⟩ : reloaded.1 = original.declaredTypes.length ∧
      reloaded.2.root.declaredTypes.map TypeEntry.unplaced =
        original.declaredTypes.map fun t => t.restored.unplaced := load_typeFile hes hnamed rfl name
  refine ⟨hadded, hreloaded, ?_⟩
  have hdeclared : original.declaredTypes = es.map numberedEntry := hes.declaredTypes
  have halone : ∀ t ∈ original.declaredTypes, t.restored.unplaced = t.unplaced ↔ t.ListsItselfAlone := by
    intro t ht
    rw [hdeclared] at ht
    obtain ⟨e, he, rfl⟩ := List.mem_map.1 ht
    exact TypeEntry.restored_unplaced_iff.trans (TypeEntry.restoredTypes_eq_iff (hnamed e he).types.nonempty)
  rw [hreloaded, List.map_inj_left]
  exact forall₂_congr halone

/-- A type file in front, a name that is not declared, a name that is taken, and a composite type without members. -/
theorem reloaded_of_program_struct :
    let files : List SourceFile := [⟨"a.types", "type a: int | num"⟩]
    let sources : List SourceFile := [⟨"m.vp", "type p: struct \x7b x: []a | b \x7d\ntype a: bool"⟩]
    ((∀ file ∈ files, ∀ d ∈ (read {} [file]).program.typeDeclarations, d.decorators = []) ∧
        ∀ d ∈ (read {} sources).program.typeDeclarations, d.decorators = []) ∧
      let original := (((ofOptions {}).loadAll files).compile sources).1.scope
      let reloaded := (ofOptions {}).load ⟨"p.types", original.typeFile⟩
      reloaded.1 = original.declaredTypes.length ∧
        reloaded.2.root.declaredTypes.map TypeEntry.unplaced =
          original.declaredTypes.map (fun t => t.restored.unplaced) ∧
        (reloaded.2.root.declaredTypes.map TypeEntry.unplaced = original.declaredTypes.map TypeEntry.unplaced ↔
          ∀ t ∈ original.declaredTypes, t.ListsItselfAlone) := by
  intro files sources
  have hall : files.all (fun file => (read {} [file]).program.typeDeclarations.all fun d => d.decorators.isEmpty) ∧
      (read {} sources).program.typeDeclarations.all (fun d => d.decorators.isEmpty) := by
    subst files sources
    cbv
  have hfiles : ∀ file ∈ files, ∀ d ∈ (read {} [file]).program.typeDeclarations, d.decorators = [] :=
    fun file hfile d hd => List.isEmpty_iff.1 (List.all_eq_true.1 (List.all_eq_true.1 hall.1 file hfile) d hd)
  have hbare : ∀ d ∈ (read {} sources).program.typeDeclarations, d.decorators = [] :=
    fun d hd => List.isEmpty_iff.1 (List.all_eq_true.1 hall.2 d hd)
  exact ⟨⟨hfiles, hbare⟩, reloaded_of_program {} {} files sources "p.types" hfiles hbare⟩

/-- A list that has itself among its members is loaded as one that has not. -/
theorem reloaded_without_itself :
    let sources : List SourceFile := [⟨"m.vp", "type p: list \x7b p, int \x7d"⟩]
    let compiled := ((ofOptions {}).compile sources).1
    let reloaded := ((ofOptions {}).load ⟨"p.types", compiled.scope.typeFile⟩).2.root
    (compiled.program.typeDeclarations.map fun d => d.decorators.length) = [0] ∧
      (compiled.scope.declaredTypes.map fun t => (t.name, t.types.alternatives)) =
        [("p", [{ name := "p" }, { name := "int" }])] ∧
      (reloaded.declaredTypes.map fun t => (t.name, t.types.alternatives)) = [("p", [{ name := "int" }])] := by
  intro sources compiled reloaded
  subst sources compiled reloaded
  cbv

end Session
end UnionScript
