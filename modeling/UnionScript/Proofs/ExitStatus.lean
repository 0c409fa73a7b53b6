import Mathlib
import UnionScript.CommandLine.Run
import UnionScript.Proofs.Steps
/-!
# ExitStatus — what the exit code of a run says about the diagnostics

A run answers by its exit code whether anything fatal was found.  What it asks are the diagnostics it shows, one a line,
and of a line it shows the first: so the exit code is 1 exactly when some fatal diagnostic is the first one of its line
(`Diagnostic.FatalLeads`).  A fatal diagnostic behind a warning about its line does not count, and if all of them are
such, the run succeeds; otherwise the exit code is 1 exactly when anything fatal was found (`RunOutcome.exitCode_eq`).
-/
namespace UnionScript

/-! ## Diagnostics that are shown -/

/-- What is kept of a list is what comes first in it under its key. -/
theorem mem_firstOfEach {α κ : Type} [DecidableEq κ] {key : α → κ} {a : α} : ∀ {seen : List κ} {items : List α},
    a ∈ firstOfEach key seen items ↔
      key a ∉ seen ∧ ∃ before after, items = before ++ a :: after ∧ ∀ b ∈ before, key b ≠ key a
  | seen, [] => by simp [firstOfEach]
  | seen, b :: rest => by
    constructor
    · intro h
      rw [firstOfEach] at h
      split at h
      · rename_i hb
        obtain ⟨hseen, before, after, rfl, hne⟩ := mem_firstOfEach.1 h
        exact ⟨hseen, b :: before, after, rfl, List.forall_mem_cons.2 ⟨fun e => hseen (e ▸ hb), hne⟩⟩
      · rename_i hb
        rcases List.mem_cons.1 h with rfl | h
        · exact ⟨hb, [], rest, rfl, by simp⟩
        · obtain ⟨hseen, before, after, rfl, hne⟩ := mem_firstOfEach.1 h
          obtain ⟨hab, hseen⟩ := not_or.1 (mt List.mem_cons.2 hseen)
          exact ⟨hseen, b :: before, after, rfl, List.forall_mem_cons.2 ⟨Ne.symm hab, hne⟩⟩
    · rintro ⟨hseen, before, after, hitems, hne⟩
      rw [firstOfEach]
      cases before with
      | nil =>
        obtain ⟨rfl, rfl⟩ := List.cons.inj hitems
        rw [if_neg hseen]
        exact List.mem_cons_self
      | cons c before =>
        obtain ⟨rfl, rfl⟩ := List.cons.inj hitems
        obtain ⟨hb, hne⟩ := List.forall_mem_cons.1 hne
        split
        · exact mem_firstOfEach.2 ⟨hseen, before, after, rfl, hne⟩
        · refine List.mem_cons_of_mem _ (mem_firstOfEach.2 ⟨?_, before, after, rfl, hne⟩)
          exact fun hm => (List.mem_cons.1 hm).elim (fun e => hb e.symm) hseen

namespace Diagnostic

/-- Some fatal diagnostic is the first one of its line. -/
def FatalLeads (ds : List Diagnostic) : Prop :=
  ∃ before d after, ds = before ++ d :: after ∧ d.isFatal = true ∧ ∀ e ∈ before, e.lineKey ≠ d.lineKey

theorem hasFatal_iff {ds : List Diagnostic} : hasFatal ds = true ↔ ∃ d ∈ ds, d.isFatal = true := by
  rw [hasFatal, List.any_eq_true]

theorem FatalLeads.hasFatal {ds : List Diagnostic} : FatalLeads ds → hasFatal ds = true
  | ⟨_, d, _, hds, hd, _⟩ => hasFatal_iff.2 ⟨d, by rw [hds]; simp, hd⟩

/-- Behind a diagnostic that is not fatal nothing about its line leads. -/
theorem not_fatalLeads {d : Diagnostic} {ds : List Diagnostic} (hd : d.isFatal = false)
    (hline : ∀ e ∈ ds, e.lineKey = d.lineKey) : ¬FatalLeads (d :: ds) := by
  rintro ⟨before, e, after, hds, he, hne⟩
  cases before with
  | nil =>
    obtain ⟨rfl, -⟩ := List.cons.inj hds
    rw [hd] at he
    exact nomatch he
  | cons c before =>
    obtain ⟨rfl, rfl⟩ := List.cons.inj hds
    exact hne d List.mem_cons_self (hline e (by simp)).symm

/-- Sorting and showing one diagnostic a line leaves something fatal exactly if that leads its line. -/
theorem hasFatal_view_commandLine {ds : List Diagnostic} :
    hasFatal (view ds .commandLine) = true ↔ FatalLeads ds := by
  rw [hasFatal_iff]
  constructor
  · rintro ⟨d, hmem, hd⟩
    rw [view, sorted, List.mem_mergeSort] at hmem
    obtain ⟨-, before, after, hds, hne⟩ := mem_firstOfEach.1 hmem
    exact ⟨before, d, after, hds, hd, hne⟩
  · rintro ⟨before, d, after, hds, hd, hne⟩
    refine ⟨d, ?_, hd⟩
    rw [view, sorted, List.mem_mergeSort]
    exact mem_firstOfEach.2 ⟨List.not_mem_nil, before, after, hds, hne⟩

end Diagnostic

theorem StrayCharacter.isFatal_diagnostic (s : StrayCharacter) : s.diagnostic.isFatal = false := rfl

theorem StrayCharacter.lineKey_diagnostic (s : StrayCharacter) : s.diagnostic.lineKey = (s.file, s.place.line) := rfl

theorem ParseError.isFatal_diagnostic (e : ParseError) : e.diagnostic.isFatal = true := rfl

theorem ParseError.lineKey_diagnostic (e : ParseError) : e.diagnostic.lineKey = (e.span.file, e.span.first.line) := rfl

/-! ## Steps of a run -/

open Steps

namespace Run

variable {α β : Type}

/-- A step that depends on nothing but its arguments and puts nothing out. -/
def Quiet (step : Run α) : Prop :=
  (∃ a, ∀ s, step s = .ok a s) ∨ ∃ failure, ∀ s, step s = .error failure s

/-- A step that cannot fail, and what it answers. -/
def Yields (step : Run α) (a : α) : Prop :=
  ∀ s, ∃ s', step s = .ok a s'

/-! ### Steps that only read -/

theorem Quiet.pure (a : α) : Quiet (pure a : Run α) := .inl ⟨a, fun _ => rfl⟩

theorem Quiet.throw (failure : RunFailure) : Quiet (throw failure : Run α) := .inr ⟨failure, fun _ => rfl⟩

theorem Quiet.bind {step : Run α} {next : α → Run β} (h : Quiet step) (hnext : ∀ a, Quiet (next a)) :
    Quiet (step >>= next) := by
  rcases h with ⟨a, ha⟩ | ⟨failure, hf⟩
  · rcases hnext a with ⟨b, hb⟩ | ⟨failure, hf⟩
    · exact .inl ⟨b, fun s => (bind_ok (ha s)).trans (hb s)⟩
    · exact .inr ⟨failure, fun s => (bind_ok (ha s)).trans (hf s)⟩
  · exact .inr ⟨failure, fun s => bind_error (hf s)⟩

theorem Quiet.mapM {f : α → Run β} (h : ∀ a, Quiet (f a)) : ∀ items : List α, Quiet (items.mapM f)
  | [] => by
    rw [List.mapM_nil]
    exact .pure _
  | a :: rest => by
    rw [List.mapM_cons]
    exact .bind (h a) fun b => .bind (Quiet.mapM h rest) fun bs => .pure _

/-- What a quiet step does from one state it does from every state. -/
theorem Quiet.ok {step : Run α} (h : Quiet step) {s s' : RunState} {a : α} (hok : step s = .ok a s') (t : RunState) :
    step t = .ok a t := by
  rcases h with ⟨b, hb⟩ | ⟨failure, hf⟩
  · obtain rfl : b = a := by
      have hsame := (hb s).symm.trans hok
      cases hsame
      rfl
    exact hb t
  · exact nomatch (hf s).symm.trans hok

theorem quiet_readFile (node : FileNode) (failure : FileFault → RunFailure) : Quiet (readFile node failure) := by
  unfold readFile
  split
  · exact .pure _
  · exact .throw _

theorem quiet_options (inv : Invocation) (files : Files) : Quiet (options inv files) := by
  unfold options
  split
  · exact .pure _
  · refine .bind (quiet_readFile _ _) fun text => ?_
    split
    · exact .pure _
    · exact .bind (.throw _) fun _ => .pure _

theorem quiet_sources (inv : Invocation) (files : Files) : Quiet (sources inv files) := by
  refine .bind (.mapM (fun path => ?_) _) fun found => ?_
  · split
    · exact .pure _
    · exact .throw _
  · show Quiet (if _ then _ else _)
    split
    · exact .throw _
    · exact .mapM (fun target => .bind (quiet_readFile _ _) fun text => .pure _) _

/-! ### Steps that cannot fail -/

theorem Yields.pure (a : α) : Yields (pure a : Run α) a := fun s => ⟨s, rfl⟩

theorem Yields.bind {step : Run α} {next : α → Run β} {a : α} {b : β} (h : Yields step a) (hnext : Yields (next a) b) :
    Yields (step >>= next) b := by
  intro s
  obtain ⟨t, ha⟩ := h s
  obtain ⟨s', hb⟩ := hnext t
  exact ⟨s', (bind_ok ha).trans hb⟩

theorem Yields.forM {f : α → Run Unit} (h : ∀ a, Yields (f a) ()) : ∀ items : List α, Yields (items.forM f) ()
  | [] => .pure _
  | a :: rest => .bind (h a) (Yields.forM h rest)

theorem yields_put (line : OutputLine) : Yields (put line) () := fun _ => ⟨_, rfl⟩

theorem yields_log (inv : Invocation) (events : List Event) : Yields (log inv events) () :=
  .forM (fun _ => yields_put _) _

theorem yields_showDiagnostic (inv : Invocation) (sources : List SourceFile) (d : Diagnostic) :
    Yields (showDiagnostic inv sources d) () := by
  unfold showDiagnostic
  split
  · exact yields_put _
  · exact .forM (fun _ => yields_put _) _

theorem yields_writeTypes {inv : Invocation} {files : Files} (annotated : AnnotatedProgram)
    (h : ∀ path ∈ inv.typesOut, files.writeFault? path = none) : Yields (writeTypes inv files annotated) () := by
  unfold writeTypes
  split
  · exact .pure _
  · rename_i path hpath
    refine .bind (yields_log _ _) ?_
    rw [h path hpath]
    exact .bind (fun _ => ⟨_, rfl⟩) (yields_log _ _)

/-! ### What is read -/

/-- A source is what a file says. -/
def ReadFrom (files : Files) (path : String) (source : SourceFile) : Prop :=
  source.name = path ∧ (files.look path).read = .ok source.text

/-- What a run has to work with: its options, its type files and its sources, all of which can be read. -/
structure Reads (inv : Invocation) (files : Files) (options : Options) (types sources : List SourceFile) : Prop where
  options : ∀ s, Run.options inv files s = .ok options s
  types : List.Forall₂ (ReadFrom files) inv.types types
  sources : ∀ s, Run.sources inv files s = .ok sources s

theorem yields_loadTypes {inv : Invocation} {files : Files} {path : String} {source : SourceFile}
    (h : ReadFrom files path source) (session : Session) :
    Yields (loadTypes inv files session path) (session.load source).2 := by
  obtain ⟨rfl, hread⟩ := h
  have hfile : Yields (readFile (files.look source.name) (.typesUnreadable source.name)) source.text := by
    rw [readFile, hread]
    exact .pure _
  exact .bind hfile (.bind (yields_log _ _) (.pure _))

theorem readFrom_of_loadTypes {inv : Invocation} {files : Files} {path : String} {session after : Session}
    {s s' : RunState} (h : loadTypes inv files session path s = .ok after s') : ∃ source, ReadFrom files path source := by
  obtain ⟨text, t, hfile, -⟩ := of_bind_ok h
  cases hread : (files.look path).read with
  | ok found => exact ⟨⟨path, found⟩, rfl, hread⟩
  | error fault =>
    rw [readFile, hread] at hfile
    exact nomatch hfile

/-- The session after some type files. -/
def loadAll (session : Session) (types : List SourceFile) : Session :=
  types.foldl (fun session source => (session.load source).2) session

theorem yields_foldlM_loadTypes {inv : Invocation} {files : Files} : ∀ {paths : List String}
    {types : List SourceFile}, List.Forall₂ (ReadFrom files) paths types → ∀ session : Session,
      Yields (paths.foldlM (loadTypes inv files) session) (loadAll session types)
  | [], _, .nil, _ => .pure _
  | _ :: _, _ :: _, .cons h hrest, session =>
    .bind (yields_loadTypes h session) (yields_foldlM_loadTypes hrest _)

theorem readFrom_of_foldlM_loadTypes {inv : Invocation} {files : Files} : ∀ {paths : List String}
    {session after : Session} {s s' : RunState}, paths.foldlM (loadTypes inv files) session s = .ok after s' →
      ∃ types, List.Forall₂ (ReadFrom files) paths types
  | [], _, _, _, _, _ => ⟨[], .nil⟩
  | path :: rest, session, after, s, s', h => by
    obtain ⟨between, t, hfirst, hrest⟩ := of_bind_ok h
    obtain ⟨source, hsource⟩ := readFrom_of_loadTypes hfirst
    obtain ⟨types, htypes⟩ := readFrom_of_foldlM_loadTypes hrest
    exact ⟨source :: types, .cons hsource htypes⟩

end Run

/-! ## The exit code -/

/-- The diagnostics that pile up while type files are loaded and sources checked. -/
def Session.accumulated (options : Options) (types sources : List SourceFile) : List Diagnostic :=
  ((Run.loadAll (.ofOptions options) types).compile sources).2.diagnostics

namespace Run

/-- A run that can read what it needs and write what it should completes, and answers by what it shows. -/
theorem yields_main {inv : Invocation} {files : Files} {options : Options} {types sources : List SourceFile}
    (h : Reads inv files options types sources) (hwrite : ∀ path ∈ inv.typesOut, files.writeFault? path = none) :
    Yields (main inv files)
      (!Diagnostic.hasFatal (Diagnostic.view (Session.accumulated options types sources) .commandLine)) := by
  have hoptions : Yields (Run.options inv files) options := fun s => ⟨s, h.options s⟩
  have hsources : Yields (Run.sources inv files) sources := fun s => ⟨s, h.sources s⟩
  refine .bind hoptions (.bind (yields_foldlM_loadTypes h.types _) (.bind hsources (.bind (yields_log _ _) ?_)))
  refine .bind (yields_log _ _) (.bind (.forM (yields_showDiagnostic _ _) _) (.bind (yields_writeTypes _ hwrite) ?_))
  split
  · exact .bind (yields_put _) (.pure _)
  · exact .bind (.pure _) (.pure _)

theorem writable_of_writeTypes {inv : Invocation} {files : Files} {annotated : AnnotatedProgram} {s s' : RunState}
    (h : writeTypes inv files annotated s = .ok () s') : ∀ path ∈ inv.typesOut, files.writeFault? path = none := by
  intro path hpath
  rw [writeTypes, Option.mem_def.1 hpath] at h
  obtain ⟨_, _, -, h⟩ := of_bind_ok h
  cases hfault : files.writeFault? path with
  | none => rfl
  | some fault =>
    rw [hfault] at h
    exact nomatch h

/-- A run that completes could read what it needs, and write what it should. -/
theorem reads_of_main {inv : Invocation} {files : Files} {clean : Bool} {s s' : RunState}
    (h : main inv files s = .ok clean s') :
    (∃ options types sources, Reads inv files options types sources) ∧
      ∀ path ∈ inv.typesOut, files.writeFault? path = none := by
  obtain ⟨options, t, hoptions, h⟩ := of_bind_ok h
  obtain ⟨session, u, hload, h⟩ := of_bind_ok h
  obtain ⟨sources, v, hsources, h⟩ := of_bind_ok h
  obtain ⟨types, htypes⟩ := readFrom_of_foldlM_loadTypes hload
  refine ⟨⟨options, types, sources, (quiet_options inv files).ok hoptions, htypes,
    (quiet_sources inv files).ok hsources⟩, ?_⟩
  obtain ⟨_, _, -, h⟩ := of_bind_ok h
  obtain ⟨_, _, -, h⟩ := of_bind_ok h
  obtain ⟨_, _, -, h⟩ := of_bind_ok h
  obtain ⟨_, _, hwrite, -⟩ := of_bind_ok h
  exact writable_of_writeTypes hwrite

end Run

namespace RunOutcome

/-- The exit code of a run that can read what it needs and write what it should. -/
theorem exitCode_of_reads {inv : Invocation} {files : Files} {options : Options} {types sources : List SourceFile}
    (h : Run.Reads inv files options types sources) (hwrite : ∀ path ∈ inv.typesOut, files.writeFault? path = none) :
    ((ofInvocation inv files).exitCode = 1 ↔ Diagnostic.FatalLeads (Session.accumulated options types sources)) ∧
      ((ofInvocation inv files).exitCode = 0 ↔ ¬Diagnostic.FatalLeads (Session.accumulated options types sources)) := by
  obtain ⟨s, hmain⟩ := Run.yields_main h hwrite {}
  rw [ofInvocation, EStateM.run, hmain, ← Diagnostic.hasFatal_view_commandLine]
  cases Diagnostic.hasFatal (Diagnostic.view (Session.accumulated options types sources) .commandLine) <;> simp

/-- **The exit code says whether a fatal diagnostic leads its line.**  A run that does not complete has the exit code 2.
A run that completes could read its options, type files and sources, and its exit code is 1 if some fatal diagnostic is
the first one of its line among those that loading and checking accumulate, and 0 otherwise.  So the code tells whether
anything fatal was accumulated exactly when not every fatal diagnostic stands behind another one about its line. -/
theorem exitCode_eq (inv : Invocation) (files : Files) :
    (∃ failure s, (Run.main inv files).run {} = .error failure s) ∧ (ofInvocation inv files).exitCode = 2 ∨
    (∃ clean s, (Run.main inv files).run {} = .ok clean s) ∧
      ∃ options types sources, Run.Reads inv files options types sources ∧
        let found := Session.accumulated options types sources
        let code := (ofInvocation inv files).exitCode
        (code = 1 ↔ Diagnostic.FatalLeads found) ∧ (code = 0 ↔ ¬Diagnostic.FatalLeads found) ∧
          ((code = 1 ↔ Diagnostic.hasFatal found = true) ↔
            (Diagnostic.hasFatal found = true → Diagnostic.FatalLeads found)) := by
  cases hrun : (Run.main inv files).run {} with
  | error failure s => exact .inl ⟨⟨failure, s, rfl⟩, by rw [ofInvocation, hrun]⟩
  | ok clean s =>
    obtain ⟨⟨options, types, sources, hreads⟩, hwrite⟩ := Run.reads_of_main hrun
    obtain ⟨hone, hzero⟩ := exitCode_of_reads hreads hwrite
    refine .inr ⟨⟨clean, s, rfl⟩, options, types, sources, hreads, hone, hzero, ?_⟩
    have hleads : Diagnostic.FatalLeads (Session.accumulated options types sources) →
        Diagnostic.hasFatal (Session.accumulated options types sources) = true := Diagnostic.FatalLeads.hasFatal
    rw [hone]
    exact ⟨Iff.mpr, fun h => ⟨hleads, h⟩⟩

theorem accumulated_of_scan {options : Options} {sources : List SourceFile} {stream : TokenStream}
    {parsed : ParsedProgram} (hscan : TokenStream.scan sources = stream)
    (hparse : ParsedProgram.ofTokens stream.tokens options.maxDepth = parsed) :
    Session.accumulated options [] sources =
      stream.strays.map StrayCharacter.diagnostic ++ parsed.errors.map ParseError.diagnostic ++
        (parsed.program.walk (.ofRoot .builtin) (Session.ofOptions options).packages options.maxDepth).reports.map
          Report.diagnostic := by
  subst hscan hparse
  rfl

/-- An error does not count behind a stray character of its line: here the run finds an error and succeeds. -/
theorem exitCode_of_error_behind_stray :
    let files : Files := .ofTree (.ofFiles "/" [("m.vp", "% let\n")])
    let inv : Invocation := { paths := ["m.vp"] }
    Run.Reads inv files {} [] [⟨"m.vp", "% let\n"⟩] ∧ (∃ clean s, (Run.main inv files).run {} = .ok clean s) ∧
      Diagnostic.hasFatal (Session.accumulated {} [] [⟨"m.vp", "% let\n"⟩]) = true ∧
      (ofInvocation inv files).exitCode = 0 := by
  intro files inv
  have hreads : Run.Reads inv files {} [] [⟨"m.vp", "% let\n"⟩] := by
    refine ⟨fun s => rfl, .nil, fun s => ?_⟩
    subst files inv
    cbv
  have hscan : TokenStream.scan [⟨"m.vp", "% let\n"⟩] =
      ⟨[⟨.keyword .let, "let", "m.vp", ⟨1, 3⟩⟩, ⟨.newline, "\n", "m.vp", ⟨1, 6⟩⟩, ⟨.newline, "\n", "m.vp", ⟨2, 1⟩⟩,
        .endOfFile "m.vp" ⟨2, 1⟩], [⟨"m.vp", ⟨1, 1⟩, '%'⟩]⟩ := by cbv
  have hparse : ParsedProgram.ofTokens [⟨.keyword .let, "let", "m.vp", ⟨1, 3⟩⟩, ⟨.newline, "\n", "m.vp", ⟨1, 6⟩⟩,
      ⟨.newline, "\n", "m.vp", ⟨2, 1⟩⟩, .endOfFile "m.vp" ⟨2, 1⟩] ({} : Options).maxDepth =
        ⟨⟨[]⟩, [.expectedToken "variable name" .newline (.point "m.vp" ⟨1, 6⟩)]⟩ := by cbv
  have hfound : Session.accumulated {} [] [⟨"m.vp", "% let\n"⟩] =
      [StrayCharacter.diagnostic ⟨"m.vp", ⟨1, 1⟩, '%'⟩,
        ParseError.diagnostic (.expectedToken "variable name" .newline (.point "m.vp" ⟨1, 6⟩))] :=
    (accumulated_of_scan hscan hparse).trans rfl
  have hwrite : ∀ path ∈ inv.typesOut, files.writeFault? path = none := by
    intro path h
    cases h
  obtain ⟨s, hmain⟩ := Run.yields_main hreads hwrite {}
  refine ⟨hreads, ⟨_, s, hmain⟩, ?_, (exitCode_of_reads hreads hwrite).2.2 ?_⟩
  · rw [hfound]
    exact Diagnostic.hasFatal_iff.2 ⟨_, List.mem_cons_of_mem _ List.mem_cons_self, ParseError.isFatal_diagnostic _⟩
  · rw [hfound]
    refine Diagnostic.not_fatalLeads (StrayCharacter.isFatal_diagnostic _) fun e he => ?_
    rw [List.mem_singleton.1 he, ParseError.lineKey_diagnostic, StrayCharacter.lineKey_diagnostic]
    rfl

end RunOutcome
end UnionScript
