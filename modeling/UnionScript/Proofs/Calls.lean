import UnionScript.Proofs.Answering
import UnionScript.Proofs.Reloading
/-!
# Calls — a session over many loads and checks

A session is used by calls: it loads type files, checks programs and hands out its diagnostics, in any order.  Its root
scope lists types and nothing else (`Holds`); only loads change it, and they only list more types behind those that are
there.  So a check comes out as it would on a fresh session that made the loads alone, whatever was checked before, and
the diagnostics that have piled up are those of the calls since they were last taken, one call after the other.
-/
namespace UnionScript

open Check
open PackageCache (AnswersAlike)

/-! ## Declaring types alone -/

namespace Check

/-- A scope in which types were declared and nothing else. -/
structure Retyped (env env' : Environment) : Prop where
  inner : env'.inner = []
  root : env'.root = { env.root with types := env'.root.types }

theorem retyped_declareType : ∀ {env : Environment}, env.inner = [] → ∀ t : TypeEntry, Retyped env (env.declareType t)
  | ⟨[], _, _⟩, _, _ => ⟨rfl, rfl⟩

theorem retyped_declareAll : ∀ (ds : List TypeDeclaration) (s : CheckState), s.environment.inner = [] →
    Retyped s.environment (declareAll ds s).2.environment
  | [], _, h => ⟨h, rfl⟩
  | d :: ds, s, h => by
    have hfirst : Retyped s.environment (declareType d s).2.environment := by
      rcases environment_declareType d s with hsame | hdeclared
      · rw [hsame]
        exact ⟨h, rfl⟩
      · rw [hdeclared]
        exact retyped_declareType h (entryOf d)
    have hrest := retyped_declareAll ds (declareType d s).2 hfirst.inner
    rw [declareAll_cons]
    exact ⟨hrest.inner, by rw [hrest.root, hfirst.root]⟩

end Check

namespace Session

/-! ## Calls -/

/-- A call on a session.  A single text is checked as the only source. -/
inductive Call where
  | load (file : SourceFile)
  | compile (sources : List SourceFile)
  | take
  deriving DecidableEq

def perform (session : Session) : Call → Session
  | .load file => (session.load file).2
  | .compile sources => (session.compile sources).2
  | .take => session.take.2

/-- The session after some calls, the first one first. -/
def after (session : Session) (calls : List Call) : Session := calls.foldl perform session

/-- A session that has made no call yet. -/
def fresh (options : Options) (packages : Option PackageCache) : Session := { options, root := .builtin, packages }

def Call.file? : Call → Option SourceFile
  | .load file => some file
  | _ => none

/-- The type files that are loaded by some calls. -/
def loads (calls : List Call) : List SourceFile := calls.filterMap Call.file?

/-- The diagnostics a call comes up with, those apart that were there before. -/
def appended (session : Session) (call : Call) : List Diagnostic := (session.take.2.perform call).diagnostics

/-- The diagnostics that some calls come up with, one call after the other. -/
def appendedAll : Session → List Call → List Diagnostic
  | _, [] => []
  | session, call :: calls => session.appended call ++ appendedAll (session.perform call) calls

variable {session session' : Session} {es : List Numbered}

theorem after_append (session : Session) (calls more : List Call) :
    session.after (calls ++ more) = (session.after calls).after more := List.foldl_append

theorem options_after : ∀ (calls : List Call) (session : Session), (session.after calls).options = session.options
  | [], _ => rfl
  | .load _ :: calls, session => options_after calls (session.load _).2
  | .compile _ :: calls, session => options_after calls (session.compile _).2
  | .take :: calls, session => options_after calls session.take.2

/-! ## Diagnostics -/

/-- A call that does not take the diagnostics puts its own behind them. -/
theorem diagnostics_perform {call : Call} (h : call ≠ .take) :
    (session.perform call).diagnostics = session.diagnostics ++ session.appended call := by
  cases call with
  | load file => exact (congrArg (session.diagnostics ++ ·) (List.nil_append _)).symm
  | compile sources => exact (congrArg (session.diagnostics ++ ·) (List.nil_append _)).symm
  | take => exact absurd rfl h

/-- **Diagnostics pile up call by call** until they are taken. -/
theorem diagnostics_after : ∀ (calls : List Call) (session : Session), .take ∉ calls →
    (session.after calls).diagnostics = session.diagnostics ++ session.appendedAll calls
  | [], _, _ => (List.append_nil _).symm
  | call :: calls, session, h => by
    obtain ⟨hcall, hcalls⟩ := List.ne_and_not_mem_of_not_mem_cons h
    have hrest := diagnostics_after calls (session.perform call) hcalls
    rw [diagnostics_perform hcall.symm, List.append_assoc] at hrest
    exact hrest

/-- Nothing is left of the diagnostics when they were taken, and nothing is there at the start. -/
theorem diagnostics_of_taken {calls : List Call} (hstart : session.diagnostics = [])
    (h : calls = [] ∨ calls.getLast? = some .take) : (session.after calls).diagnostics = [] := by
  rcases h with rfl | hlast
  · exact hstart
  · obtain ⟨before, rfl⟩ := List.getLast?_eq_some_iff.1 hlast
    rw [after_append]
    rfl

/-! ## The root scope -/

/-- A session whose root scope lists some types behind the built-in ones, and nothing else. -/
structure Holds (session : Session) (es : List Numbered) : Prop where
  lists : Lists (.ofRoot session.root) es
  root : session.root = { Frame.builtin with types := Frame.builtin.types ++ es.map numberedEntry }

theorem holds_fresh (options : Options) (packages : Option PackageCache) : (fresh options packages).Holds [] :=
  ⟨lists_builtin, rfl⟩

namespace Holds

theorem types (h : session.Holds es) : session.root.types = Frame.builtin.types ++ es.map numberedEntry := h.lists.types

theorem bindings (h : session.Holds es) : session.root.bindings = [] := by rw [h.root]; rfl

theorem functions (h : session.Holds es) : session.root.functions = [] := by rw [h.root]; rfl

theorem declaredTypes (h : session.Holds es) : session.root.declaredTypes = es.map numberedEntry := h.lists.declaredTypes

/-- The names of the types that are listed behind those of another session. -/
theorem names_of_append {new : List Numbered} (h : session.Holds (es ++ new)) (h' : session'.Holds es) :
    session.root.types.map TypeEntry.name =
      session'.root.types.map TypeEntry.name ++ (new.map Prod.snd).map TypeDeclaration.name :=
  h'.lists.names_append h.lists

/-- Root scopes that list the same are the same. -/
theorem root_eq (h : session.Holds es) (h' : session'.Holds es) : session.root = session'.root := by
  rw [h.root, h'.root]

/-- **A load lists the types that its file declares first under new names**, and tells how many they are. -/
theorem load (h : session.Holds es) (file : SourceFile) :
    ∃ new, (session.load file).2.Holds (es ++ new) ∧
      new.map Prod.snd = firstOfEach TypeDeclaration.name (session.root.types.map TypeEntry.name)
        (read session.options [file]).program.typeDeclarations ∧
      (session.load file).1 = new.length := by
  obtain ⟨new, hnew, hfirsts⟩ := lists_load h.lists file
  have hretyped : (session.load file).2.root = { session.root with types := (session.load file).2.root.types } :=
    (retyped_declareAll (read session.options [file]).program.typeDeclarations
      { environment := .ofRoot session.root } rfl).root
  have htypes : (session.load file).2.root.types = Frame.builtin.types ++ (es ++ new).map numberedEntry := hnew.types
  have hload : (session.load file).2.Holds (es ++ new) := ⟨hnew, by rw [hretyped, htypes, h.root]⟩
  refine ⟨new, hload, hfirsts, ?_⟩
  show (session.load file).2.root.declaredTypes.length - session.root.declaredTypes.length = new.length
  rw [hload.declaredTypes, h.declaredTypes, List.length_map, List.length_map, List.length_append]
  omega

theorem perform (h : session.Holds es) : ∀ call : Call, ∃ new, (session.perform call).Holds (es ++ new)
  | .load file => let ⟨new, hnew, _⟩ := h.load file; ⟨new, hnew⟩
  | .compile _ => ⟨[], by rw [List.append_nil]; exact ⟨h.lists, h.root⟩⟩
  | .take => ⟨[], by rw [List.append_nil]; exact ⟨h.lists, h.root⟩⟩

/-- **Calls list more types behind those that are there.** -/
theorem after : ∀ (calls : List Call) {session : Session} {es : List Numbered}, session.Holds es →
    ∃ new, (session.after calls).Holds (es ++ new)
  | [], _, _, h => ⟨[], by rw [List.append_nil]; exact h⟩
  | call :: calls, session, es, h => by
    obtain ⟨new, hnew⟩ := h.perform call
    obtain ⟨more, hmore⟩ := Holds.after calls hnew
    exact ⟨new ++ more, List.append_assoc .. ▸ hmore⟩

/-- A file none of whose types is new adds nothing. -/
theorem load_known (h : session.Holds es) {file : SourceFile}
    (hknown : ∀ d ∈ (read session.options [file]).program.typeDeclarations,
      d.name ∈ session.root.types.map TypeEntry.name) :
    (session.load file).1 = 0 ∧ (session.load file).2.root = session.root := by
  obtain ⟨new, hnew, hfirsts, hadded⟩ := h.load file
  rw [firstOfEach_of_seen hknown, List.map_eq_nil_iff] at hfirsts
  subst hfirsts
  rw [List.append_nil] at hnew
  exact ⟨hadded, hnew.root_eq h⟩

/-- **A file that has been loaded adds nothing any more**, whatever was called in between. -/
theorem load_again (h : session.Holds es) (file : SourceFile) (calls : List Call) :
    let later := (session.load file).2.after calls
    (later.load file).1 = 0 ∧ (later.load file).2.root = later.root := by
  intro later
  obtain ⟨new, hnew, hfirsts, -⟩ := h.load file
  obtain ⟨more, hlater⟩ := Holds.after calls hnew
  refine hlater.load_known fun d hd => ?_
  have hoptions : later.options = session.options := options_after calls _
  rw [hoptions] at hd
  have hmem : d.name ∈ session.root.types.map TypeEntry.name ++ (new.map Prod.snd).map TypeDeclaration.name :=
    hfirsts ▸ key_mem_of_firstOfEach hd
  have hnames : later.root.types.map TypeEntry.name = _ := hlater.names_of_append hnew
  rw [hnames, hnew.names_of_append h]
  exact List.mem_append_left _ hmem

end Holds

/-- A load makes of a root scope what it makes of the same one elsewhere. -/
theorem root_load (hoptions : session.options = session'.options) (hroot : session.root = session'.root)
    (file : SourceFile) : (session.load file).2.root = (session'.load file).2.root := by
  show ((read session.options [file]).program.declareTypes (.ofRoot session.root)).environment.root = _
  rw [hoptions, hroot]
  rfl

/-- **Only loads change the root scope.** -/
theorem root_after : ∀ (calls : List Call) (session session' : Session), session.options = session'.options →
    session.root = session'.root → (session.after calls).root = (session'.loadAll (loads calls)).root
  | [], _, _, _, hroot => hroot
  | .load file :: calls, session, session', hoptions, hroot =>
    root_after calls (session.load file).2 (session'.load file).2 hoptions
      (root_load hoptions hroot file)
  | .compile sources :: calls, session, session', hoptions, hroot =>
    root_after calls (session.compile sources).2 session' hoptions hroot
  | .take :: calls, session, session', hoptions, hroot => root_after calls session.take.2 session' hoptions hroot

/-! ## Checks -/

theorem packages_loadAll : ∀ (files : List SourceFile) (session : Session),
    (session.loadAll files).packages = session.packages
  | [], _ => rfl
  | file :: files, session => packages_loadAll files (session.load file).2

/-- The walk of a check. -/
def walkOf (session : Session) (sources : List SourceFile) : WalkOutcome :=
  (read session.options sources).program.walk (.ofRoot session.root) session.packages session.options.maxDepth

theorem appended_compile (session : Session) (sources : List SourceFile) : session.appended (.compile sources) =
    (read session.options sources).diagnostics ++ (session.walkOf sources).reports.map Report.diagnostic :=
  List.nil_append _

/-- A check comes out the same wherever the options and the root scope are the same, and packages are answered alike. -/
theorem compile_of_answersAlike (hoptions : session.options = session'.options) (hroot : session.root = session'.root)
    (hpackages : AnswersAlike session.packages session'.packages) (sources : List SourceFile) :
    (session.compile sources).1 = (session'.compile sources).1 ∧
      session.appended (.compile sources) = session'.appended (.compile sources) := by
  obtain ⟨henvironment, htypes, hreports, -⟩ := (read session.options sources).program.walk_of_answersAlike
    (.ofRoot session.root) session.options.maxDepth hpackages
  have hwalk : session'.walkOf sources = (read session.options sources).program.walk (.ofRoot session.root)
      session'.packages session.options.maxDepth := by rw [walkOf, ← hoptions, ← hroot]
  constructor
  · show (read session.options sources).program.annotate (session.walkOf sources) =
      (read session'.options sources).program.annotate (session'.walkOf sources)
    rw [← hoptions, hwalk, Program.annotate, Program.annotate, ← henvironment, ← htypes]
    rfl
  · rw [appended_compile, appended_compile, hwalk, ← hoptions]
    exact congrArg (fun reports => _ ++ List.map Report.diagnostic reports) hreports

/-- Whatever is called, a cache over a static source answers as it did. -/
theorem static_after : ∀ (calls : List Call) (session : Session), (∀ cache ∈ session.packages, cache.IsStatic) →
    PackageCache.answered (session.after calls).packages = PackageCache.answered session.packages ∧
      ∀ cache ∈ (session.after calls).packages, cache.IsStatic
  | [], _, h => ⟨rfl, h⟩
  | .load file :: calls, session, h => static_after calls (session.load file).2 h
  | .take :: calls, session, h => static_after calls session.take.2 h
  | .compile sources :: calls, session, h => by
    obtain ⟨hanswer, hstatic⟩ := (read session.options sources).program.walk_of_static
      (.ofRoot session.root) session.options.maxDepth h
    obtain ⟨hanswer', hstatic'⟩ := static_after calls (session.compile sources).2 hstatic
    exact ⟨hanswer'.trans hanswer, hstatic'⟩

/-! ## All of it together -/

/-- **What calls do to a session.**  Whatever options and cache a session starts with and whatever was called: its root
scope is that of the loads alone, holds no variable and no function, and goes on with the types it has however it is
called.  A load answers how many types it lists behind the others: those that its file declares first under names not
yet known, so that the file adds nothing when it is loaded again.  A check comes out, program and diagnostics, as on a
fresh session that made the same loads alone and has the same source of packages.  And the diagnostics are those that the
calls since the last taking came up with, one after the other.

Two sessions have the same source if the second one shares the cache of the first, which then answers it as it answers the
first (`AnswersAlike`, by reflexivity), or if both start over one static table.  A second cache of its own over a source that
changes its answers by itself is not meant: it asks at another time, and may rightly be told something else. -/
theorem after_calls (options : Options) (packages : Option PackageCache) (calls : List Call) :
    let start : Session := fresh options packages
    let session : Session := start.after calls
    session.root = (start.loadAll (loads calls)).root ∧
    session.root.bindings = [] ∧ session.root.functions = [] ∧
    (∀ more : List Call, ∃ new : List TypeEntry, (session.after more).root.types = session.root.types ++ new ∧
      (session.after more).root.declaredTypes = session.root.declaredTypes ++ new) ∧
    (∀ file : SourceFile, ∃ new : List Numbered,
      new.map Prod.snd = firstOfEach TypeDeclaration.name (session.root.types.map TypeEntry.name)
        (read options [file]).program.typeDeclarations ∧
      (session.load file).1 = new.length ∧
      (session.load file).2.root.types = session.root.types ++ new.map numberedEntry ∧
      (session.load file).2.root.declaredTypes = session.root.declaredTypes ++ new.map numberedEntry ∧
      ∀ more : List Call, let later : Session := (session.load file).2.after more
        (later.load file).1 = 0 ∧ (later.load file).2.root = later.root) ∧
    (∀ (sources : List SourceFile) (other : Option PackageCache),
      (AnswersAlike session.packages other ∨ (∀ cache ∈ packages, cache.IsStatic) ∧ other = packages) →
        let alone : Session := (fresh options other).loadAll (loads calls)
        (session.compile sources).1 = (alone.compile sources).1 ∧
          session.appended (.compile sources) = alone.appended (.compile sources)) ∧
    (∀ call : Call, call ≠ .take → (session.perform call).diagnostics = session.diagnostics ++ session.appended call) ∧
    session.take = (session.diagnostics, { session with diagnostics := [] }) ∧
    ∀ since : List Call, (calls = [] ∨ calls.getLast? = some .take) → .take ∉ since →
      (session.after since).diagnostics = session.appendedAll since := by
  intro start session
  have hstart : start.Holds [] := holds_fresh options packages
  obtain ⟨es, hes⟩ := Holds.after calls hstart
  have hsession : session.Holds es := hes
  have hoptions : session.options = options := options_after calls start
  refine ⟨root_after calls _ _ rfl rfl, hsession.bindings, hsession.functions, fun more => ?_, fun file => ?_,
    fun sources other hother => ?_, fun call => diagnostics_perform, rfl, fun since htaken hsince => ?_⟩
  · obtain ⟨new, hnew⟩ := Holds.after more hsession
    refine ⟨new.map numberedEntry, ?_, ?_⟩
    · rw [hnew.types, hsession.types, List.map_append, List.append_assoc]
    · rw [hnew.declaredTypes, hsession.declaredTypes, List.map_append]
  · obtain ⟨new, hnew, hfirsts, hadded⟩ := hsession.load file
    rw [hoptions] at hfirsts
    refine ⟨new, hfirsts, hadded, ?_, ?_, hsession.load_again file⟩
    · rw [hnew.types, hsession.types, List.map_append, List.append_assoc]
    · rw [hnew.declaredTypes, hsession.declaredTypes, List.map_append]
  · have hroot : session.root = ((fresh options other).loadAll (loads calls)).root := root_after calls _ _ rfl rfl
    have halike : AnswersAlike session.packages other := by
      rcases hother with halike | ⟨hstatic, rfl⟩
      · exact halike
      · obtain ⟨hanswer, hstatic'⟩ := static_after calls start hstatic
        exact PackageCache.answersAlike_of_static hstatic' hstatic hanswer
    refine compile_of_answersAlike ?_ hroot ?_ sources
    · rw [hoptions, options_loadAll]
      rfl
    · rwa [packages_loadAll]
  · rw [diagnostics_after since session hsince, diagnostics_of_taken rfl htaken, List.nil_append]

/-- A program that declares a variable and a type, and asks for a package, leaves nothing to the next one. -/
theorem after_calls_forgets :
    let packages := some (PackageCache.ofTable [("stats", ["median"])])
    let file : SourceFile := ⟨"a.types", "type a: int"⟩
    let calls : List Call := [.load file, .compile [⟨"m.vp", "let x: a = stats::mean\ntype b: a"⟩], .take]
    let sources : List SourceFile := [⟨"n.vp", "stats::mean\nlet x: b"⟩]
    let session := (fresh {} packages).after calls
    let alone := (fresh {} packages).loadAll [file]
    (session.compile sources).1 = (alone.compile sources).1 ∧
      session.appended (.compile sources) = alone.appended (.compile sources) ∧
      (session.after [.load file, .compile sources]).diagnostics = session.appendedAll [.load file, .compile sources] ∧
      (alone.walkOf sources).reports.map Report.finding = [.notExported "mean" "stats", .typeUndefined "b"] := by
  intro packages file calls sources session alone
  have hreports : (alone.walkOf sources).reports.map Report.finding =
      [.notExported "mean" "stats", .typeUndefined "b"] := by
    subst alone sources packages file
    cbv
  obtain ⟨-, -, -, -, -, hcompile, -, -, hpiled⟩ := after_calls {} packages calls
  have hstatic : ∀ cache ∈ packages, cache.IsStatic := fun _ hcache => Option.some.inj hcache ▸ fun _ _ _ => rfl
  obtain ⟨hprogram, hdiagnostics⟩ := hcompile sources packages (.inr ⟨hstatic, rfl⟩)
  refine ⟨hprogram, hdiagnostics, hpiled _ (.inr rfl) (by decide), hreports⟩

end Session
end UnionScript
