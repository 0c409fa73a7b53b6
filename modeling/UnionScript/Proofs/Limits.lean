import UnionScript.Proofs.Calls
import UnionScript.Proofs.Places
/-!
# Limits — what a larger limit on nesting changes

A limit on nesting shows only where it is reached.  Where it is, the reader and the checker both report it, and a report
that was made is never taken back, however a reader recovers behind it.  So a reading that ends without an error about
nesting has never run out of room, and with more of it goes the same way (`ReadsOn`); and a walk that ends without such a
finding has seen every expression, and under a larger limit takes the same steps (`WalksOn`).  Put together, a larger
limit changes nothing of a compilation that does not report nesting (`Session.compile_limited`).
-/
namespace UnionScript

/-! ## Readers -/

/-- Whether an error is about nesting. -/
def ParseError.isNesting : ParseError → Bool
  | .nestingTooDeep _ _ => true
  | _ => false

/-- A state in which no error about nesting is recorded. -/
def ParseState.IsQuiet (s : ParseState) : Prop := ∀ e ∈ s.errors, e.isNesting = false

/-- What is recorded stays recorded. -/
theorem ParseState.Continues.isQuiet {s t : ParseState} (h : s.Continues t) (ht : t.IsQuiet) : s.IsQuiet :=
  fun e he => ht e (h.errors.subset he)

namespace Parse

variable {α β : Type}

/-- An end of reading without any error about nesting: none is recorded, and none is failed with. -/
def Quiet : EStateM.Result ParseError ParseState α → Prop
  | .ok _ t => t.IsQuiet
  | .error e t => e.isNesting = false ∧ t.IsQuiet

theorem Quiet.after {p : Parse α} {s : ParseState} (h : Quiet (p s)) : (after p s).IsQuiet := by
  cases hp : p s with
  | ok a t =>
    rw [after_ok hp]
    rw [hp] at h
    exact h
  | error e t =>
    rw [after_error hp]
    rw [hp] at h
    exact h.2

/-- A reader that, where it does not end with an error about nesting, does what another one does. -/
structure ReadsOn (p p' : Parse α) : Prop where
  orderly : Orderly p
  same : ∀ s, Quiet (p s) → p' s = p s

namespace ReadsOn

/-- A reader with no part in it that nests. -/
theorem leaf {p : Parse α} (h : Orderly p) : ReadsOn p p := ⟨h, fun _ _ => rfl⟩

theorem tooDeep (span : Span) (p : Parse α) : ReadsOn (tooDeep span) p :=
  ⟨fun s => .refl s, fun _ h => absurd h.1 Bool.noConfusion⟩

theorem bind {p p' : Parse α} {next next' : α → Parse β} (h : ReadsOn p p') (hnext : ∀ a, ReadsOn (next a) (next' a)) :
    ReadsOn (p >>= next) (p' >>= next') := by
  refine ⟨h.orderly.bind fun a => (hnext a).orderly, fun s hquiet => ?_⟩
  cases hp : p s with
  | ok a t =>
    rw [Steps.bind_ok hp] at hquiet ⊢
    have ht : t.IsQuiet := ((hnext a).orderly t).isQuiet hquiet.after
    have hp' : p' s = .ok a t := (h.same s (hp ▸ ht)).trans hp
    rw [Steps.bind_ok hp']
    exact (hnext a).same t hquiet
  | error e t =>
    rw [Steps.bind_error hp] at hquiet ⊢
    exact Steps.bind_error ((h.same s (hp ▸ hquiet)).trans hp)

theorem nested {p p' : Parse α} (h : ReadsOn p p') : ReadsOn (nested p) (nested p') := by
  refine ⟨h.orderly.nested, fun s hquiet => ?_⟩
  cases hp : p { s with depth := s.depth + 1 } with
  | ok a t =>
    rw [nested_ok hp] at hquiet ⊢
    exact nested_ok ((h.same _ (hp ▸ hquiet)).trans hp)
  | error e t =>
    rw [nested_error hp] at hquiet ⊢
    exact nested_error ((h.same _ (hp ▸ hquiet)).trans hp)

/-- By the number of tokens that are left, as the rounds of a repetition are. -/
theorem rounds {round round' : α → Parse (Round α β)} (h : ∀ a, ReadsOn (round a) (round' a)) (a : α) :
    ReadsOn (rounds round a) (rounds round' a) := by
  have horderly (a : α) : Orderly (Parse.rounds round a) := Orderly.rounds (fun a => (h a).orderly) a
  refine ⟨horderly a, fun s => ?_⟩
  induction hn : s.rest.length using Nat.strongRecOn generalizing a s with
  | ind n ih =>
    intro hquiet
    cases hround : round a s with
    | error e t =>
      rw [rounds_error hround] at hquiet ⊢
      exact rounds_error (((h a).same s (hround ▸ hquiet)).trans hround)
    | ok turn t =>
      -- Whatever comes behind a round, what it recorded is still there.
      have hsame (ht : t.IsQuiet) : round' a s = .ok turn t := ((h a).same s (hround ▸ ht)).trans hround
      cases turn with
      | done b =>
        rw [rounds_done hround] at hquiet ⊢
        exact rounds_done (hsame hquiet)
      | again a' =>
        by_cases hless : t.rest.length < s.rest.length
        · rw [rounds_again hround hless] at hquiet ⊢
          rw [rounds_again (hsame ((horderly a' t).isQuiet hquiet.after)) hless]
          exact ih _ (hn ▸ hless) a' t rfl hquiet
        · rw [rounds_stuck hround hless] at hquiet ⊢
          exact rounds_stuck (hsame hquiet.2) hless

/-- A statement that fails records why, so a failure for lack of room shows behind it as well. -/
theorem recovering {p p' : Parse α} (h : ReadsOn p p') : ReadsOn (recovering p) (recovering p') := by
  refine ⟨h.orderly.recovering, fun s hquiet => ?_⟩
  cases hp : p s with
  | ok a t =>
    rw [recovering_ok hp] at hquiet ⊢
    exact recovering_ok ((h.same s (hp ▸ hquiet)).trans hp)
  | error e t =>
    rw [recovering_error hp] at hquiet ⊢
    have hrecorded := List.forall_mem_cons.1 hquiet
    exact recovering_error ((h.same s (hp ▸ hrecorded)).trans hp)

end ReadsOn

/-- **Every reader that says nothing of nesting reads the same with more room.** -/
theorem readsOn_closed : ReaderRelated fun {_} p p' => ReadsOn p p' where
  pure a := .leaf (orderly_closed.pure a)
  throw e := .leaf (orderly_closed.throw e)
  bind := ReadsOn.bind
  peek := .leaf orderly_closed.peek
  peekKind := .leaf orderly_closed.peekKind
  secondKind := .leaf orderly_closed.secondKind
  lookAhead := .leaf orderly_closed.lookAhead
  advance := .leaf orderly_closed.advance
  unexpected := .leaf orderly_closed.unexpected
  expected what := .leaf (orderly_closed.expected what)
  check kind := .leaf (orderly_closed.check kind)
  skipNewlines := .leaf orderly_closed.skipNewlines
  skipSeparators := .leaf orderly_closed.skipSeparators
  skipEntrySeparators := .leaf orderly_closed.skipEntrySeparators
  tooDeep := ReadsOn.tooDeep
  nested := ReadsOn.nested
  rounds := ReadsOn.rounds
  recovering := ReadsOn.recovering

end Parse

namespace ParsedProgram

variable {limit limit' : Nat}

/-- **A program that is read without an error about nesting is read the same under a larger limit**, with the same
errors. -/
theorem ofTokens_limit (hle : limit ≤ limit') {tokens : List Token}
    (hquiet : ∀ e ∈ (ofTokens tokens limit).errors, e.isNesting = false) :
    ofTokens tokens limit' = ofTokens tokens limit := by
  have hreads := Parse.readsOn_closed.statements (Parse.readsOn_closed.deeperAt_le hle) false
  have hrun : run limit' tokens = run limit tokens := by
    refine hreads.same _ ?_
    show Parse.Quiet (run limit tokens)
    unfold ofTokens at hquiet
    cases hrun : run limit tokens with
    | ok statements t =>
      rw [hrun] at hquiet
      exact fun e he => hquiet e (List.mem_reverse.2 he)
    | error e t =>
      rw [hrun] at hquiet
      exact List.forall_mem_cons.1 fun e he => hquiet e (List.mem_reverse.2 he)
  rw [ofTokens, ofTokens, hrun]

end ParsedProgram

/-! ## Walks -/

namespace Check

variable {α β : Type} {limit limit' : Nat}

/-- A step that, where no nesting is reported behind it, does what another one does. -/
structure WalksOn (step step' : Check α) : Prop where
  proceeds : Proceeds step
  same : ∀ s, ¬(step s).2.ReportsNesting → step' s = step s

namespace WalksOn

/-- A step with no part in it that nests. -/
theorem leaf {step : Check α} (h : Proceeds step) : WalksOn step step := ⟨h, fun _ _ => rfl⟩

/-- What was reported before a step is still reported behind it. -/
theorem quiet_before {step step' : Check α} (h : WalksOn step step') {s : CheckState}
    (hquiet : ¬(step s).2.ReportsNesting) : ¬s.ReportsNesting :=
  let ⟨_, hacts, _⟩ := h.proceeds s
  fun hnesting => hquiet (hacts.reportsNesting hnesting)

theorem bind {step step' : Check α} {next next' : α → Check β} (h : WalksOn step step')
    (hnext : ∀ a, WalksOn (next a) (next' a)) : WalksOn (step >>= next) (step' >>= next') := by
  refine ⟨proceeds_bind h.proceeds fun a => (hnext a).proceeds, fun s hquiet => ?_⟩
  have hsame : step' s = step s := h.same s ((hnext (step s).1).quiet_before hquiet)
  show next' (step' s).1 (step' s).2 = next (step s).1 (step s).2
  rw [hsame]
  exact (hnext (step s).1).same (step s).2 hquiet

/-- What is within a limit is within a larger one. -/
theorem visit (hle : limit ≤ limit') {body body' : Check Union} (step : Nat) (span : Span) (h : WalksOn body body') :
    WalksOn (visit limit step span body) (visit limit' step span body') := by
  refine ⟨proceeds_visit step span h.proceeds, fun s hquiet => ?_⟩
  rw [visit_eq] at hquiet
  rw [visit_eq, visit_eq]
  by_cases hbeyond : limit < s.depth + step
  · rw [if_pos hbeyond] at hquiet
    exact absurd ⟨_, List.mem_cons_self, rfl⟩ hquiet
  · rw [if_neg hbeyond] at hquiet ⊢
    rw [if_neg fun hmore => hbeyond (Nat.lt_of_le_of_lt hle hmore), h.same _ hquiet]

theorem within {body body' : Check Unit} (kind : FrameKind) (h : WalksOn body body') :
    WalksOn (within kind body) (within kind body') :=
  .bind (.leaf (proceeds_change _ fun _ => trivial)) fun _ =>
    .bind h fun _ => .leaf (proceeds_change _ fun _ => trivial)

theorem returning {body body' : Check Unit} (types : Option Union) (h : WalksOn body body') :
    WalksOn (returning types body) (returning types body') :=
  .bind (.leaf (proceeds_act (fun _ => ()) (fun _ => .enter types) fun _ => trivial)) fun _ =>
    .bind h fun _ => .leaf (proceeds_act (fun _ => ()) (fun _ => .leave) fun _ => trivial)

end WalksOn

/-- **Every walk that reports no nesting is the same under a larger limit.** -/
theorem walksOn_closed (hle : limit ≤ limit') : WalkRelated limit limit' fun _ {_} step step' => WalksOn step step' :=
  proceeds_closed.walkRelated .leaf .bind proceeds_report proceeds_declareType (.visit hle) .within .returning

end Check

/-- **A program whose walk reports no nesting is walked the same under a larger limit.** -/
theorem Program.walk_limit {limit limit' : Nat} (hle : limit ≤ limit') {program : Program} {environment : Environment}
    {packages : Option PackageCache}
    (hquiet : ∀ r ∈ (program.walk environment packages limit).reports, r.finding.isNesting = false) :
    program.walk environment packages limit' = program.walk environment packages limit := by
  have hwalks := (Check.walksOn_closed hle).walkStatements program.statements
  have hsame := hwalks.same { environment, packages } (not_reportsNesting hquiet)
  simp only [walk, Check.outcome, StateT.run, hsame]

/-! ## Sessions -/

namespace Session

/-- The session with some limit on nesting in place of its own. -/
def limited (session : Session) (limit : Nat) : Session :=
  { session with options := { session.options with maxDepth := limit } }

/-- Whether some sources are read and checked without a word about nesting, from the reader or from the checker. -/
structure NestsWithin (session : Session) (sources : List SourceFile) : Prop where
  errors : ∀ e ∈ (ParsedProgram.ofTokens (TokenStream.scan sources).tokens session.options.maxDepth).errors,
    e.isNesting = false
  reports : ∀ r ∈ (session.walkOf sources).reports, r.finding.isNesting = false

theorem compile_eq (session : Session) (sources : List SourceFile) :
    session.compile sources = ((read session.options sources).program.annotate (session.walkOf sources),
      { session.add ((read session.options sources).diagnostics ++
            (session.walkOf sources).reports.map Report.diagnostic)
          ((read session.options sources).events ++ (session.walkOf sources).events) with
        packages := (session.walkOf sources).packages }) := rfl

theorem read_limited (session : Session) {sources : List SourceFile} {limit limit' : Nat} (hle : limit ≤ limit')
    (hquiet : ∀ e ∈ (ParsedProgram.ofTokens (TokenStream.scan sources).tokens limit).errors, e.isNesting = false) :
    read (session.limited limit').options sources = read (session.limited limit).options sources := by
  have hparsed : ParsedProgram.ofTokens (TokenStream.scan sources).tokens (session.limited limit').options.maxDepth =
      ParsedProgram.ofTokens (TokenStream.scan sources).tokens (session.limited limit).options.maxDepth :=
    ParsedProgram.ofTokens_limit hle hquiet
  rw [read, read, hparsed]
  rfl

/-- **A larger limit on nesting changes nothing of what does not reach the smaller one.**  If reading and checking some
sources reports no nesting under one limit, then under a larger one it comes to the same checked program, with the same
tree, the same types of its expressions and the same root scope, and to a session that is the same but for the limit,
with the same diagnostics in it, the same events and the same answers of packages. -/
theorem compile_limited (session : Session) (sources : List SourceFile) {limit limit' : Nat} (hle : limit ≤ limit')
    (hquiet : (session.limited limit).NestsWithin sources) :
    (session.limited limit').compile sources =
      (((session.limited limit).compile sources).1, ((session.limited limit).compile sources).2.limited limit') := by
  have hread := read_limited session hle hquiet.errors
  have hwalk : (session.limited limit').walkOf sources = (session.limited limit).walkOf sources := by
    show (read (session.limited limit').options sources).program.walk _ _ limit' = _
    rw [hread]
    exact Program.walk_limit hle hquiet.reports
  rw [compile_eq, compile_eq, hread, hwalk]
  rfl

/-- A program that needs three levels: it is not read under a limit of two, and under the default one it comes to what it
comes to under three. -/
theorem compile_limited_calls :
    let session := fresh {} none
    let sources : List SourceFile := [⟨"m.vp", "f(g(y))\n"⟩]
    ¬(session.limited 2).NestsWithin sources ∧ (session.limited 3).NestsWithin sources ∧
      session.compile sources =
        (((session.limited 3).compile sources).1, ((session.limited 3).compile sources).2.limited defaultDepthLimit) := by
  intro session sources
  have hdeep : (ParsedProgram.ofTokens (TokenStream.scan sources).tokens 2).errors =
      [.nestingTooDeep 2 ⟨"m.vp", ⟨1, 5⟩, ⟨1, 5⟩⟩] := by
    subst sources
    cbv
  have herrors : (ParsedProgram.ofTokens (TokenStream.scan sources).tokens 3).errors = [] := by
    subst sources
    cbv
  have hreports : ((session.limited 3).walkOf sources).reports.map Report.finding = [.nameNotFound "y"] := by
    subst session sources
    cbv
  have hquiet : (session.limited 3).NestsWithin sources := by
    refine ⟨fun e he => ?_, fun r hr => ?_⟩
    · exact absurd (herrors ▸ he) List.not_mem_nil
    · have hfinding := hreports ▸ List.mem_map_of_mem hr
      rw [List.mem_singleton.1 hfinding]
      rfl
  refine ⟨fun hnests => ?_, hquiet, compile_limited session sources (by decide) hquiet⟩
  exact Bool.noConfusion (hnests.errors _ (hdeep ▸ List.mem_singleton_self _))

end Session
end UnionScript
