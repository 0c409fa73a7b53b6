import UnionScript.Proofs.StatementStages
import UnionScript.Token.Stream
/-!
# Resuming — where reading goes on behind a statement that fails

A statement that fails is passed over up to the first separator, or up to the first closing brace, which is left for the
block around it.  Braces are followed to tell which block that is (`ParseState.openedUpTo`): whatever a statement takes,
read or not, it closes no brace but its own.  So the brace is that of the block the statement stands in exactly if the
statement has left no brace open and none was opened by what is passed over (`Parse.Recovery`), and a block ends at its
own brace exactly if each of its statements leaves none open (`Parse.statements_resume`).
-/
namespace UnionScript

namespace ParseState

/-- The tokens between a state and another one that comes behind it. -/
def upTo (s t : ParseState) : List Token := s.rest.take (s.rest.length - t.rest.length)

/-- How many of the braces opened between two states are still open at the second one.  There is no answer if a brace is
closed between them that was open at the first one; if none is left open, they stand in the same block. -/
def openedUpTo (s t : ParseState) : Option Nat := Parse.openBehind 0 (s.upTo t)

variable {s t u : ParseState}

theorem upTo_of_append {ts : List Token} (h : s.rest = ts ++ t.rest) : s.upTo t = ts := by
  rw [upTo, h, List.length_append, Nat.add_sub_cancel, List.take_left]

theorem upTo_append (h : t.rest <:+ s.rest) : s.upTo t ++ t.rest = s.rest := by
  obtain ⟨ts, hts⟩ := h
  rw [upTo_of_append hts.symm, hts]

theorem upTo_trans (h : t.rest <:+ s.rest) (h' : u.rest <:+ t.rest) : s.upTo u = s.upTo t ++ t.upTo u := by
  refine upTo_of_append ?_
  rw [List.append_assoc, upTo_append h', upTo_append h]

/-- Braces left open in one part and in the next one are left open by both. -/
theorem openedUpTo_trans {m n : Nat} (h : t.rest <:+ s.rest) (h' : u.rest <:+ t.rest) (hm : s.openedUpTo t = some m)
    (hn : t.openedUpTo u = some n) : s.openedUpTo u = some (n + m) := by
  have hbehind := Parse.openBehind_add hn m
  rw [Nat.zero_add] at hbehind
  rw [openedUpTo, upTo_trans h h', Parse.openBehind_append, ← openedUpTo, hm, Option.bind_some, hbehind]

/-- A closing brace in front of which as many braces are closed as opened closes one that was open before. -/
theorem openBehind_of_closing (h : t.rest <:+ s.rest) (heof : t.eof.kind = .eof) (hopened : s.openedUpTo t = some 0)
    (hclose : t.peek.kind = .rightBrace) : Parse.openBehind 0 s.rest = none := by
  rw [← upTo_append h, Parse.openBehind_append, ← openedUpTo, hopened, Option.bind_some]
  cases hrest : t.rest with
  | nil =>
    rw [peek, hrest] at hclose
    exact absurd (heof.symm.trans hclose) (by decide)
  | cons x rest =>
    have hright : x.kind = .rightBrace := by
      rw [peek, hrest] at hclose
      exact hclose
    rw [Parse.openBehind_cons, Parse.braceBehind_right hright]
    rfl

end ParseState

namespace Parse

/-! ## Statements that fail -/

/-- Where a statement gives up: behind what it has taken, and behind its first token at least. -/
def givenUp (s t : ParseState) : ParseState := if t.rest.length = s.rest.length then { t with rest := t.rest.tail } else t

/-- What becomes of a statement that fails: where it begins, where it gives up, and where reading goes on. -/
structure Recovery (s g t : ParseState) : Prop where
  taken : s.rest = s.upTo g ++ g.rest
  eager : s.upTo g ≠ []
  passed : g.rest = g.upTo t ++ t.rest
  passes : Passes (g.upTo t) t.rest
  own : s.peek.kind ≠ .rightBrace → ∃ n, s.openedUpTo g = some n
  stays : s.openedUpTo t = some 0 ↔ s.openedUpTo g = some 0 ∧ ∀ x ∈ g.upTo t, x.kind ≠ .leftBrace
  top : openBehind 0 s.rest ≠ none → t.peek.kind = .rightBrace → s.openedUpTo t ≠ some 0

variable {room : Nat} {inBlock : Bool} {s t u : ParseState} {e : ParseError}

theorem resumed_rest : (resumed s e t).rest = resume (givenUp s t).rest := by
  rw [resumed, givenUp]
  split <;> rfl

/-- The stage in front of a statement when it is asked what braces it opens and closes. -/
def alone : Stage :=
  { Stage.first with unclosed := ⟨0, some 0⟩, knows := fun s => s.peek.kind ≠ .eof ∧ s.peek.kind ≠ .rightBrace }

/-- Where a statement gives up, it has closed no brace but its own, unless it begins with a closing one. -/
theorem givenUp_opens (heof : s.eof.kind = .eof) (hrest : s.rest ≠ []) (h : statement (deeperAt room) s = .error e t) :
    (givenUp s t).rest <:+ s.rest ∧ (givenUp s t).rest ≠ s.rest ∧
      (s.peek.kind ≠ .rightBrace → ∃ n, s.openedUpTo (givenUp s t) = some n) := by
  have hfails : Fails (alone.knowing fun _ => True) s t := (Reads.statement (Reads.deeperAt room)).error ⟨heof, trivial⟩ h
  obtain ⟨ts, hts, hopens⟩ := hfails.braces
  by_cases hsame : t.rest.length = s.rest.length
  · have hnil : ts = [] := by
      rw [hts, List.length_append] at hsame
      exact List.eq_nil_of_length_eq_zero (by omega)
    rw [hnil, List.nil_append] at hts
    obtain ⟨x, rest, hx⟩ := List.exists_cons_of_ne_nil hrest
    have hgiven : (givenUp s t).rest = rest := by
      rw [givenUp, if_pos hsame, ← hts, hx]
      rfl
    have hupTo : s.upTo (givenUp s t) = [x] := ParseState.upTo_of_append (by rw [hgiven, hx]; rfl)
    have hpeek : s.peek = x := by
      rw [ParseState.peek, hx]
      rfl
    refine ⟨?_, ?_, fun hright => ?_⟩
    · rw [hgiven, hx]
      exact List.suffix_cons x rest
    · rw [hgiven, hx]
      exact fun e => absurd (congrArg List.length e) (Nat.ne_of_lt (Nat.lt_succ_self _))
    · rw [ParseState.openedUpTo, hupTo]
      exact ⟨_, openBehind_of_unclosing fun y hy => List.mem_singleton.1 hy ▸ hpeek ▸ hright⟩
  · have hgiven : givenUp s t = t := if_neg hsame
    obtain ⟨-, n, -, hn, -⟩ := hopens 0 rfl
    rw [hgiven]
    refine ⟨⟨ts, hts.symm⟩, fun e => hsame (congrArg List.length e), fun _ => ⟨n, ?_⟩⟩
    rw [ParseState.openedUpTo, ParseState.upTo_of_append hts, hn]

/-- **A statement that fails**, wherever it begins, is passed over up to a separator or a closing brace, and that is the
brace of the block it stands in exactly if the statement has left no brace open and none is passed over. -/
theorem recovery_of_error (heof : s.eof.kind = .eof) (hrest : s.rest ≠ []) (h : statement (deeperAt room) s = .error e t) :
    Recovery s (givenUp s t) (resumed s e t) := by
  obtain ⟨hsuffix, hne, hown⟩ := givenUp_opens heof hrest h
  obtain ⟨passed, hpassed, hpasses⟩ := exists_passed (givenUp s t).rest
  rw [← resumed_rest (e := e)] at hpassed hpasses
  have hupTo : (givenUp s t).upTo (resumed s e t) = passed := ParseState.upTo_of_append hpassed
  have hresumed : (resumed s e t).rest <:+ (givenUp s t).rest := ⟨passed, hpassed.symm⟩
  have heof' : (resumed s e t).eof.kind = .eof :=
    (orderly_closed.statement (orderly_closed.deeperAt room)).error h |>.eof ▸ heof
  refine ⟨(ParseState.upTo_append hsuffix).symm, fun hnil => hne ?_, hupTo ▸ hpassed, hupTo ▸ hpasses, hown, ?_, ?_⟩
  · have hsplit := ParseState.upTo_append hsuffix
    rwa [hnil, List.nil_append] at hsplit
  · -- What is passed over closes nothing, so what it opens is added to what is open in front of it.
    rw [ParseState.openedUpTo, ParseState.upTo_trans hsuffix hresumed, openBehind_append, ← ParseState.openedUpTo, hupTo]
    cases s.openedUpTo (givenUp s t) with
    | none => simp
    | some n =>
      rw [Option.bind_some, openBehind_of_unclosing hpasses.unclosing, Option.some.injEq, Option.some.injEq,
        Nat.add_eq_zero_iff, List.countP_eq_zero]
      simp
  · intro hopen hclose hstays
    exact hopen (ParseState.openBehind_of_closing (hresumed.trans hsuffix) heof' hstays hclose)

/-! ## Runs of statements -/

/-- Statements read one after the other: where each of them begins, and where reading goes on behind it. -/
inductive Turns (room : Nat) (inBlock : Bool) : ParseState → List (ParseState × ParseState) → ParseState → Prop where
  | done {s : ParseState} : stops inBlock (skipped s) → Turns room inBlock s [] (skipped s)
  | turn {s t : ParseState} {turns : List (ParseState × ParseState)} : ¬stops inBlock (skipped s) →
      Turns room inBlock (next room (skipped s)).2 turns t →
      Turns room inBlock s ((skipped s, (next room (skipped s)).2) :: turns) t

theorem continues_next : s.Continues (next room s).2 :=
  (Orderly.recovering (orderly_closed.statement (orderly_closed.deeperAt room))).ok (recovering_statement _)

theorem eof_next (heof : s.eof.kind = .eof) : (next room (skipped s)).2.eof.kind = .eof :=
  (continues_next (s := skipped s)).eof ▸ heof

/-- A run of statements takes turns. -/
theorem exists_turns (room : Nat) (inBlock : Bool) (heof : s.eof.kind = .eof) (taken : List Statement) : ∃ read turns t,
    statementsFrom room inBlock taken s = .ok read t ∧ Turns room inBlock s turns t := by
  induction hn : s.rest.length using Nat.strongRecOn generalizing s taken with
  | ind n ih =>
    by_cases hstops : stops inBlock (skipped s)
    · exact ⟨taken, [], skipped s, by rw [statementsFrom_eq heof, if_pos hstops], .done hstops⟩
    · have hless : (next room (skipped s)).2.rest.length < n :=
        hn ▸ Nat.lt_of_lt_of_le (length_next_lt (skipped_rest_ne_nil heof hstops)) (length_skipped_le s)
      obtain ⟨read, turns, t, hread, hturns⟩ := ih _ hless (eof_next heof) (taken ++ (next room (skipped s)).1.toList) rfl
      exact ⟨read, _, t, by rw [statementsFrom_eq heof, if_neg hstops, hread], .turn hstops hturns⟩

namespace Turns

variable {turns : List (ParseState × ParseState)}

theorem stops (h : Turns room inBlock s turns t) : Parse.stops inBlock t := by
  induction h with
  | done hstops => exact hstops
  | turn _ _ ih => exact ih

theorem continues (h : Turns room inBlock s turns t) : s.Continues t := by
  induction h with
  | done _ => exact Orderly.skip _ _
  | turn _ _ ih => exact ((Orderly.skip _ _).trans continues_next).trans ih

/-- Each turn is one of a statement, which begins where the run does not stop. -/
theorem next_of_mem (h : Turns room inBlock s turns t) (heof : s.eof.kind = .eof) {turn : ParseState × ParseState}
    (hturn : turn ∈ turns) : turn.1.eof.kind = .eof ∧ ¬Parse.stops inBlock turn.1 ∧ turn.2 = (next room turn.1).2 := by
  induction h with
  | done _ => exact nomatch hturn
  | turn hstops _ ih =>
    rcases List.mem_cons.1 hturn with rfl | hturn
    · exact ⟨heof, hstops, rfl⟩
    · exact ih (eof_next heof) hturn

end Turns

/-- A turn closes no brace but its own, and leaves one open only if an error is recorded. -/
theorem next_opens (room : Nat) (heof : s.eof.kind = .eof) (hstops : ¬stops true s) :
    ∃ n, s.openedUpTo (next room s).2 = some n ∧ ((next room s).2.errors = s.errors → n = 0) := by
  have hreads : Reads alone (recovering (statement (deeperAt room))) _ :=
    .recovering (fun _ => .statement (Reads.deeperAt room)) Nat.one_pos (fun _ h => h.1) fun _ h hright => absurd hright h.2
  have hknows : alone.knows s := ⟨fun h => hstops (.inl h), fun h => hstops (.inr ⟨rfl, h⟩)⟩
  have hleads := hreads.ok ⟨heof, hknows⟩ (recovering_statement s)
  obtain ⟨ts, hts, hopens⟩ := hleads.braces
  obtain ⟨m, n, hm, hn, -, hexact⟩ := hopens 0 rfl
  have hzero : m = 0 := by
    cases hread : (next room s).1 <;> rw [hread] at hm <;> exact (Option.some.inj hm).symm
  refine ⟨n, ?_, fun herrors => (hexact herrors).trans hzero⟩
  rw [ParseState.openedUpTo, ParseState.upTo_of_append hts, hn]

theorem openedUpTo_skipped : s.openedUpTo (skipped s) = some 0 := by
  have hsplit : s.rest = s.rest.takeWhile isSeparator ++ (skipped s).rest := List.takeWhile_append_dropWhile.symm
  rw [ParseState.openedUpTo, ParseState.upTo_of_append hsplit]
  refine openBehind_of_plain fun t ht => ?_
  have hseparator := List.mem_takeWhile_imp ht
  constructor <;> intro hkind <;> rw [isSeparator, hkind] at hseparator <;> exact absurd hseparator (by decide)

/-- What is left open where a block ends is what its turns have left open. -/
theorem Turns.opens {turns : List (ParseState × ParseState)} (h : Turns room inBlock s turns t) (hblock : inBlock = true)
    (heof : s.eof.kind = .eof) :
    ∃ n, s.openedUpTo t = some n ∧ (n = 0 ↔ ∀ turn ∈ turns, turn.1.openedUpTo turn.2 = some 0) := by
  induction h with
  | done _ => exact ⟨0, openedUpTo_skipped, by simp⟩
  | @turn s t turns hstops hturns ih =>
    obtain ⟨m, hm, -⟩ := next_opens room (s := skipped s) heof (hblock ▸ hstops)
    obtain ⟨n, hn, hzero⟩ := ih (eof_next heof)
    have hskipped : (skipped s).rest <:+ s.rest := List.dropWhile_suffix _
    have hturn := ParseState.openedUpTo_trans hskipped continues_next.rest openedUpTo_skipped hm
    refine ⟨n + (m + 0), ParseState.openedUpTo_trans (continues_next.rest.trans hskipped) hturns.continues.rest hturn hn, ?_⟩
    rw [List.forall_mem_cons, ← hzero, hm, Option.some.injEq]
    omega

/-- **Where reading goes on**: statements are read in turns until the run stops, inside a block at a closing brace.  One
that fails is passed over as `Recovery` tells, and the block ends at its own brace exactly if each turn leaves no brace
open, as each does that records no error. -/
theorem statements_resume (room : Nat) (inBlock : Bool) {s : ParseState} (heof : s.eof.kind = .eof) :
    ∃ read turns t, statements (deeperAt room) inBlock s = .ok read t ∧ Turns room inBlock s turns t ∧ stops inBlock t ∧
      (∀ turn ∈ turns, ∀ e u, statement (deeperAt room) turn.1 = .error e u →
        turn.2 = resumed turn.1 e u ∧ Recovery turn.1 (givenUp turn.1 u) turn.2) ∧
      (inBlock = true →
        (∃ n, s.openedUpTo t = some n ∧ (n = 0 ↔ ∀ turn ∈ turns, turn.1.openedUpTo turn.2 = some 0)) ∧
        ∀ turn ∈ turns, turn.2.errors = turn.1.errors → turn.1.openedUpTo turn.2 = some 0) := by
  obtain ⟨read, turns, t, hread, hturns⟩ := exists_turns room inBlock heof []
  refine ⟨read, turns, t, hread, hturns, hturns.stops, fun turn hturn e u herror => ?_, fun hblock =>
    ⟨hturns.opens hblock heof, fun turn hturn herrors => ?_⟩⟩
  · obtain ⟨heof', hstops, hnext⟩ := hturns.next_of_mem heof hturn
    have hrest : turn.1.rest ≠ [] := fun hnil => hstops (.inl (by rw [ParseState.peek, hnil]; exact heof'))
    have hresumed : turn.2 = resumed turn.1 e u := by rw [hnext, next_error herror]
    exact ⟨hresumed, hresumed ▸ recovery_of_error heof' hrest herror⟩
  · obtain ⟨heof', hstops, hnext⟩ := hturns.next_of_mem heof hturn
    obtain ⟨n, hn, hzero⟩ := next_opens room heof' (hblock ▸ hstops)
    rw [hnext] at herrors ⊢
    rw [hn, hzero herrors]

/-- A number is no name for a binding; behind the statement that fails reading goes on in the same block. -/
theorem statements_resume_behind_number :
    let s : ParseState := .ofTokens ({ name := "m.vp", text := "let 1\nx\n\x7d\n" } : SourceFile).tokens
    s.eof.kind = .eof ∧ ∃ read turns t, statements (deeperAt 2) true s = .ok read t ∧ Turns 2 true s turns t ∧
      stops true t ∧
      ∃ n, s.openedUpTo t = some n ∧ (n = 0 ↔ ∀ turn ∈ turns, turn.1.openedUpTo turn.2 = some 0) := by
  intro s
  have heof : s.eof.kind = .eof := by
    subst s
    cbv
  obtain ⟨read, turns, t, hread, hturns, hstops, -, hends⟩ := statements_resume 2 true heof
  exact ⟨heof, read, turns, t, hread, hturns, hstops, (hends rfl).1⟩

/-- A brace in the place of a name is passed over, and so the one that closes it ends the block around the statement: the
function is left without its `return`, and its own closing brace is reported as out of place. -/
theorem statements_resume_inside_braces :
    let source : SourceFile := { name := "m.vp", text := "func f() \x7b\n  let \x7b \x7d\n  return 1\n\x7d\n" }
    let start := ParseState.ofTokens source.tokens
    let s : ParseState := { start with rest := start.rest.drop 6 }
    let parsed := ParsedProgram.ofTokens source.tokens 8
    let span (first last : Position) : Span := ⟨"m.vp", first, last⟩
    openBehind 0 start.rest = some 0 ∧ s.peek.kind = .keyword .let ∧
      (next 6 s).1 = none ∧ (next 6 s).2.peek = ⟨.rightBrace, "\x7d", "m.vp", ⟨2, 9⟩⟩ ∧
      s.openedUpTo (next 6 s).2 = some 1 ∧
      parsed.errors = [.expectedToken "variable name" .leftBrace (span ⟨2, 7⟩ ⟨2, 7⟩),
        .unexpectedToken .rightBrace "\x7d" (span ⟨4, 1⟩ ⟨4, 1⟩)] ∧
      parsed.program.statements = [
        .expression (.function (span ⟨1, 1⟩ ⟨2, 9⟩)
          { name := some "f", nameSpan := span ⟨1, 6⟩ ⟨1, 6⟩, receiver := none, parameters := [], returnTypes := none,
            body := ⟨[], span ⟨1, 10⟩ ⟨2, 9⟩⟩, decorators := [] }),
        .return (some (.literal (span ⟨3, 10⟩ ⟨3, 10⟩) (.integer "1"))) (span ⟨3, 3⟩ ⟨3, 10⟩)] := by
  intro source start s parsed span
  subst s start parsed source span
  cbv

end Parse
end UnionScript
