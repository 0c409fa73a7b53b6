import UnionScript.Proofs.StatementStages
/-!
# Budget — programs are read within their tokens

Whatever tokens are given, reading them as a program comes to their end: no repetition goes on without taking a token,
no token is taken where none is left, and no level of nesting is given back that was not taken.  And each statement of
the program, at whatever level, and each error has a token of its own (`ParsedProgram.run_completes`).
-/
namespace UnionScript

namespace ParseState

/-- The tokens that are read from: the ones given, with an end of file behind them unless they end with one. -/
def padded (tokens : List Token) : List Token :=
  if tokens.getLast?.any (·.kind == .eof) then tokens else tokens ++ [missingEnd tokens]

/-- How many of the tokens have been taken: the place of the next one among them. -/
def place (tokens : List Token) (s : ParseState) : Nat := (ofTokens tokens).rest.length - s.rest.length

/-- What is read stands in front of the first end of file, and there always is one. -/
theorem exists_padded (tokens : List Token) :
    ∃ behind, padded tokens = (ofTokens tokens).rest ++ (ofTokens tokens).eof :: behind := by
  have hsplit : tokens.takeWhile isProper ++ tokens.dropWhile isProper = tokens := List.takeWhile_append_dropWhile
  unfold padded ofTokens
  cases hdrop : tokens.dropWhile isProper with
  | nil =>
    rw [hdrop, List.append_nil] at hsplit
    have hproper : ∀ t ∈ tokens.getLast?, (t.kind == .eof) = false := fun t ht =>
      beq_false_of_ne (bne_iff_ne.1 (List.dropWhile_eq_nil_iff.1 hdrop t (List.mem_of_mem_getLast? ht)))
    have hlast : tokens.getLast?.any (·.kind == .eof) = false := by
      cases hlast : tokens.getLast? with
      | none => rfl
      | some t => exact hproper t hlast
    refine ⟨[], ?_⟩
    rw [hlast, hsplit]
    rfl
  | cons t behind =>
    rw [hdrop] at hsplit
    refine ⟨if tokens.getLast?.any (·.kind == .eof) then behind else behind ++ [missingEnd tokens], ?_⟩
    split
    · exact hsplit.symm
    · show tokens ++ [missingEnd tokens] = tokens.takeWhile isProper ++ t :: (behind ++ [missingEnd tokens])
      rw [← List.cons_append, ← List.append_assoc, hsplit]

/-- **The next token is always one of the tokens**, at whatever place reading has come to. -/
theorem getElem?_place {tokens : List Token} {s : ParseState} (h : (ofTokens tokens).Continues s) :
    (padded tokens)[place tokens s]? = some s.peek := by
  obtain ⟨behind, hpadded⟩ := exists_padded tokens
  obtain ⟨taken, htaken⟩ := h.rest
  have hplace : place tokens s = taken.length := by
    rw [place, ← htaken, List.length_append, Nat.add_sub_cancel]
  rw [hpadded, ← htaken, hplace, List.append_assoc, List.getElem?_append_right (Nat.le_refl _), Nat.sub_self, peek, h.eof]
  cases s.rest <;> rfl

end ParseState

namespace ParsedProgram

open ParseState (padded place)

/-- **Reading a program completes within its tokens**, whatever they are and however little nesting is allowed: it
answers, nothing has happened that must not, every level of nesting is given back, all tokens in front of the first end
of file are taken, and what is next was one of the tokens all along.  The statements at all levels and the errors are
together no more than the tokens that are not ends of files. -/
theorem run_completes (limit : Nat) (tokens : List Token) : ∃ statements s,
    run limit tokens = .ok statements s ∧ ofTokens tokens limit = ⟨⟨statements⟩, s.errors.reverse⟩ ∧
    s.fault = false ∧ s.depth = 0 ∧ s.rest = [] ∧
    (∀ t, (ParseState.ofTokens tokens).Continues t → (padded tokens)[place tokens t]? = some t.peek) ∧
    (ofTokens tokens limit).program.statementCount + (ofTokens tokens limit).errors.length ≤
      tokens.countP (·.kind != .eof) := by
  have heof := ParseState.eof_kind_ofTokens tokens
  obtain ⟨statements, s, hcontinues, hstops, hread⟩ : ∃ read t, (ParseState.ofTokens tokens).Continues t ∧
      Parse.stops false t ∧ ∀ taken,
        Parse.statementsFrom limit false taken (ParseState.ofTokens tokens) = .ok (taken ++ read) t :=
    Parse.statementsFrom_ok heof
  have hrun : run limit tokens = .ok statements s := hread []
  have hof : ofTokens tokens limit = ⟨⟨statements⟩, s.errors.reverse⟩ := by rw [ofTokens, hrun]
  have hleads : Parse.Leads .first (ParseState.ofTokens tokens) (Parse.Stage.first.holding (heldInStatements statements)) s :=
    (Parse.Reads.statements (Parse.Reads.deeperAt limit) false Nat.one_pos fun _ => rfl).ok ⟨heof, trivial⟩ hrun
  have hrest : s.rest = [] := by
    cases hs : s.rest with
    | nil => rfl
    | cons t rest =>
      have hproper : ParseState.isProper t = true :=
        List.mem_takeWhile_imp (hcontinues.rest.subset (hs ▸ List.mem_cons_self))
      have hpeek : s.peek = t := by rw [ParseState.peek, hs]; rfl
      rcases hstops with hend | ⟨hblock, -⟩
      · exact absurd (hpeek ▸ hend) (bne_iff_ne.1 hproper)
      · exact absurd hblock Bool.false_ne_true
  refine ⟨statements, s, hrun, hof, hleads.fault, hcontinues.depth, hrest, fun t => ParseState.getElem?_place, ?_⟩
  have hdue : s.rest.length + s.errors.length + (1 + heldInStatements statements) ≤
      (tokens.takeWhile ParseState.isProper).length + 1 := hleads.due
  have hcount : (tokens.takeWhile ParseState.isProper).length ≤ tokens.countP (·.kind != .eof) := by
    rw [← List.countP_eq_length.2 fun t ht => List.mem_takeWhile_imp ht]
    exact (List.takeWhile_prefix _).sublist.countP_le
  rw [hof]
  show heldInStatements statements + s.errors.reverse.length ≤ _
  rw [List.length_reverse]
  omega

end ParsedProgram
end UnionScript
