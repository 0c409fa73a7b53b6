import UnionScript.Proofs.Orderly
/-!
# Sequence — statements read one after the other

Reading statements never fails: each round skips separators and then stops or takes a token at least, be it as a
statement or as one that is recorded as an error (`statementsFrom_eq`).  So a run of statements is what its rounds add
up to, whatever was read before it (`statementsFrom_ok`), and separators in front of it play no part.
-/
namespace UnionScript

namespace ParseState

theorem eof_kind_missingEnd (tokens : List Token) : (missingEnd tokens).kind = .eof := by
  unfold missingEnd
  split <;> rfl

theorem eof_kind_ofTokens (tokens : List Token) : (ofTokens tokens).eof.kind = .eof := by
  show ((tokens.dropWhile isProper).head?.getD (missingEnd tokens)).kind = .eof
  cases hdrop : (tokens.dropWhile isProper).head? with
  | none => exact eof_kind_missingEnd tokens
  | some t =>
    have hproper := List.head?_dropWhile_not isProper tokens
    rw [hdrop] at hproper
    simpa [isProper] using hproper

end ParseState

namespace Parse

/-- A round of reading statements. -/
def statementRound (deeper : Deeper) (inBlock : Bool) (taken : List Statement) :
    Parse (Round (List Statement) (List Statement)) := do
  skipSeparators
  let kind ← peekKind
  if kind = .eof ∨ (inBlock ∧ kind = .rightBrace) then
    return .done taken
  else
    match ← recovering (statement deeper) with
    | some s => return .again (taken ++ [s])
    | none => return .again taken

/-- Reads on when some statements are taken. -/
def statementsFrom (room : Nat) (inBlock : Bool) (taken : List Statement) : Parse (List Statement) :=
  rounds (statementRound (deeperAt room) inBlock) taken

theorem statements_eq (room : Nat) (inBlock : Bool) :
    statements (deeperAt room) inBlock = statementsFrom room inBlock [] := rfl

/-- The state behind the separators at the front. -/
def skipped (s : ParseState) : ParseState := { s with rest := s.rest.dropWhile isSeparator }

/-- Whether a run of statements ends where it is. -/
def stops (inBlock : Bool) (s : ParseState) : Prop :=
  s.peek.kind = .eof ∨ (inBlock ∧ s.peek.kind = .rightBrace)

instance (inBlock : Bool) (s : ParseState) : Decidable (stops inBlock s) :=
  inferInstanceAs (Decidable (_ ∨ _))

/-- What is left where a statement failed, given where it began. -/
def resumed (s : ParseState) (e : ParseError) (t : ParseState) : ParseState :=
  { t.record e with rest := resume (if t.rest.length = s.rest.length then t.rest.tail else t.rest) }

/-- The statement that is read next, if it can be read, and the state behind it. -/
def next (room : Nat) (s : ParseState) : Option Statement × ParseState :=
  match statement (deeperAt room) s with
  | .ok st t => (some st, t)
  | .error e t => (none, resumed s e t)

variable {room : Nat} {inBlock : Bool} {s : ParseState}

theorem next_ok {st : Statement} {t : ParseState} (h : statement (deeperAt room) s = .ok st t) :
    next room s = (some st, t) := by
  rw [next, h]

theorem next_error {e : ParseError} {t : ParseState} (h : statement (deeperAt room) s = .error e t) :
    next room s = (none, resumed s e t) := by
  rw [next, h]

theorem recovering_statement (s : ParseState) :
    recovering (statement (deeperAt room)) s = .ok (next room s).1 (next room s).2 := by
  cases h : statement (deeperAt room) s with
  | ok st t => rw [recovering_ok h, next_ok h]
  | error e t => rw [recovering_error h, next_error h, resumed]

/-- What is read next takes a token, whether it can be read or not. -/
theorem length_next_lt (hrest : s.rest ≠ []) : (next room s).2.rest.length < s.rest.length := by
  have hd := orderly_closed.deeperAt room
  cases h : statement (deeperAt room) s with
  | ok st t =>
    rw [next_ok h]
    exact eager_statement hd (eager_deeperAt room) hrest h
  | error e t =>
    have hle : t.rest.length ≤ s.rest.length := ((orderly_closed.statement hd).error h).length_le
    have hpos : 0 < s.rest.length := List.length_pos_iff.2 hrest
    rw [next_error h]
    refine Nat.lt_of_le_of_lt (Orderly.resume_suffix _).length_le ?_
    split
    · rw [List.length_tail]
      omega
    · omega

theorem skipped_rest_ne_nil (heof : s.eof.kind = .eof) (hstops : ¬stops inBlock (skipped s)) : (skipped s).rest ≠ [] := by
  intro hnil
  refine hstops (.inl ?_)
  rw [ParseState.peek, hnil]
  exact heof

theorem length_skipped_le (s : ParseState) : (skipped s).rest.length ≤ s.rest.length :=
  (List.dropWhile_suffix _).length_le

/-- **A run of statements unfolds round by round.** -/
theorem statementsFrom_eq (heof : s.eof.kind = .eof) (taken : List Statement) :
    statementsFrom room inBlock taken s =
      if stops inBlock (skipped s) then .ok taken (skipped s)
      else statementsFrom room inBlock (taken ++ (next room (skipped s)).1.toList) (next room (skipped s)).2 := by
  have hround : statementRound (deeperAt room) inBlock taken s =
      if stops inBlock (skipped s) then .ok (.done taken) (skipped s)
      else .ok (.again (taken ++ (next room (skipped s)).1.toList)) (next room (skipped s)).2 := by
    show (if stops inBlock (skipped s) then _ else _ : Parse _) (skipped s) = _
    split
    · rfl
    · rw [Steps.bind_ok (recovering_statement _)]
      cases (next room (skipped s)).1 with
      | some st => rfl
      | none => rw [Option.toList_none, List.append_nil]; rfl
  split
  · rename_i hstops
    rw [if_pos hstops] at hround
    exact rounds_done hround
  · rename_i hstops
    rw [if_neg hstops] at hround
    exact rounds_again hround (Nat.lt_of_lt_of_le (length_next_lt (skipped_rest_ne_nil heof hstops))
      (length_skipped_le s))

/-- Separators in front of a run of statements play no part. -/
theorem statementsFrom_separators (heof : s.eof.kind = .eof) (taken : List Statement) {separators : List Token}
    (h : ∀ t ∈ separators, isSeparator t) :
    statementsFrom room inBlock taken { s with rest := separators ++ s.rest } = statementsFrom room inBlock taken s := by
  have hskipped : skipped { s with rest := separators ++ s.rest } = skipped s := by
    rw [skipped, skipped, List.dropWhile_append_of_pos h]
  rw [statementsFrom_eq (s := { s with rest := separators ++ s.rest }) heof, statementsFrom_eq heof, hskipped]

/-- **A run of statements is read, whatever was read before it.**  It stops at the end of the tokens, or, inside a
block, at a closing brace. -/
theorem statementsFrom_ok (heof : s.eof.kind = .eof) : ∃ read t, s.Continues t ∧ stops inBlock t ∧
    ∀ taken, statementsFrom room inBlock taken s = .ok (taken ++ read) t := by
  induction hn : s.rest.length using Nat.strongRecOn generalizing s with
  | ind n ih =>
    have hskipped : s.Continues (skipped s) := Orderly.skip _ s
    by_cases hstops : stops inBlock (skipped s)
    · refine ⟨[], skipped s, hskipped, hstops, fun taken => ?_⟩
      rw [statementsFrom_eq heof, if_pos hstops, List.append_nil]
    · have hnext : (skipped s).Continues (next room (skipped s)).2 :=
        ((Orderly.recovering (orderly_closed.statement (orderly_closed.deeperAt room))).ok
          (recovering_statement _))
      have hless : (next room (skipped s)).2.rest.length < n :=
        hn ▸ Nat.lt_of_lt_of_le (length_next_lt (skipped_rest_ne_nil heof hstops)) (length_skipped_le s)
      obtain ⟨read, t, ht, htstops, hread⟩ := ih _ hless (by rw [hnext.eof]; exact heof) rfl
      refine ⟨(next room (skipped s)).1.toList ++ read, t, (hskipped.trans hnext).trans ht, htstops, fun taken => ?_⟩
      rw [statementsFrom_eq heof, if_neg hstops, hread, List.append_assoc]

/-- **What holds of each statement that can be read holds of all statements of a run**, whatever errors are recorded. -/
theorem forall_of_statementsFrom (good : Token → Prop) (holds : Statement → Prop)
    (hstatement : ∀ {s s' st}, statement (deeperAt room) s = .ok st s' → s.eof.kind = .eof → (∀ t ∈ s.rest, good t) →
      holds st)
    {s' : ParseState} {taken result : List Statement} (h : statementsFrom room false taken s = .ok result s')
    (heof : s.eof.kind = .eof) (hgood : ∀ t ∈ s.rest, good t) (htaken : ∀ st ∈ taken, holds st) :
    ∀ st ∈ result, holds st := by
  induction hn : s.rest.length using Nat.strongRecOn generalizing s taken with
  | ind n ih =>
    rw [statementsFrom_eq heof] at h
    by_cases hstops : stops false (skipped s)
    · rw [if_pos hstops] at h
      cases h
      exact htaken
    rw [if_neg hstops] at h
    have hskipped : ∀ t ∈ (skipped s).rest, good t := fun t ht => hgood t ((List.dropWhile_suffix _).subset ht)
    have hnext : (skipped s).Continues (next room (skipped s)).2 :=
      (Orderly.recovering (orderly_closed.statement (orderly_closed.deeperAt room))).ok (recovering_statement _)
    have hless : (next room (skipped s)).2.rest.length < n :=
      hn ▸ Nat.lt_of_lt_of_le (length_next_lt (skipped_rest_ne_nil heof hstops)) (length_skipped_le s)
    refine ih _ hless h (hnext.eof.symm ▸ heof) (fun t ht => hskipped t (hnext.rest.subset ht)) ?_ rfl
    refine List.forall_mem_append.2 ⟨htaken, fun st hst => ?_⟩
    cases hread : statement (deeperAt room) (skipped s) with
    | ok st' t =>
      rw [next_ok hread] at hst
      obtain rfl : st = st' := List.mem_singleton.1 hst
      exact hstatement hread heof hskipped
    | error e t =>
      rw [next_error hread] at hst
      exact absurd hst List.not_mem_nil

end Parse
end UnionScript
