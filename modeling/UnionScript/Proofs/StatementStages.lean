import UnionScript.Proofs.Stages
/-!
# StatementStages — the stages declarations, statements and programs lead through

A statement is paid for by a token of its own, over what its blocks hold (`Reads.statement`), and an error by a token
that was taken without being read (`Reads.recovering`).  So a run of statements keeps the credit it began with, however
often it has to recover (`Reads.statements`), and so does a whole program (`Reads.deeperAt`).
-/
namespace UnionScript
namespace Parse

namespace Stage

/-- The stage where another tail may show the end of file instead of a line end. -/
@[simps]
def unsettled (i : Stage) : Stage := { i with settled := false }

/-- The stage before anything is read.  A token is put in, which is left over at the end. -/
@[simps]
def first : Stage where
  credit := 1
  unclosed := ⟨0, none⟩
  more := false
  settled := false
  knows _ := True

/-- The stage where another tail is known to show the same. -/
@[simps]
def sure (i : Stage) : Stage := { i with settled := true }

/-- The stage inside the braces of a body. -/
@[simps]
def inside (i : Stage) : Stage where
  credit := i.credit + 1
  unclosed := level .leftBrace i.unclosed
  more := true
  settled := false
  knows _ := True

end Stage

namespace Reads

variable {α : Type} {i : Stage}

/-! ## Type declarations -/

theorem entry (types : Union) (attributes : List TypedName) :
    Reads i (entry types attributes) (fun _ => i.behind 0) := by
  refine named rfl (fun name => ?_) ?_
  · exact annotation.bind fun listed => pure _ (.of_behind (by simp) rfl rfl rfl)
  · exact annotation.bind fun listed => pure _ (.refl _)

theorem entries : Reads i entries (fun _ => i.behind 0) := by
  refine (expect .leftBrace _ rfl).bind fun _ => ?_
  have hstart : (i.taken .leftBrace).Grants i.inside :=
    ⟨Nat.le_refl _, nofun, rfl, fun _ => rfl, nofun, fun _ _ => trivial⟩
  refine pre hstart (rounds_of_credit (i := fun _ => i.inside) (fun _ => Nat.succ_pos _) (fun listed => ?_) _)
  obtain ⟨types, attributes⟩ := listed
  refine (skipEntrySeparators (Nat.succ_pos _)).bind fun _ =>
    (accept .rightBrace (Stage.mayTake_rightBrace _)).bind fun closed => choose (pure _ ?_) ?_ closed
  · exact .of_behind (by simp) (Stage.level_rightBrace _) rfl rfl
  · refine (entry types attributes).bind fun listed => peek.bind fun next => ?_
    by_cases hnext : (isEntrySeparator next || next.kind == .rightBrace) = true
    · rw [if_pos hnext]
      exact pure _ ⟨by simp [turn], nofun, rfl, fun _ => rfl, nofun, fun _ _ => trivial⟩
    · rw [if_neg hnext]
      exact expected _

/-- The kind a state shows in front of a body in braces. -/
def kindOf (s : ParseState) : Option TypeKind :=
  if s.peek.kind = .identifier ∧ second s = .leftBrace then TypeKind.ofWord? s.peek.text else none

theorem kindOf_retail {s : ParseState} {newline : Token} {tail : Tail} (h : s.Ends newline tail) :
    kindOf (s.retail tail) = kindOf s := by
  have hnamed : ∀ s : ParseState, (s.peek.kind == .identifier && second s == .leftBrace) = true ↔
      s.peek.kind = .identifier ∧ second s = .leftBrace := fun s => by simp
  have hsame : ((s.retail tail).peek.kind == .identifier && second (s.retail tail) == .leftBrace) =
      (s.peek.kind == .identifier && second s == .leftBrace) := named_retail h rfl
  unfold kindOf
  by_cases hs : s.peek.kind = .identifier ∧ second s = .leftBrace
  · rw [if_pos hs, if_pos ((hnamed _).1 (hsame.trans ((hnamed s).2 hs)))]
    rcases peek_retail h with hpeek | ⟨hnewline, -⟩
    · rw [hpeek]
    · exact nomatch hnewline.symm.trans hs.1
  · rw [if_neg hs, if_neg fun hs' => hs ((hnamed s).1 (hsame.symm.trans ((hnamed _).2 hs')))]

theorem kindAhead? : Reads i kindAhead? (fun kind => if kind.isSome then i.facing .identifier else i) := by
  have hasks : Reads i Parse.kindAhead? (fun kind => i.knowing fun s => i.knows s ∧ kindOf s = kind) :=
    asks fun s newline tail _ hends => kindOf_retail hends
  refine hasks.mono fun kind => ?_
  cases kind with
  | none => exact ⟨Nat.le_refl _, id, rfl, id, id, fun s h => h.1⟩
  | some kind =>
    refine ⟨Nat.le_refl _, id, rfl, id, id, fun s h => ?_⟩
    have hsome : kindOf s = some kind := h.2
    unfold kindOf at hsome
    split at hsome
    · rename_i hs
      exact hs.1
    · exact nomatch hsome

theorem fitting {j : Stage} (word : Token) (declaration : TypeDeclaration) (h : i.Grants (j.behind declaration.held)) :
    Reads i (fitting word declaration) (fun d => j.behind d.held) := by
  unfold Parse.fitting
  split
  · exact throw _
  · exact pure _ h

/-- What the decorators in front of a declaration hold is paid for by their tokens. -/
theorem typeDeclaration (decorators : List Decorator) :
    Reads ((i.saving (heldInDecorators decorators)).facing (.keyword .type)) (typeDeclaration decorators)
      (fun d => i.behind d.held) := by
  refine (taken_plain rfl).bind fun word => (identifier _).bind fun name => (accept .colon rfl).bind fun typed =>
    choose (kindAhead?.bind fun kind => ?_) (throw _) typed
  cases kind with
  | some kind =>
    refine (taken_plain rfl).bind fun _ => entries.bind fun listed => fitting word _ (.of_behind ?_ rfl rfl rfl)
    simp [TypeDeclaration.held]
    omega
  | none =>
    refine annotation.bind fun types => fitting word _ (.of_behind ?_ rfl rfl rfl)
    simp [TypeDeclaration.held]
    omega

variable {deeper : Deeper} (hd : Deeper.Reads deeper)
include hd

/-! ## Decorated declarations -/

theorem decorator : Reads (i.facing .atSign) (decorator deeper) (fun d => (i.behind d.held).skipped) := by
  refine (taken_plain rfl).bind fun at_ => (identifier _).bind fun name => ?_
  dsimp only
  split
  · exact throw _
  · refine (accept .leftParen rfl).bind fun opened => choose ?_ ?_ opened
    · refine (arguments hd .rightParen _ rfl (Nat.succ_pos _)).bind fun taken => (skipNewlines ?_).bind fun _ => pure _ ?_
      · exact Nat.lt_of_lt_of_le (Nat.succ_pos _) (Nat.le_add_right _ _)
      · exact ⟨by simp [Decorator.held], by simp, rfl, id, id, fun _ _ => trivial⟩
    · refine (skipNewlines (Nat.succ_pos _)).bind fun _ => pure _ ?_
      exact ⟨by simp [Decorator.held, heldInArguments], by simp, rfl, id, id, fun _ _ => trivial⟩

theorem declarationBehind (decorators : List Decorator) (last : Decorator) :
    Reads (i.behind (heldInDecorators decorators)).skipped (declarationBehind deeper decorators last)
      (fun s => i.behind s.held) := by
  refine peekKind.bind fun kind => ?_
  split
  · have htype : Reads ((i.behind (heldInDecorators decorators)).skipped.peeked (.keyword .type))
        (Parse.typeDeclaration decorators) (fun d => (i.behind 0).skipped.behind d.held) :=
      typeDeclaration (i := (i.behind 0).skipped) decorators
    exact htype.bind fun d => pure _ (.of_behind (by simp [Statement.held]) rfl rfl rfl)
  · split
    · exact throw _
    · refine (peeked_plain rfl).bind fun func => ?_
      have hfunction : Reads ((i.behind (heldInDecorators decorators)).skipped.behind 0)
          (Parse.functionBehind deeper func decorators) (fun e => (i.behind 0).behind e.held) := by
        refine pre ?_ (functionBehind hd func decorators (i := i.behind 0) (Nat.succ_pos _))
        exact ⟨by simp, by simp, rfl, fun _ => rfl, fun _ => rfl, fun _ _ => trivial⟩
      exact hfunction.bind fun e => pure _ (.of_behind (by simp [Statement.held]) rfl rfl rfl)
  · exact throw _

/-- Decorators one after the other, and the declaration behind them. -/
theorem decorated : Reads (i.facing .atSign) (decorated deeper) (fun s => i.behind s.held) := by
  refine (decorator hd).bind fun first => ?_
  have hstart : (i.behind first.held).skipped.Grants (i.behind (heldInDecorators [first])).skipped :=
    ⟨by simp [heldInDecorators], by simp, rfl, id, id, fun _ h => h⟩
  refine pre hstart ?_
  refine (rounds_of_credit (i := fun taken : List Decorator × Decorator => (i.behind (heldInDecorators taken.1)).skipped)
    (j := fun taken => (i.behind (heldInDecorators taken.1)).skipped) (fun _ => Stage.behind_pos _ _) (fun taken => ?_)
    ([first], first)).bind fun taken => declarationBehind hd taken.1 taken.2
  refine (check .atSign rfl).bind fun another => choose ((decorator hd).bind fun d => pure _ ?_) (pure _ ?_) another
  · have hsum := heldInDecorators_append taken.1 d
    refine .of_onward (by simp) ⟨?_, by simp, rfl, id, id, fun _ h => h⟩ ?_
    · simp [hsum]
      omega
    · simp [hsum]
      omega
  · exact .refl _

/-! ## Statements -/

theorem binding {kind : TokenKind} (constant : Bool) (hkind : Stage.plain kind = true) :
    Reads (i.facing kind) (binding deeper constant) (fun s => i.behind s.held) := by
  refine (taken_plain hkind).bind fun word => (identifier _).bind fun name => (annotationOf name).bind fun target =>
    (accept .equal rfl).bind fun given => choose ?_ ?_ given
  · refine (skipNewlines (Nat.succ_pos _)).bind fun _ => (anyExpression hd).bind fun value => pure _ ?_
    exact .of_behind (by simp [Statement.held, heldInExpression?]) rfl rfl rfl
  · by_cases hconstant : constant = true
    · rw [if_pos hconstant]
      exact expected _
    · rw [if_neg hconstant]
      exact pure _ (.of_behind (by simp [Statement.held, heldInExpression?]) rfl rfl rfl)

omit hd in
/-- What stands behind a `return` is the same for any tail, but for the end of file instead of a line end. -/
theorem second_retail {s : ParseState} {newline : Token} {tail : Tail} (h : s.Ends newline tail)
    (hword : s.peek.kind = .keyword .return) :
    second (s.retail tail) = second s ∨ second s = .newline ∧ second (s.retail tail) = .eof := by
  obtain ⟨front, hrest, hrest'⟩ := h.exists_rest
  have hlast := h.word
  rw [hrest, List.dropLast_concat] at hlast
  rw [ParseState.peek, hrest] at hword
  rw [second, second, hrest, hrest']
  rcases front with _ | ⟨t, _ | ⟨u, front⟩⟩
  · cases h.kind.symm.trans hword
  · rcases h.follows.rest with hnil | ⟨more, hmore, -⟩ | ⟨c, line, more, hmore, hcomment, -⟩
    · rw [hnil]
      exact .inr ⟨h.kind, h.follows.eof⟩
    · rw [hmore]
      exact .inl rfl
    · exact absurd hword (hlast c (by rw [hmore]; rfl) hcomment t rfl)
  · exact .inl rfl

/-- What a `return` is followed by. -/
inductive Behind where
  | ending
  | comment
  | value
  deriving DecidableEq

/-- What a `return` that is next is followed by. -/
def behindReturn (s : ParseState) : Behind :=
  if endsStatement (second s) then .ending
  else if second s = .comment ∨ second s = .roxygenComment then .comment
  else .value

/-- What is read of a `return`, by what it is followed by. -/
def Behind.statement (deeper : Deeper) : Behind → Parse Statement
  | .ending => do
    let word ← Parse.advance
    return Statement.return none word.span
  | .comment | .value => do
    let word ← Parse.advance
    let value ← Parse.anyExpression deeper
    return Statement.return (some value) (word.span.union value.span)

omit hd in
theorem not_barred_of_behindReturn {s : ParseState} (hword : s.peek.kind = .keyword .return)
    (h : behindReturn s ≠ .comment) : ¬Barred s.rest := by
  cases hrest : s.rest with
  | nil => exact id
  | cons x rest =>
    rw [ParseState.peek, hrest] at hword
    rintro (heof | ⟨-, c, hc, hcomment⟩)
    · cases hword.symm.trans heof
    · have hsecond : second s = c.kind := by
        rw [second, hrest, List.tail_cons, Option.mem_def.1 hc]
        rfl
      refine h ?_
      rcases Token.isComment_iff.1 hcomment with hkind | hkind <;> rw [behindReturn, hsecond, hkind] <;> rfl

/-- A `return` that a comment stands behind takes the comment for its value, and fails. -/
theorem returnComment {k : Statement → Stage} :
    Reads (i.knowing fun s => s.peek.kind = .keyword .return ∧ behindReturn s = .comment)
      (Behind.statement deeper .comment) k := by
  have hfails : ∀ s : ParseState, s.peek.kind = .keyword .return ∧ behindReturn s = .comment →
      ∃ e, Behind.statement deeper .comment s = .error e s.advance := by
    rintro s ⟨-, hbehind⟩
    have hcomment : s.advance.peek.isComment = true := by
      refine Token.isComment_iff.2 ?_
      unfold behindReturn at hbehind
      split at hbehind
      · exact nomatch hbehind
      · split at hbehind
        · assumption
        · exact nomatch hbehind
    obtain ⟨e, he⟩ := hd.comment .lowest s.advance hcomment
    exact ⟨e, (Steps.bind_ok rfl).trans (Steps.bind_error he)⟩
  refine ⟨orderly_closed.advance.bind fun _ => (hd.expression _ i).orderly.bind fun _ => orderly_closed.pure _, fun {s t st} hready hok => ?_, fun {s t e} hready herror => ?_, fun s t st _ _ hready hok => ?_⟩
  · obtain ⟨e, he⟩ := hfails s hready.knows
    exact nomatch he.symm.trans hok
  · obtain ⟨e', he⟩ := hfails s hready.knows
    cases he.symm.trans herror
    exact fails_advance (fun _ h => h.1) ⟨nofun, nofun, nofun, nofun⟩ hready
  · obtain ⟨e, he⟩ := hfails s hready.knows
    exact nomatch he.symm.trans hok

theorem returnStatement : Reads (i.facing (.keyword .return)) (returnStatement deeper) (fun s => i.behind s.held) := by
  -- What stands behind the word is asked before the word is taken.
  have hasks : Reads (i.facing (.keyword .return)) (fun s => .ok (behindReturn s) s : Parse Behind) (fun b =>
      i.knowing fun s => s.peek.kind = .keyword .return ∧ behindReturn s = b) := by
    refine asks fun s newline tail hready hends => ?_
    rcases second_retail hends hready.knows with hsame | ⟨hnewline, heof⟩
    · rw [behindReturn, behindReturn, hsame]
    · rw [behindReturn, behindReturn, hnewline, heof]
      rfl
  have htaken : ∀ b : Behind, b ≠ .comment →
      Reads (i.knowing fun s => s.peek.kind = .keyword .return ∧ behindReturn s = b) Parse.advance (fun _ => i.behind 0) := by
    intro b hb
    have hadvance : Reads (i.knowing fun s => s.peek.kind = .keyword .return ∧ behindReturn s = b) Parse.advance
        (fun _ => (i.taken (.keyword .return)).knowing fun _ => True) :=
      advancing (fun _ h => h.1) ⟨nofun, nofun, nofun, nofun⟩
        (fun s h _ => not_barred_of_behindReturn h.1 (h.2 ▸ hb)) fun _ _ => trivial
    exact hadvance.mono fun _ => .of_behind (by simp) rfl rfl rfl
  have hwhole : Reads (i.facing (.keyword .return))
      ((fun s => .ok (behindReturn s) s : Parse Behind) >>= Behind.statement deeper) (fun s => i.behind s.held) := by
    refine hasks.bind fun b => ?_
    cases b with
    | ending =>
      exact (htaken .ending (by rintro ⟨⟩)).bind fun word => pure _ (.of_behind (by simp [Statement.held, heldInExpression?]) rfl rfl rfl)
    | comment => exact returnComment hd
    | value =>
      refine (htaken .value (by rintro ⟨⟩)).bind fun word => (anyExpression hd).bind fun value => pure _ ?_
      exact .of_behind (by simp [Statement.held, heldInExpression?]) rfl rfl rfl
  have hsame : Parse.returnStatement deeper =
      ((fun s => .ok (behindReturn s) s : Parse Behind) >>= Behind.statement deeper) := by
    funext s
    show (if endsStatement (second s) then _ else _ : Parse Statement) s.advance = Behind.statement deeper (behindReturn s) s
    unfold behindReturn
    split
    · rfl
    · split <;> rfl
  rw [hsame]
  exact hwhole

theorem deferStatement : Reads (i.facing (.keyword .defer)) (deferStatement deeper) (fun s => i.behind s.held) := by
  refine (taken_plain rfl).bind fun word => (anyExpression hd).bind fun e => pure _ ?_
  exact .of_behind (by simp [Statement.held]) rfl rfl rfl

omit hd in
theorem jump {kind : TokenKind} (word : Jump) (hkind : Stage.plain kind = true) :
    Reads (i.facing kind) (jump word) (fun s => i.behind s.held) :=
  (taken_plain hkind).bind fun _ => pure _ (.refl _)

omit hd in
theorem comment {kind : TokenKind} (roxygen : Bool) (hkind : kind = .comment ∨ kind = .roxygenComment) :
    Reads (i.facing kind) (comment roxygen) (fun s => i.behind s.held) := by
  have htakes : Stage.Takes (i.facing kind).unclosed kind := by
    rcases hkind with rfl | rfl <;> exact ⟨nofun, nofun, nofun, nofun⟩
  have hlevel : Stage.level kind i.unclosed = i.unclosed := by
    rcases hkind with rfl | rfl <;> rfl
  have htaken : Reads (i.facing kind) Parse.advance (fun _ => (i.taken kind).knowing fun _ => True) :=
    advancing (fun _ h => h) htakes (fun _ _ e => by rcases hkind with rfl | rfl <;> exact nomatch e) fun _ _ => trivial
  exact htaken.bind fun _ => pure _ (.of_behind (by simp [Statement.held]) hlevel rfl rfl)

omit hd in
theorem ended {p : Parse Statement} {k : Statement → Stage} (hp : Reads i p k) : Reads i (ended p) k := by
  refine hp.bind fun s => ?_
  have hend : Reads (k s) statementEnd (fun _ => k s) := by
    refine askKind (f := fun kind => endsStatement kind || kind == .comment || kind == .roxygenComment) ?_
      (fun ends => if ends then Pure.pure () else Parse.unexpected) fun ends => ?_
    · intro kind hkind
      unfold Stage.inLine at hkind
      split at hkind <;> first | rfl | exact nomatch hkind
    by_cases hends : ends = true
    · rw [if_pos hends]
      exact pure _ (.refl _)
    · rw [if_neg hends]
      exact unexpected
  exact hend.bind fun _ => pure _ (.refl _)

/-- **A statement** is paid for by a token, and what its blocks hold by others. -/
theorem statement : Reads i (statement deeper) (fun s => i.behind s.held) := by
  refine peekKind.bind fun kind => ?_
  split
  · exact ended (binding hd (i := i.sure) false rfl)
  · exact ended (binding hd (i := i.sure) true rfl)
  · have htype : Reads (i.peeked (.keyword .type)) (Parse.typeDeclaration []) (fun d => i.sure.behind d.held) :=
      typeDeclaration (i := i.sure) []
    exact ended (htype.bind fun d => pure _ (.refl _))
  · exact ended (returnStatement hd (i := i.sure))
  · exact ended (deferStatement hd (i := i.sure))
  · exact ended (jump (i := i.sure) .break rfl)
  · exact ended (jump (i := i.sure) .next rfl)
  · exact comment (i := i.sure) false (.inl rfl)
  · exact comment (i := i.sure) true (.inr rfl)
  · exact ended (decorated hd (i := i.sure))
  · exact ended ((hd.block _).bind fun block => pure _ (.refl _))
  · exact ended ((anyExpression hd).bind fun e => pure _ (.refl _))

/-! ## Runs of statements -/

omit hd in
/-- Recovering takes a token, whether something is read or not. -/
theorem recovering_less {p : Parse α} {w : α → Nat} (h : ∀ i : Stage, Reads i p fun a => i.behind (w a))
    {s t : ParseState} {found : Option α} (heof : s.eof.kind = .eof) (hproper : s.peek.kind ≠ .eof)
    (hok : Parse.recovering p s = .ok found t) : t.rest.length < s.rest.length := by
  have hrecovering : Reads (Stage.first.knowing fun s => s.peek.kind ≠ .eof) (Parse.recovering p) _ :=
    recovering h Nat.one_pos (fun _ h => h) fun _ _ _ => rfl
  have hleads := hrecovering.ok ⟨heof, hproper⟩ hok
  have hdue := hleads.due
  have herrors := hleads.continues.errors.length_le
  cases hp : p s with
  | ok a u =>
    cases (recovering_ok hp).symm.trans hok
    simp only [ParseState.due, recovered, Stage.behind_credit] at hdue
    omega
  | error e u =>
    cases (recovering_error hp).symm.trans hok
    have hbefore := ((h .first).orderly.error hp).errors.length_le
    simp only [ParseState.due, ParseState.record, recovered, Stage.skipped_credit, List.length_cons] at hdue ⊢
    omega

/-- A round that asks for another one has taken a token. -/
theorem statementRound_less {inBlock : Bool} {taken taken' : List Statement} {s t : ParseState}
    (heof : s.eof.kind = .eof) (h : statementRound deeper inBlock taken s = .ok (.again taken') t) :
    t.rest.length < s.rest.length := by
  change (if stops inBlock (Parse.skipped s) then _ else _ : Parse _) (Parse.skipped s) = _ at h
  by_cases hstops : stops inBlock (Parse.skipped s)
  · rw [if_pos hstops] at h
    cases h
  · rw [if_neg hstops] at h
    obtain ⟨found, u, hu, hagain⟩ := Steps.of_bind_ok h
    have ht : t = u := by
      cases found <;> cases hagain <;> rfl
    have hless := recovering_less (s := Parse.skipped s) (fun _ => statement hd) heof (fun h => hstops (.inl h)) hu
    rw [ht]
    exact Nat.lt_of_lt_of_le hless (length_skipped_le s)

/-- **A run of statements** keeps what it began with and what its statements hold.  Inside a block it stops at the brace
that closes it. -/
theorem statements (inBlock : Bool) (hcredit : 0 < i.credit) (hblock : inBlock = false → i.unclosed.braces = none) :
    Reads i (statements deeper inBlock) (fun ss => i.holding (heldInStatements ss)) := by
  have hpos : ∀ taken, 0 < (i.holding (heldInStatements taken)).credit := fun _ =>
    Nat.lt_of_lt_of_le hcredit (Nat.le_add_right _ _)
  have hstart : i.Grants (i.holding (heldInStatements [])).unsettled :=
    ⟨Nat.le_refl _, id, rfl, fun h => absurd h Bool.false_ne_true, fun h => absurd h Bool.false_ne_true,
      fun _ _ => trivial⟩
  refine pre hstart (rounds (i := fun taken => (i.holding (heldInStatements taken)).unsettled)
    (fun hready hround => statementRound_less hd hready.eof hround) (fun taken => ?_) [])
  refine (skipSeparators (i := (i.holding (heldInStatements taken)).unsettled) (hpos taken)).bind fun _ =>
    peekKind.bind fun kind => ?_
  by_cases hkind : kind = .eof ∨ (inBlock ∧ kind = .rightBrace)
  · rw [if_pos hkind]
    refine pure _ ⟨Nat.le_refl _, id, rfl, id, fun _ => ?_, fun _ _ => trivial⟩
    rcases hkind with rfl | ⟨-, rfl⟩ <;> rfl
  · rw [if_neg hkind]
    have hrecovering : Reads ((i.holding (heldInStatements taken)).unsettled.skipped.peeked kind)
        (Parse.recovering (Parse.statement deeper)) _ :=
      recovering (fun _ => statement hd) (hpos taken) (fun s hs heof => hkind (.inl (Eq.trans hs.symm heof)))
        fun s hs hright => hblock (Bool.eq_false_iff.2 fun hin => hkind (.inr ⟨hin, Eq.trans hs.symm hright⟩))
    refine hrecovering.bind fun found => ?_
    cases found with
    | some s =>
      refine pure _ ⟨?_, fun h => absurd h (Nat.ne_of_gt (hpos _)), rfl, fun h => absurd h Bool.false_ne_true,
        fun _ => rfl, fun _ _ => trivial⟩
      simp [turn, recovered, heldInStatements_append]
      omega
    | none => exact pure _ ⟨Nat.le_refl _, id, rfl, id, fun h => absurd h Bool.false_ne_true, fun _ _ => trivial⟩

theorem blockBody (opened : Token) :
    Reads (i.taken .leftBrace) (blockBody deeper opened) (fun b => (i.behind 0).behind b.held) := by
  refine (statements hd true (Nat.succ_pos _) nofun).bind fun taken =>
    (expect .rightBrace _ (Stage.mayTake_rightBrace _)).bind fun close => pure _ ?_
  exact .of_behind (by simp [Block.held]; omega) (Stage.level_rightBrace _) rfl rfl

omit hd in
theorem firstPart_none {s : ParseState} (h : s.peek.isComment = true ∨ s.peek.kind = .rightBrace) :
    ∃ e, Parse.firstPart deeper s = .error e s := by
  rw [Token.isComment_iff] at h
  refine ⟨.unexpectedToken s.peek.kind s.peek.text s.peek.span, ?_⟩
  unfold Parse.firstPart
  rw [Steps.bind_ok (rfl : Parse.peek s = .ok s.peek s)]
  rcases h with (hkind | hkind) | hkind <;> simp only [hkind, wordLiteral?, Token.unaryOperator?] <;> rw [← hkind] <;> rfl

omit hd in
/-- No expression begins with a comment or with a closing brace. -/
theorem expressionAt_none (floor : Level) {s : ParseState} (h : s.peek.isComment = true ∨ s.peek.kind = .rightBrace) :
    ∀ room : Nat, ∃ e, expressionAt room floor s = .error e s
  | 0 => ⟨_, rfl⟩
  | room + 1 => by
    have hdeeper : (descend s).peek.isComment = true ∨ (descend s).peek.kind = .rightBrace := h
    obtain ⟨e, he⟩ : ∃ e, Parse.firstPart (Parse.deeperAt room) (descend s) = .error e (descend s) := firstPart_none hdeeper
    exact ⟨e, nested_error (Steps.bind_error he)⟩

omit hd in
/-- **The induction over the room that is left.** -/
theorem deeperAt : ∀ room : Nat, Deeper.Reads (deeperAt room)
  | 0 => ⟨fun _ _ => peek.bind fun _ => tooDeep _, fun _ => (expect _ _ rfl).bind fun _ => tooDeep _,
    fun floor s h => expressionAt_none floor (.inl h) 0⟩
  | room + 1 => by
    have hd := deeperAt room
    refine ⟨fun floor i => forget (nested (fun _ _ => trivial) (fun _ _ _ => trivial) (expressionBody hd floor)),
      fun i => (expect _ _ rfl).bind fun opened => ?_, fun floor s h => expressionAt_none floor (.inl h) (room + 1)⟩
    refine (nested (fun _ _ => trivial) (fun _ _ _ => trivial) (blockBody hd opened)).mono fun b => ?_
    exact .of_behind (by simp) rfl rfl rfl

end Reads
end Parse
end UnionScript
