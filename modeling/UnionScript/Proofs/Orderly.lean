import UnionScript.Proofs.Reader
/-!
# Orderly — what a reader leaves

Whether it answers or fails, a reader takes tokens off the front of what is left, keeps the errors recorded before it
and gives the depth back (`ParseState.Continues`).  And a statement that is read has taken a token (`eager_statement`),
so that the repetition around it never stops for lack of progress.
-/
namespace UnionScript

/-- What a reader may make of a state. -/
structure ParseState.Continues (s s' : ParseState) : Prop where
  rest : s'.rest <:+ s.rest
  eof : s'.eof = s.eof
  errors : s.errors <:+ s'.errors
  depth : s'.depth = s.depth

namespace ParseState.Continues

variable {s t u : ParseState}

theorem refl (s : ParseState) : s.Continues s := ⟨List.suffix_rfl, rfl, List.suffix_rfl, rfl⟩

theorem trans (h : s.Continues t) (h' : t.Continues u) : s.Continues u :=
  ⟨h'.rest.trans h.rest, h'.eof.trans h.eof, h.errors.trans h'.errors, h'.depth.trans h.depth⟩

/-- Tokens may be taken off the front. -/
theorem ofSuffix (s : ParseState) {rest : List Token} (h : rest <:+ s.rest) : s.Continues { s with rest } :=
  ⟨h, rfl, List.suffix_rfl, rfl⟩

theorem length_le (h : s.Continues t) : t.rest.length ≤ s.rest.length := h.rest.length_le

end ParseState.Continues

namespace Parse

/-- Where no error is recorded in two steps, none is in either of them. -/
theorem errors_eq_of_continues {s t u : ParseState} (h : s.Continues t) (h' : t.Continues u)
    (herrors : u.errors = s.errors) : t.errors = s.errors ∧ u.errors = t.errors := by
  have hback : t.errors <:+ s.errors := herrors ▸ h'.errors
  have heq : t.errors = s.errors := hback.eq_of_length (Nat.le_antisymm hback.length_le h.errors.length_le)
  exact ⟨heq, herrors.trans heq.symm⟩

variable {α β : Type}

/-- The state a reader leaves, whether it answers or fails. -/
def after (p : Parse α) (s : ParseState) : ParseState :=
  match p s with
  | .ok _ s' => s'
  | .error _ s' => s'

theorem after_ok {p : Parse α} {s s' : ParseState} {a : α} (h : p s = .ok a s') : after p s = s' := by
  rw [after, h]

theorem after_error {p : Parse α} {s s' : ParseState} {e : ParseError} (h : p s = .error e s') : after p s = s' := by
  rw [after, h]

/-! ## What the readers of parts make of them -/

theorem nested_ok {p : Parse α} {s t : ParseState} {a : α} (h : p { s with depth := s.depth + 1 } = .ok a t) :
    nested p s = .ok a t.ascend := by
  simp only [nested, h]

theorem nested_error {p : Parse α} {s t : ParseState} {e : ParseError}
    (h : p { s with depth := s.depth + 1 } = .error e t) : nested p s = .error e t.ascend := by
  simp only [nested, h]

section Rounds

variable {round : α → Parse (Round α β)} {a : α} {s t : ParseState}

theorem rounds_error {e : ParseError} (h : round a s = .error e t) : rounds round a s = .error e t := by
  rw [rounds, h]

theorem rounds_done {b : β} (h : round a s = .ok (.done b) t) : rounds round a s = .ok b t := by
  rw [rounds, h]

theorem rounds_again {next : α} (h : round a s = .ok (.again next) t) (hless : t.rest.length < s.rest.length) :
    rounds round a s = rounds round next t := by
  rw [rounds, h]
  exact if_pos hless

theorem rounds_stuck {next : α} (h : round a s = .ok (.again next) t) (hmore : ¬t.rest.length < s.rest.length) :
    rounds round a s = .error (.unexpectedToken t.peek.kind t.peek.text t.peek.span) { t with fault := true } := by
  rw [rounds, h]
  exact if_neg hmore

/-- What holds of a repetition that answers, by its last round and from each round to the one before it. -/
theorem of_rounds {b : β} {motive : α → ParseState → Prop}
    (done : ∀ a s, round a s = .ok (.done b) t → motive a s)
    (again : ∀ a s next u, round a s = .ok (.again next) u → motive next u → motive a s)
    (h : rounds round a s = .ok b t) : motive a s := by
  induction hn : s.rest.length using Nat.strongRecOn generalizing a s with
  | ind n ih =>
    cases hround : round a s with
    | error e u => exact nomatch (rounds_error hround).symm.trans h
    | ok turn u =>
      cases turn with
      | done c =>
        cases (rounds_done hround).symm.trans h
        exact done a s hround
      | again next =>
        by_cases hless : u.rest.length < s.rest.length
        · exact again a s next u hround (ih _ (hn ▸ hless) ((rounds_again hround hless).symm.trans h) rfl)
        · exact nomatch (rounds_stuck hround hless).symm.trans h

end Rounds

theorem recovering_ok {p : Parse α} {s t : ParseState} {a : α} (h : p s = .ok a t) :
    recovering p s = .ok (some a) t := by
  simp only [recovering, h]

theorem recovering_error {p : Parse α} {s t : ParseState} {e : ParseError} (h : p s = .error e t) :
    recovering p s = .ok none { t.record e with
      rest := resume (if t.rest.length = s.rest.length then t.rest.tail else t.rest) } := by
  simp only [recovering, h]

/-! ## Orderly readers -/

/-- A reader that leaves what a reader may leave. -/
def Orderly (p : Parse α) : Prop := ∀ s : ParseState, s.Continues (after p s)

namespace Orderly

theorem ok {p : Parse α} (h : Orderly p) {s s' : ParseState} {a : α} (hok : p s = .ok a s') : s.Continues s' :=
  after_ok hok ▸ h s

theorem eof_kind {p : Parse α} (h : Orderly p) {s s' : ParseState} {a : α} (hok : p s = .ok a s')
    (heof : s.eof.kind = .eof) : s'.eof.kind = .eof := by
  rwa [(h.ok hok).eof]

theorem error {p : Parse α} (h : Orderly p) {s s' : ParseState} {e : ParseError} (herror : p s = .error e s') :
    s.Continues s' :=
  after_error herror ▸ h s

theorem bind {p : Parse α} {next : α → Parse β} (h : Orderly p) (hnext : ∀ a, Orderly (next a)) :
    Orderly (p >>= next) := by
  intro s
  cases hp : p s with
  | ok a t =>
    have hsame : after (p >>= next) s = after (next a) t := by rw [after, after, Steps.bind_ok hp]
    rw [hsame]
    exact (h.ok hp).trans (hnext a t)
  | error e t =>
    rw [after_error (Steps.bind_error hp)]
    exact h.error hp

theorem ite {c : Prop} [Decidable c] {p q : Parse α} (hp : Orderly p) (hq : Orderly q) :
    Orderly (if c then p else q) := by
  split
  · exact hp
  · exact hq

theorem skip (separates : Token → Bool) (s : ParseState) :
    s.Continues { s with rest := s.rest.dropWhile separates } :=
  .ofSuffix s (List.dropWhile_suffix separates)

theorem nested {p : Parse α} (h : Orderly p) : Orderly (nested p) := by
  intro s
  cases hp : p { s with depth := s.depth + 1 } with
  | ok a t =>
    have ht := h.ok hp
    rw [after_ok (nested_ok hp)]
    exact { ht with depth := congrArg (· - 1) ht.depth }
  | error e t =>
    have ht := h.error hp
    rw [after_error (nested_error hp)]
    exact { ht with depth := congrArg (· - 1) ht.depth }

theorem rounds {round : α → Parse (Round α β)} (h : ∀ a, Orderly (round a)) (a : α) : Orderly (rounds round a) := by
  intro s
  induction hn : s.rest.length using Nat.strongRecOn generalizing a s with
  | ind n ih =>
    cases hround : round a s with
    | error e t =>
      rw [after_error (rounds_error hround)]
      exact (h a).error hround
    | ok next t =>
      have ht := (h a).ok hround
      cases next with
      | done b =>
        rw [after_ok (rounds_done hround)]
        exact ht
      | again a' =>
        by_cases hless : t.rest.length < s.rest.length
        · have hsame : after (Parse.rounds round a) s = after (Parse.rounds round a') t := by
            rw [after, after, rounds_again hround hless]
          rw [hsame]
          exact ht.trans (ih _ (hn ▸ hless) a' t rfl)
        · rw [after_error (rounds_stuck hround hless)]
          exact { ht with }

theorem resume_suffix : ∀ rest : List Token, resume rest <:+ rest
  | [] => List.suffix_rfl
  | t :: rest => by
    rw [resume]
    split
    · exact List.suffix_cons t rest
    · split
      · exact List.suffix_rfl
      · exact (resume_suffix rest).trans (List.suffix_cons t rest)

theorem recovering {p : Parse α} (h : Orderly p) : Orderly (recovering p) := by
  intro s
  cases hp : p s with
  | ok a t =>
    rw [after_ok (recovering_ok hp)]
    exact h.ok hp
  | error e t =>
    have ht := h.error hp
    have hleft : (if t.rest.length = s.rest.length then t.rest.tail else t.rest) <:+ t.rest := by
      split
      · exact List.tail_suffix _
      · exact List.suffix_rfl
    rw [after_ok (recovering_error hp)]
    exact ⟨((resume_suffix _).trans hleft).trans ht.rest, ht.eof, ht.errors.trans (List.suffix_cons e _), ht.depth⟩

end Orderly

/-- **Every reader is orderly.** -/
theorem orderly_closed : ReaderClosed (fun {_} p => Orderly p) where
  pure _ s := .refl s
  throw _ s := .refl s
  bind := Orderly.bind
  peek s := .refl s
  peekKind s := .refl s
  secondKind s := .refl s
  lookAhead s := .refl s
  advance _ := ⟨List.tail_suffix _, rfl, List.suffix_rfl, rfl⟩
  unexpected s := .refl s
  expected _ s := .refl s
  check _ s := .refl s
  skipNewlines := Orderly.skip _
  skipSeparators := Orderly.skip _
  skipEntrySeparators := Orderly.skip _
  tooDeep _ _ s := .refl s
  nested := Orderly.nested
  rounds := Orderly.rounds
  recovering := Orderly.recovering

/-! ## Progress -/

/-- A reader that, if it answers, has taken a token. -/
def Eager (p : Parse α) : Prop :=
  ∀ ⦃s s' : ParseState⦄ ⦃a : α⦄, s.rest ≠ [] → p s = .ok a s' → s'.rest.length < s.rest.length

/-- A reader that leaves the tokens as they are. -/
def Looks (p : Parse α) : Prop := ∀ ⦃s s' : ParseState⦄ ⦃a : α⦄, p s = .ok a s' → s' = s

theorem looks_peek : Looks peek := fun _ _ _ h => by cases h; rfl

theorem looks_peekKind : Looks peekKind := fun _ _ _ h => by cases h; rfl

theorem looks_check (kind : TokenKind) : Looks (check kind) := fun _ _ _ h => by cases h; rfl

namespace Eager

theorem advance : Eager advance := by
  intro s s' t hrest h
  cases h
  show s.rest.tail.length < s.rest.length
  rw [List.length_tail]
  exact Nat.sub_lt (List.length_pos_iff.2 hrest) Nat.one_pos

theorem fails {p : Parse α} (h : ∀ s, ∃ e t, p s = .error e t) : Eager p := by
  intro s s' a _ hok
  obtain ⟨e, t, herror⟩ := h s
  exact nomatch herror.symm.trans hok

theorem bind {p : Parse α} {next : α → Parse β} (h : Eager p) (hnext : ∀ a, Orderly (next a)) : Eager (p >>= next) := by
  intro s s' b hrest hok
  obtain ⟨a, t, hp, hb⟩ := Steps.of_bind_ok hok
  exact Nat.lt_of_le_of_lt ((hnext a).ok hb).length_le (h hrest hp)

theorem behind {p : Parse α} {next : α → Parse β} (h : Looks p) (hnext : ∀ a, Eager (next a)) : Eager (p >>= next) := by
  intro s s' b hrest hok
  obtain ⟨a, t, hp, hb⟩ := Steps.of_bind_ok hok
  obtain rfl := h hp
  exact hnext a hrest hb

theorem ite {c : Prop} [Decidable c] {p q : Parse α} (hp : Eager p) (hq : Eager q) : Eager (if c then p else q) := by
  split
  · exact hp
  · exact hq

theorem expect (kind : TokenKind) (what : String) : Eager (expect kind what) :=
  .behind (looks_check _) fun _ => .ite .advance (.fails fun _ => ⟨_, _, rfl⟩)

theorem nested {p : Parse α} (h : Eager p) : Eager (nested p) := by
  intro s s' a hrest hok
  cases hp : p { s with depth := s.depth + 1 } with
  | ok b t =>
    cases (nested_ok hp).symm.trans hok
    have hless : t.rest.length < s.rest.length := h (s := { s with depth := s.depth + 1 }) hrest hp
    exact hless
  | error e t => exact nomatch (nested_error hp).symm.trans hok

end Eager

section

variable {deeper : Deeper}

theorem eager_firstPart (hd : Deeper.Has (fun {_} p => Orderly p) deeper) : Eager (firstPart deeper) := by
  have h := orderly_closed
  refine .behind looks_peek fun t => ?_
  split
  · exact .bind .advance fun _ => h.pure _
  · exact .bind .advance fun _ => h.number _ _
  · exact .bind .advance fun _ => h.number _ _
  · exact .bind .advance fun _ => h.stringBehind _
  · exact .bind .advance fun _ => h.parenthesized hd _
  · exact .bind .advance fun _ => h.functionBehind hd _ _
  · exact .bind .advance fun _ => h.conditionalBehind hd _
  · exact .bind .advance fun _ => h.forBehind hd _
  · exact .bind .advance fun _ => h.whileBehind hd _
  · exact .bind .advance fun _ => h.repeatBehind hd _
  · split
    · exact .bind .advance fun _ => h.pure _
    · exact .bind .advance fun _ => h.unaryBehind hd _ _
    · exact .fails fun _ => ⟨_, _, rfl⟩

/-- Whatever room is left, an expression or a block that is read has taken a token. -/
theorem eager_deeperAt : ∀ room : Nat, Deeper.Has (fun {_} p => Eager p) (deeperAt room)
  | 0 => ⟨fun _ => .fails fun _ => ⟨_, _, rfl⟩, .bind (.expect _ _) fun _ s => .refl s⟩
  | room + 1 => by
    have hd := orderly_closed.deeperAt room
    refine ⟨fun floor => ?_, .bind (.expect _ _) fun _ => Orderly.nested (orderly_closed.blockBody hd _)⟩
    exact .nested (.bind (eager_firstPart hd) fun _ => orderly_closed.continued hd _ _)

theorem eager_binding (hd : Deeper.Has (fun {_} p => Orderly p) deeper) (constant : Bool) :
    Eager (binding deeper constant) := by
  have h := orderly_closed
  refine .bind .advance fun _ => .bind (h.identifier _) fun _ => .bind (h.annotationOf _) fun _ =>
    .bind (h.accept _) fun _ => .ite ?_ (.ite (h.expected _) (h.pure _))
  exact .bind h.skipNewlines fun _ => .bind (ReaderRelated.anyExpression hd) fun _ => h.pure _

theorem eager_typeDeclaration (decorators : List Decorator) : Eager (typeDeclaration decorators) := by
  have h := orderly_closed
  refine .bind .advance fun word => .bind (h.identifier _) fun name => .bind (h.accept _) fun _ =>
    .ite (.bind h.kindAhead? fun kind => ?_) (h.throw _)
  split
  · exact .bind h.advance fun _ => .bind h.entries fun _ => h.fitting _ _
  · exact .bind h.annotation fun _ => h.fitting _ _

theorem eager_decorator (hd : Deeper.Has (fun {_} p => Orderly p) deeper) : Eager (decorator deeper) := by
  have h := orderly_closed
  refine .bind .advance fun _ => .bind (h.identifier _) fun name => ?_
  dsimp only
  split
  · exact h.throw _
  · refine .bind (h.accept _) fun _ => .ite ?_ (.bind h.skipNewlines fun _ => h.pure _)
    exact .bind (h.arguments hd _ _) fun _ => .bind h.skipNewlines fun _ => h.pure _

theorem eager_decorated (hd : Deeper.Has (fun {_} p => Orderly p) deeper) : Eager (decorated deeper) := by
  have h := orderly_closed
  refine .bind (eager_decorator hd) fun first => .bind (.rounds (fun taken => ?_) _) fun _ =>
    h.declarationBehind hd _ _
  exact .bind (h.check _) fun _ => .ite (.bind (h.decorator hd) fun _ => h.pure _) (h.pure _)

/-- **A statement that is read has taken a token.** -/
theorem eager_statement (hd : Deeper.Has (fun {_} p => Orderly p) deeper)
    (hd' : Deeper.Has (fun {_} p => Eager p) deeper) : Eager (statement deeper) := by
  have h := orderly_closed
  have hended : ∀ {p : Parse Statement}, Eager p → Eager (ended p) := fun hp =>
    .bind hp fun _ => .bind (.bind h.peekKind fun _ => .ite (h.pure _) h.unexpected) fun _ => h.pure _
  refine .behind looks_peekKind fun kind => ?_
  split
  · exact hended (eager_binding hd _)
  · exact hended (eager_binding hd _)
  · exact hended (.bind (eager_typeDeclaration _) fun _ => h.pure _)
  · exact hended (.bind .advance fun _ => .bind h.peekKind fun _ => .ite (h.pure _)
      (.bind (ReaderRelated.anyExpression hd) fun _ => h.pure _))
  · exact hended (.bind .advance fun _ => .bind (ReaderRelated.anyExpression hd) fun _ => h.pure _)
  · exact hended (.bind .advance fun _ => h.pure _)
  · exact hended (.bind .advance fun _ => h.pure _)
  · exact .bind .advance fun _ => h.pure _
  · exact .bind .advance fun _ => h.pure _
  · exact hended (eager_decorated hd)
  · exact hended (.bind hd'.block fun _ => h.pure _)
  · exact hended (.bind (hd'.expression _) fun _ => h.pure _)

end

end Parse
end UnionScript
