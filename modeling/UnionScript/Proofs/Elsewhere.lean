import UnionScript.Proofs.Sequence
/-!
# Elsewhere — tokens are read alike wherever they stand

What a reader answers follows from the tokens that are left and the end of file alone: the errors that were recorded
before, the depth it stands at and its faults show in what it records and in nothing else.  So tokens that are read
without an error at the start of a program are read so in any state (`statementsFrom_elsewhere`).
-/
namespace UnionScript

/-- A state with the same tokens left and the same end of file. -/
structure ParseState.Faces (s s' : ParseState) : Prop where
  rest : s'.rest = s.rest
  eof : s'.eof = s.eof

theorem ParseState.Faces.peek {s s' : ParseState} (h : s.Faces s') : s'.peek = s.peek := by
  rw [ParseState.peek, ParseState.peek, h.rest, h.eof]

namespace Parse

variable {α β : Type}

/-- A reader that, where it answers and records no error, does what another one does in every state that faces the same
tokens. -/
structure ReadsAlike (p p' : Parse α) : Prop where
  orderly : Orderly p
  same : ∀ {s t s' : ParseState} {a : α}, s.Faces s' → p s = .ok a t → t.errors = s.errors →
    ∃ t', p' s' = .ok a t' ∧ t.Faces t' ∧ t'.errors = s'.errors

namespace ReadsAlike

/-- A reader that leaves the state and answers what the tokens show. -/
theorem asks {f : ParseState → α} (hf : ∀ s s', s.Faces s' → f s' = f s) :
    ReadsAlike (fun s => .ok (f s) s : Parse α) (fun s => .ok (f s) s) where
  orderly s := .refl s
  same {s t s' a} hfaces hok _ := by
    cases hok
    exact ⟨s', congrArg (EStateM.Result.ok · s') (hf s s' hfaces), hfaces, rfl⟩

theorem fails {p : Parse α} (h : Orderly p) (hfails : ∀ s, ∃ e t, p s = .error e t) (p' : Parse α) : ReadsAlike p p' := by
  refine ⟨h, fun {s t s' a} _ hok _ => ?_⟩
  obtain ⟨e, u, hp⟩ := hfails s
  exact nomatch hp.symm.trans hok

theorem skip (separates : Token → Bool) :
    ReadsAlike (fun s => .ok () { s with rest := s.rest.dropWhile separates } : Parse Unit)
      (fun s => .ok () { s with rest := s.rest.dropWhile separates }) where
  orderly := Orderly.skip separates
  same {s t s' a} hfaces hok _ := by
    cases hok
    exact ⟨_, rfl, ⟨congrArg (List.dropWhile separates) hfaces.rest, hfaces.eof⟩, rfl⟩

theorem advance : ReadsAlike advance advance where
  orderly := orderly_closed.advance
  same {s t s' a} hfaces hok _ := by
    cases hok
    exact ⟨s'.advance, congrArg (EStateM.Result.ok · s'.advance) hfaces.peek, ⟨congrArg List.tail hfaces.rest, hfaces.eof⟩,
      rfl⟩

theorem bind {p p' : Parse α} {next next' : α → Parse β} (h : ReadsAlike p p')
    (hnext : ∀ a, ReadsAlike (next a) (next' a)) : ReadsAlike (p >>= next) (p' >>= next') := by
  refine ⟨h.orderly.bind fun a => (hnext a).orderly, fun {s u s' b} hfaces hok herrors => ?_⟩
  obtain ⟨a, t, hp, hb⟩ := Steps.of_bind_ok hok
  obtain ⟨hfirst, hsecond⟩ := errors_eq_of_continues (h.orderly.ok hp) ((hnext a).orderly.ok hb) herrors
  obtain ⟨t', hp', hfaces', herrors'⟩ := h.same hfaces hp hfirst
  obtain ⟨u', hb', hfaces'', herrors''⟩ := (hnext a).same hfaces' hb hsecond
  exact ⟨u', (Steps.bind_ok hp').trans hb', hfaces'', herrors''.trans herrors'⟩

theorem nested {p p' : Parse α} (h : ReadsAlike p p') : ReadsAlike (nested p) (nested p') := by
  refine ⟨h.orderly.nested, fun {s t s' a} hfaces hok herrors => ?_⟩
  cases hp : p { s with depth := s.depth + 1 } with
  | error e u => exact nomatch (nested_error hp).symm.trans hok
  | ok b u =>
    cases (nested_ok hp).symm.trans hok
    have hdeeper : ParseState.Faces { s with depth := s.depth + 1 } { s' with depth := s'.depth + 1 } :=
      ⟨hfaces.rest, hfaces.eof⟩
    obtain ⟨u', hp', hfaces', herrors'⟩ := h.same hdeeper hp herrors
    exact ⟨u'.ascend, nested_ok hp', ⟨hfaces'.rest, hfaces'.eof⟩, herrors'⟩

/-- By the number of tokens that are left, as the rounds of a repetition are. -/
theorem rounds {round round' : α → Parse (Round α β)} (h : ∀ a, ReadsAlike (round a) (round' a)) (a : α) :
    ReadsAlike (rounds round a) (rounds round' a) := by
  have horderly (a : α) : Orderly (Parse.rounds round a) := Orderly.rounds (fun a => (h a).orderly) a
  refine ⟨horderly a, fun {s t s' b} => ?_⟩
  induction hn : s.rest.length using Nat.strongRecOn generalizing a s s' with
  | ind n ih =>
    intro hfaces hok herrors
    cases hround : round a s with
    | error e u => exact nomatch (rounds_error hround).symm.trans hok
    | ok turn u =>
      cases turn with
      | done c =>
        cases (rounds_done hround).symm.trans hok
        obtain ⟨t', hround', hfaces', herrors'⟩ := (h a).same hfaces hround herrors
        exact ⟨t', rounds_done hround', hfaces', herrors'⟩
      | again next =>
        by_cases hless : u.rest.length < s.rest.length
        · have hrest := (rounds_again hround hless).symm.trans hok
          obtain ⟨hfirst, hsecond⟩ := errors_eq_of_continues ((h a).orderly.ok hround) ((horderly next).ok hrest) herrors
          obtain ⟨u', hround', hfaces', herrors'⟩ := (h a).same hfaces hround hfirst
          obtain ⟨t', hrest', hfaces'', herrors''⟩ := ih _ (hn ▸ hless) next rfl hfaces' hrest hsecond
          have hless' : u'.rest.length < s'.rest.length := by rwa [hfaces'.rest, hfaces.rest]
          exact ⟨t', (rounds_again hround' hless').trans hrest', hfaces'', herrors''.trans herrors'⟩
        · exact nomatch (rounds_stuck hround hless).symm.trans hok

/-- A statement that fails records why, so there is nothing to show of it. -/
theorem recovering {p p' : Parse α} (h : ReadsAlike p p') : ReadsAlike (recovering p) (recovering p') := by
  refine ⟨h.orderly.recovering, fun {s t s' found} hfaces hok herrors => ?_⟩
  cases hp : p s with
  | ok a u =>
    cases (recovering_ok hp).symm.trans hok
    obtain ⟨t', hp', hfaces', herrors'⟩ := h.same hfaces hp herrors
    exact ⟨t', recovering_ok hp', hfaces', herrors'⟩
  | error e u =>
    cases (recovering_error hp).symm.trans hok
    have hle := (h.orderly.error hp).errors.length_le
    exact absurd (congrArg List.length herrors) (Nat.ne_of_gt (Nat.lt_succ_of_le hle))

end ReadsAlike

/-- **Every reader reads alike wherever it stands.** -/
theorem readsAlike_closed : ReaderRelated fun {_} p p' => ReadsAlike p p' where
  pure _ := .asks fun _ _ _ => rfl
  throw e := .fails (orderly_closed.throw e) (fun _ => ⟨_, _, rfl⟩) _
  bind := ReadsAlike.bind
  peek := .asks fun _ _ h => h.peek
  peekKind := .asks fun _ _ h => congrArg Token.kind h.peek
  secondKind := .asks fun s s' h => by rw [h.rest, h.eof]
  lookAhead := .asks fun _ _ h => h.rest
  advance := .advance
  unexpected := .fails orderly_closed.unexpected (fun _ => ⟨_, _, rfl⟩) _
  expected what := .fails (orderly_closed.expected what) (fun _ => ⟨_, _, rfl⟩) _
  check kind := .asks fun _ _ h => congrArg (·.kind == kind) h.peek
  skipNewlines := .skip _
  skipSeparators := .skip _
  skipEntrySeparators := .skip _
  tooDeep span p := .fails (orderly_closed.tooDeep span p) (fun _ => ⟨_, _, rfl⟩) p
  nested := ReadsAlike.nested
  rounds := ReadsAlike.rounds
  recovering := ReadsAlike.recovering

/-- **Statements are read alike wherever they stand**, in front of the end of file. -/
theorem statementsFrom_elsewhere {room : Nat} {inBlock : Bool} {s t s' : ParseState} {sts : List Statement}
    (h : statementsFrom room inBlock [] s = .ok sts t) (herrors : t.errors = s.errors) (hfaces : s.Faces s') :
    ∃ t', statementsFrom room inBlock [] s' = .ok sts t' ∧ t.Faces t' ∧ t'.errors = s'.errors :=
  (readsAlike_closed.statements (readsAlike_closed.deeperAt room) inBlock).same hfaces h herrors

end Parse
end UnionScript
