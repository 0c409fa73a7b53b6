import UnionScript.Proofs.Sequence
import UnionScript.Proofs.TypeGrammar
/-!
# Declarations — sources made of type declarations only

The tokens of such a source are separators, comments and the tokens of declarations, each ended by one that may end a
statement (`Declarations`).  A program read without errors that holds nothing else comes from such tokens
(`of_statementsFrom`), and from such tokens the same statements are read whatever follows (`statementsFrom_before`): no
declaration reaches beyond the line end behind it.
-/
namespace UnionScript

/-- Whether a statement is a type declaration without decorators; comments may stand between them. -/
def Statement.IsBareDeclaration : Statement → Prop
  | .typeDeclaration d => d.decorators = []
  | .comment _ _ _ => True
  | _ => False

instance : DecidablePred Statement.IsBareDeclaration
  | .typeDeclaration d => decidable_of_iff (d.decorators.isEmpty = true) List.isEmpty_iff
  | .comment _ _ _ => .isTrue trivial
  | .binding _ _ _ | .return _ _ | .defer _ _ | .jump _ _ | .block _ | .expression _ => .isFalse id

/-- Whether a statement is neither a type declaration nor a comment. -/
def Statement.IsOther : Statement → Prop
  | .typeDeclaration _ | .comment _ _ _ => False
  | _ => True

theorem Statement.IsOther.not_bare {st : Statement} (h : st.IsOther) : ¬st.IsBareDeclaration := by
  cases st with
  | typeDeclaration d => exact h.elim
  | comment text roxygen span => exact h.elim
  | _ => exact id

namespace Grammar

/-! ## Where tokens end -/

/-- Tokens of which the last one is no line end. -/
def EndsInLine (ts : List Token) : Prop := ∃ init t, ts = init ++ [t] ∧ t.kind ≠ .newline

theorem EndsInLine.single {t : Token} (h : t.kind ≠ .newline) : EndsInLine [t] := ⟨[], t, rfl, h⟩

theorem EndsInLine.behind {ts : List Token} (us : List Token) : EndsInLine ts → EndsInLine (us ++ ts)
  | ⟨init, t, hts, ht⟩ => ⟨us ++ init, t, by rw [hts, List.append_assoc], ht⟩

theorem Alternative.endsInLine {ts : List Token} {t : TypeName} (h : Alternative ts t) : EndsInLine ts := by
  induction h with
  | named hname => exact .single (by simp [hname])
  | @packaged package access name _ _ hname => exact .behind [package, access] (.single (by simp [hname]))
  | @list mark _ _ _ _ _ ih => exact ih.behind [mark]

theorem Alternatives.endsInLine {ts : List Token} {all : List TypeName} (h : Alternatives ts all) :
    ts = [] ∨ EndsInLine ts := by
  induction h with
  | nil => exact .inl rfl
  | @cons bar breaks ts more _ _ _ _ h _ ih =>
    refine .inr (.behind [bar] (.behind breaks ?_))
    rcases ih with rfl | ih
    · rw [List.append_nil]
      exact h.endsInLine
    · exact ih.behind ts

theorem Annotation.endsInLine {ts : List Token} {u : Union} (h : Annotation ts u) : EndsInLine ts := by
  cases h with
  | @intro first more _ _ h hmore =>
    rcases hmore.endsInLine with rfl | hmore
    · rw [List.append_nil]
      exact h.endsInLine
    · exact hmore.behind first

theorem Entries.endsInLine {ts : List Token} {listed result : Listed} (h : Entries ts listed result) :
    EndsInLine ts := by
  induction h with
  | close _ hbrace => exact .behind _ (.single (by simp [hbrace]))
  | cons _ _ _ _ ih => exact (ih.behind _).behind _

theorem Declaration.endsInLine {ts : List Token} {d : TypeDeclaration} (h : Declaration ts d) : EndsInLine ts := by
  cases h with
  | @plain word name colon _ _ _ _ _ h => exact h.endsInLine.behind [word, name, colon]
  | @composite word name colon announced brace _ _ _ _ _ _ _ _ _ _ h =>
    exact h.endsInLine.behind [word, name, colon, announced, brace]

/-! ## Sources -/

/-- Whether a token may stand behind a declaration. -/
def endsDeclaration (t : Token) : Bool :=
  Parse.endsStatement t.kind || t.kind == .comment || t.kind == .roxygenComment

/-- The tokens of type declarations and comments with separators between them, and the statements they are. -/
inductive Declarations : List Token → List Statement → Prop
  | nil {separators : List Token} (hseparators : ∀ t ∈ separators, Parse.isSeparator t) : Declarations separators []
  | comment {separators more : List Token} {t : Token} {roxygen : Bool} {read : List Statement}
    (hseparators : ∀ t ∈ separators, Parse.isSeparator t)
    (hkind : t.kind = if roxygen then .roxygenComment else .comment) (hmore : Declarations more read) :
    Declarations (separators ++ ([t] ++ more)) (.comment t.text roxygen t.span :: read)
  | declaration {separators ts more : List Token} {d : TypeDeclaration} {read : List Statement}
    (hseparators : ∀ t ∈ separators, Parse.isSeparator t) (h : Declaration ts d)
    (hend : more.head?.any endsDeclaration) (hmore : Declarations more read) :
    Declarations (separators ++ (ts ++ more)) (.typeDeclaration d :: read)

theorem Declaration.exists_cons {ts : List Token} {d : TypeDeclaration} (h : Declaration ts d) :
    ∃ word rest, ts = word :: rest ∧ word.kind = .keyword .type := by
  cases h with
  | plain hword => exact ⟨_, _, rfl, hword⟩
  | composite hword => exact ⟨_, _, rfl, hword⟩

end Grammar

namespace Parse

open Grammar Steps

variable {room : Nat} {deeper : Deeper} {s s' : ParseState}

/-! ## Reading a statement -/

theorem ended_ok {p : Parse Statement} {st : Statement} (h : p s = .ok st s') (hend : endsDeclaration s'.peek = true) :
    ended p s = .ok st s' := by
  unfold ended
  rw [bind_ok h]
  have hstop : statementEnd s' = .ok () s' := by
    show (if endsDeclaration s'.peek = true then pure () else unexpected : Parse Unit) s' = _
    rw [if_pos hend]
    rfl
  rw [bind_ok hstop]
  rfl

theorem of_ended {p : Parse Statement} {st : Statement} (h : ended p s = .ok st s') :
    p s = .ok st s' ∧ endsDeclaration s'.peek = true := by
  obtain ⟨st', u, hp, h₁⟩ := of_bind_ok h
  obtain ⟨_, v, hstop, h₂⟩ := of_bind_ok h₁
  cases h₂
  have hstop : (if endsDeclaration u.peek = true then pure () else unexpected : Parse Unit) u = .ok () s' := hstop
  split at hstop
  · rename_i hend
    cases hstop
    exact ⟨hp, hend⟩
  · exact nomatch hstop

/-- What is read where a token of a kind is next. -/
def statementOf (deeper : Deeper) : TokenKind → Parse Statement
  | .keyword .let => ended (binding deeper false)
  | .keyword .const => ended (binding deeper true)
  | .keyword .type => ended (return .typeDeclaration (← typeDeclaration []))
  | .keyword .return => ended (returnStatement deeper)
  | .keyword .defer => ended (deferStatement deeper)
  | .keyword .break => ended (jump .break)
  | .keyword .next => ended (jump .next)
  | .comment => comment false
  | .roxygenComment => comment true
  | .atSign => ended (decorated deeper)
  | .leftBrace => ended (return .block (← deeper.block))
  | _ => ended (return .expression (← anyExpression deeper))

theorem statement_eq (s : ParseState) : statement deeper s = statementOf deeper s.peek.kind s := rfl

/-- What stands behind a declaration does not belong to it. -/
theorem endsDeclaration_ne {t : Token} (h : endsDeclaration t = true) :
    t.kind ≠ .or ∧ t.kind ≠ .namespaceAccess ∧ t.kind ≠ .leftBrace := by
  refine ⟨?_, ?_, ?_⟩ <;> intro e <;> simp [endsDeclaration, endsStatement, e] at h

theorem statement_before_declaration {ts : List Token} {d : TypeDeclaration} (h : Declaration ts d)
    (hend : endsDeclaration s.peek = true) : statement deeper (s.before ts) = .ok (.typeDeclaration d) s := by
  obtain ⟨hor, hnext, hbrace⟩ := endsDeclaration_ne hend
  have hread := typeDeclaration_before h hor hnext hbrace
  obtain ⟨word, rest, rfl, hword⟩ := h.exists_cons
  rw [statement_eq, ParseState.peek_before_cons, hword]
  exact ended_ok (bind_ok hread) hend

theorem statement_before_comment {t : Token} (roxygen : Bool)
    (h : t.kind = if roxygen then .roxygenComment else .comment) :
    statement deeper (s.before [t]) = .ok (.comment t.text roxygen t.span) s := by
  rw [statement_eq, ParseState.peek_before_cons, h]
  cases roxygen <;> rfl

/-! ## What a statement can be -/

/-- What holds of every answer of a reader. -/
def Answers {α : Type} (p : Parse α) (holds : α → Prop) : Prop := ∀ s a s', p s = .ok a s' → holds a

section Answers

variable {α β : Type} {holds : β → Prop}

theorem answers_pure {b : β} (h : holds b) : Answers (pure b) holds := by
  rintro s _ _ ⟨⟩
  exact h

theorem answers_bind (known : α → Prop) {p : Parse α} {next : α → Parse β} (h : Answers p known)
    (hnext : ∀ a, known a → Answers (next a) holds) : Answers (p >>= next) holds := by
  intro s b s' hb
  obtain ⟨a, t, hp, hb⟩ := of_bind_ok hb
  exact hnext a (h s a t hp) t b s' hb

theorem answers_next {p : Parse α} {next : α → Parse β} (hnext : ∀ a, Answers (next a) holds) :
    Answers (p >>= next) holds :=
  answers_bind (fun _ => True) (fun _ _ _ _ => trivial) fun a _ => hnext a

theorem answers_ite {c : Prop} [Decidable c] {p q : Parse β} (h : Answers p holds) (h' : Answers q holds) :
    Answers (if c then p else q) holds := by
  split
  · exact h
  · exact h'

theorem answers_throw (e : ParseError) : Answers (throw e) holds := by
  rintro s b s' ⟨⟩

theorem answers_expected (what : String) : Answers (expected what) holds := by
  rintro s b s' ⟨⟩

theorem answers_ended {p : Parse Statement} {holds : Statement → Prop} (h : Answers p holds) :
    Answers (ended p) holds :=
  fun _ _ _ hp => h _ _ _ (of_ended hp).1

theorem answers_rounds (known : α → Prop) {round : α → Parse (Round α β)}
    (h : ∀ a, known a → Answers (round a) fun turn => match turn with | .again next => known next | .done b => holds b)
    {a : α} (ha : known a) : Answers (rounds round a) holds := by
  intro s b s' hb
  refine of_rounds (motive := fun a _ => known a → holds b) ?_ ?_ hb ha
  · intro a t hround ha
    exact h a ha t _ s' hround
  · intro a t next u hround ih ha
    exact ih (h a ha t _ u hround)

end Answers

theorem answers_fitting (word : Token) (d : TypeDeclaration) {holds : TypeDeclaration → Prop} (h : holds d) :
    Answers (fitting word d) holds := by
  unfold fitting
  split
  · exact answers_throw _
  · exact answers_pure h

/-- A declaration keeps the decorators it was given. -/
theorem answers_typeDeclaration (decorators : List Decorator) :
    Answers (typeDeclaration decorators) fun d => d.decorators = decorators := by
  refine answers_next fun word => answers_next fun _ => answers_next fun colon => answers_ite ?_ (answers_throw _)
  refine answers_next fun found => ?_
  cases found with
  | some kind => exact answers_next fun _ => answers_next fun _ => answers_fitting word _ rfl
  | none => exact answers_next fun _ => answers_fitting word _ rfl

/-- What is decorated is no bare declaration. -/
theorem answers_declarationBehind {decorators : List Decorator} (hsome : decorators ≠ []) (last : Decorator) :
    Answers (declarationBehind deeper decorators last) fun st => ¬st.IsBareDeclaration := by
  refine answers_next fun kind => ?_
  split
  · exact answers_bind _ (answers_typeDeclaration decorators) fun d hd => answers_pure fun hbare => hsome (hd ▸ hbare)
  · split
    · exact answers_throw _
    · exact answers_next fun _ => answers_next fun _ => answers_pure nofun
  · exact answers_throw _

theorem answers_decorated : Answers (decorated deeper) fun st => ¬st.IsBareDeclaration := by
  let known (listed : List Decorator × Decorator) : Prop := listed.1 ≠ []
  refine answers_next fun first => answers_bind known ?_ fun listed hlisted =>
    answers_declarationBehind hlisted listed.2
  refine answers_rounds known (fun listed hlisted => ?_) (List.cons_ne_nil first [])
  refine answers_next fun another => answers_ite ?_ (answers_pure hlisted)
  exact answers_next fun d => answers_pure (List.append_ne_nil_of_right_ne_nil _ (List.cons_ne_nil d []))

theorem answers_binding (constant : Bool) : Answers (binding deeper constant) Statement.IsOther := by
  refine answers_next fun _ => answers_next fun _ => answers_next fun _ => answers_next fun initial => ?_
  refine answers_ite (answers_next fun _ => answers_next fun _ => answers_pure trivial) ?_
  exact answers_ite (answers_expected _) (answers_pure trivial)

theorem answers_returnStatement : Answers (returnStatement deeper) Statement.IsOther :=
  answers_next fun _ => answers_next fun _ => answers_ite (answers_pure trivial)
    (answers_next fun _ => answers_pure trivial)

theorem answers_deferStatement : Answers (deferStatement deeper) Statement.IsOther :=
  answers_next fun _ => answers_next fun _ => answers_pure trivial

theorem answers_jump (kind : Jump) : Answers (jump kind) Statement.IsOther :=
  answers_next fun _ => answers_pure trivial

/-- Tokens of other kinds start neither a type declaration nor a comment. -/
theorem answers_statementOf_other {kind : TokenKind} (htype : kind ≠ .keyword .type) (hat : kind ≠ .atSign)
    (hcomment : kind ≠ .comment) (hroxygen : kind ≠ .roxygenComment) :
    Answers (statementOf deeper kind) Statement.IsOther := by
  unfold statementOf
  split
  · exact answers_ended (answers_binding false)
  · exact answers_ended (answers_binding true)
  · exact absurd rfl htype
  · exact answers_ended answers_returnStatement
  · exact answers_ended answers_deferStatement
  · exact answers_ended (answers_jump .break)
  · exact answers_ended (answers_jump .next)
  · exact absurd rfl hcomment
  · exact absurd rfl hroxygen
  · exact absurd rfl hat
  · exact answers_ended (answers_next fun _ => answers_pure trivial)
  · exact answers_ended (answers_next fun _ => answers_pure trivial)

/-- Only the word of a declaration and comments start bare declarations. -/
theorem answers_statementOf {kind : TokenKind} (htype : kind ≠ .keyword .type) (hcomment : kind ≠ .comment)
    (hroxygen : kind ≠ .roxygenComment) : Answers (statementOf deeper kind) fun st => ¬st.IsBareDeclaration := by
  by_cases hat : kind = .atSign
  · rw [hat]
    exact answers_ended answers_decorated
  · exact fun s st s' h => (answers_statementOf_other htype hat hcomment hroxygen s st s' h).not_bare

theorem of_statement {st : Statement} (h : statement deeper s = .ok st s') (heof : s.eof.kind = .eof)
    (hbare : st.IsBareDeclaration) :
    (∃ ts d, s = s'.before ts ∧ Declaration ts d ∧ st = .typeDeclaration d ∧ endsDeclaration s'.peek = true) ∨
      ∃ t roxygen, s = s'.before [t] ∧ t.kind = (if roxygen then .roxygenComment else .comment) ∧
        st = .comment t.text roxygen t.span := by
  rw [statement_eq] at h
  by_cases htype : s.peek.kind = .keyword .type
  · rw [htype] at h
    obtain ⟨hread, hend⟩ := of_ended h
    obtain ⟨d, u, hread, h₁⟩ := of_bind_ok hread
    cases h₁
    obtain ⟨ts, hs, hts⟩ := of_typeDeclaration hread heof htype
    exact .inl ⟨ts, d, hs, hts, rfl, hend⟩
  have hcomment (roxygen : Bool) (hkind : s.peek.kind = if roxygen then .roxygenComment else .comment)
      (h : comment roxygen s = .ok st s') : ∃ t roxygen, s = s'.before [t] ∧
        t.kind = (if roxygen then .roxygenComment else .comment) ∧ st = .comment t.text roxygen t.span := by
    cases h
    exact ⟨s.peek, roxygen, ParseState.exists_before heof (by cases roxygen <;> simp [hkind]), hkind, rfl⟩
  by_cases hplain : s.peek.kind = .comment
  · rw [hplain] at h
    exact .inr (hcomment false hplain h)
  by_cases hroxygen : s.peek.kind = .roxygenComment
  · rw [hroxygen] at h
    exact .inr (hcomment true hroxygen h)
  · exact absurd hbare (answers_statementOf htype hplain hroxygen s st s' h)

/-! ## Reading a source -/

/-- A statement that can be read is the next one of a run. -/
theorem statementsFrom_next {room : Nat} {st : Statement} {first : Token} {rest : List Token}
    (hrest : s.rest = first :: rest) (heof : s.eof.kind = .eof) (hseparator : ¬isSeparator first)
    (hproper : first.kind ≠ .eof) (h : statement (deeperAt room) s = .ok st s') (taken : List Statement) :
    statementsFrom room false taken s = statementsFrom room false (taken ++ [st]) s' := by
  have hskipped : skipped s = s := by
    rw [skipped, hrest, List.dropWhile_cons_of_neg hseparator, ← hrest]
  have hstops : ¬stops false s := by
    rintro (hkind | ⟨hblock, -⟩)
    · rw [ParseState.peek, hrest] at hkind
      exact hproper hkind
    · cases hblock
  rw [statementsFrom_eq heof, hskipped, if_neg hstops, next_ok h]
  rfl

/-- **Declarations are read the same whatever follows them.** -/
theorem statementsFrom_before {room : Nat} {ts : List Token} {read : List Statement} (h : Declarations ts read)
    (heof : s.eof.kind = .eof) (taken : List Statement) :
    statementsFrom room false taken (s.before ts) = statementsFrom room false (taken ++ read) s := by
  induction h generalizing taken with
  | nil hseparators =>
    rw [List.append_nil]
    exact statementsFrom_separators heof taken hseparators
  | @comment separators more t roxygen read hseparators hkind _ ih =>
    have hread : statement (deeperAt room) ((s.before more).before [t]) =
        .ok (.comment t.text roxygen t.span) (s.before more) := statement_before_comment roxygen hkind
    have hskip : statementsFrom room false taken (((s.before more).before [t]).before separators) =
        statementsFrom room false taken ((s.before more).before [t]) :=
      statementsFrom_separators (s := (s.before more).before [t]) heof taken hseparators
    have hrest : ((s.before more).before [t]).rest = t :: (s.before more).rest := rfl
    have hseparator : ¬isSeparator t := by cases roxygen <;> simp [isSeparator, hkind]
    have hproper : t.kind ≠ .eof := by cases roxygen <;> simp [hkind]
    rw [ParseState.before_append, ParseState.before_append, hskip,
      statementsFrom_next hrest heof hseparator hproper hread, ih, List.append_assoc]
    rfl
  | @declaration separators ts more d read hseparators hts hend _ ih =>
    obtain ⟨t, ht, hends⟩ := (Option.any_eq_true _ _).1 hend
    have hpeek : endsDeclaration (s.before more).peek = true := by
      have hhead : (s.before more).rest.head? = some t := by rw [ParseState.rest_before, List.head?_append, ht]; rfl
      rw [peek_of_head? hhead]
      exact hends
    have hread : statement (deeperAt room) ((s.before more).before ts) = .ok (.typeDeclaration d) (s.before more) :=
      statement_before_declaration hts hpeek
    have hskip : statementsFrom room false taken (((s.before more).before ts).before separators) =
        statementsFrom room false taken ((s.before more).before ts) :=
      statementsFrom_separators (s := (s.before more).before ts) heof taken hseparators
    obtain ⟨word, rest, rfl, hword⟩ := hts.exists_cons
    have hrest' : ((s.before more).before (word :: rest)).rest = word :: (rest ++ (s.before more).rest) := rfl
    rw [ParseState.before_append, ParseState.before_append, hskip,
      statementsFrom_next hrest' heof (by simp [isSeparator, hword]) (by simp [hword]) hread, ih, List.append_assoc]
    rfl

theorem rest_eq_nil_of_peek (hproper : ∀ t ∈ s.rest, t.kind ≠ .eof) (h : s.peek.kind = .eof) : s.rest = [] := by
  cases hrest : s.rest with
  | nil => rfl
  | cons t rest =>
    rw [ParseState.peek, hrest] at h
    exact absurd h (hproper t (hrest ▸ List.mem_cons_self))

/-- A statement behind which no error is recorded can be read. -/
theorem statement_of_next {room : Nat} (h : (next room s).2.Continues s')
    (herrors : s'.errors.length = s.errors.length) :
    ∃ st, statement (deeperAt room) s = .ok st (next room s).2 ∧ (next room s).1 = some st ∧
      (next room s).2.errors.length = s.errors.length := by
  have hd := orderly_closed.statement (orderly_closed.deeperAt room)
  cases hstatement : statement (deeperAt room) s with
  | error e u =>
    rw [next_error hstatement] at h
    have hmore : (e :: u.errors).length ≤ s'.errors.length := h.errors.length_le
    have hbefore : s.errors.length ≤ u.errors.length := (hd.error hstatement).errors.length_le
    rw [List.length_cons] at hmore
    omega
  | ok st u =>
    rw [next_ok hstatement] at h ⊢
    have hle : u.errors.length ≤ s'.errors.length := h.errors.length_le
    have hge : s.errors.length ≤ u.errors.length := (hd.ok hstatement).errors.length_le
    have hsame : u.errors.length = s.errors.length := by omega
    exact ⟨st, rfl, rfl, hsame⟩

/-- What is read as a bare declaration in front of declarations is one more declaration. -/
theorem declarations_of_statement {st : Statement} {read : List Statement} {separators : List Token}
    (h : statement deeper s = .ok st s') (heof : s.eof.kind = .eof) (hbare : st.IsBareDeclaration)
    (hseparators : ∀ t ∈ separators, isSeparator t) (hlast : ¬EndsInLine (separators ++ s.rest))
    (hafter : ¬EndsInLine s'.rest → Declarations s'.rest read) :
    Declarations (separators ++ s.rest) (st :: read) := by
  rcases of_statement h heof hbare with ⟨ts, d, hs, hts, rfl, hend⟩ | ⟨c, roxygen, hs, hkind, rfl⟩
  · have hrest : s.rest = ts ++ s'.rest := by rw [hs]; rfl
    rw [hrest] at hlast ⊢
    have hlast' : ¬EndsInLine s'.rest := fun hends => hlast ((hends.behind _).behind _)
    have hmore : s'.rest ≠ [] := by
      intro hnil
      rw [hnil, List.append_nil] at hlast
      exact hlast (hts.endsInLine.behind _)
    obtain ⟨first, more, hmore⟩ := List.exists_cons_of_ne_nil hmore
    refine .declaration hseparators hts ?_ (hafter hlast')
    rw [ParseState.peek, hmore] at hend
    rw [hmore]
    exact hend
  · have hrest : s.rest = [c] ++ s'.rest := by rw [hs]; rfl
    rw [hrest] at hlast ⊢
    exact .comment hseparators hkind (hafter fun hends => hlast ((hends.behind _).behind _))

/-- **A source read without errors that holds bare declarations only comes from their tokens.** -/
theorem of_statementsFrom {room : Nat} {taken read : List Statement} (heof : s.eof.kind = .eof)
    (hproper : ∀ t ∈ s.rest, t.kind ≠ .eof) (hlast : ¬EndsInLine s.rest)
    (h : statementsFrom room false taken s = .ok (taken ++ read) s') (herrors : s'.errors.length = s.errors.length)
    (hbare : ∀ st ∈ read, st.IsBareDeclaration) : Declarations s.rest read := by
  induction hn : s.rest.length using Nat.strongRecOn generalizing s taken read with
  | ind n ih =>
    rw [statementsFrom_eq heof] at h
    have hsplit : s.rest = s.rest.takeWhile isSeparator ++ (skipped s).rest := List.takeWhile_append_dropWhile.symm
    have hseparators : ∀ t ∈ s.rest.takeWhile isSeparator, isSeparator t := List.all_eq_true.1 List.all_takeWhile
    have hskipped : ∀ t ∈ (skipped s).rest, t.kind ≠ .eof := fun t ht =>
      hproper t ((List.dropWhile_suffix _).subset ht)
    by_cases hstops : stops false (skipped s)
    · rw [if_pos hstops] at h
      obtain ⟨hread, -⟩ := EStateM.Result.ok.inj h
      rw [List.self_eq_append_right.1 hread]
      rw [rest_eq_nil_of_peek hskipped (hstops.resolve_right nofun), List.append_nil] at hsplit
      rw [hsplit]
      exact .nil hseparators
    rw [if_neg hstops] at h
    have hnext : (skipped s).Continues (next room (skipped s)).2 :=
      (Orderly.recovering (orderly_closed.statement (orderly_closed.deeperAt room))).ok (recovering_statement _)
    have hless : (next room (skipped s)).2.rest.length < n :=
      hn ▸ Nat.lt_of_lt_of_le (length_next_lt (skipped_rest_ne_nil heof hstops)) (length_skipped_le s)
    have heof' : (next room (skipped s)).2.eof.kind = .eof := by rw [hnext.eof]; exact heof
    obtain ⟨read', t, ht, -, hread⟩ : ∃ read' t, (next room (skipped s)).2.Continues t ∧ stops false t ∧
        ∀ taken, statementsFrom room false taken (next room (skipped s)).2 = .ok (taken ++ read') t :=
      statementsFrom_ok heof'
    rw [hread] at h
    obtain ⟨hall, rfl⟩ := EStateM.Result.ok.inj h
    rw [List.append_assoc] at hall
    have hall := List.append_cancel_left hall
    subst hall
    -- No error is recorded in the whole run, so this statement can be read, and then all that is behind it.
    obtain ⟨st, hstatement, hsome, hnone⟩ := statement_of_next ht herrors
    rw [hsome] at hbare ⊢
    obtain ⟨hst, hbare'⟩ := List.forall_mem_cons.1 hbare
    have hafter (hlast' : ¬EndsInLine (next room (skipped s)).2.rest) :
        Declarations (next room (skipped s)).2.rest read' :=
      ih _ hless heof' (fun t ht => hskipped t (hnext.rest.subset ht)) hlast' (hread []) (herrors.trans hnone.symm)
        hbare' rfl
    rw [hsplit] at hlast ⊢
    exact declarations_of_statement hstatement heof hst hseparators hlast hafter

end Parse
end UnionScript
