import UnionScript.Proofs.Runs
/-!
# Blame — the tokens that errors are reported for

Whatever a reader fails with, and whatever it records on the way, there is a reason for it among the tokens that it reads
(`Knowledge.Explains`): an error is reported for the next token or for some that were taken, one for a string that is not
closed for its opening quote and its content, and one for a number for a token that is none.

What stands between quotes is a token of its own, and no error but the one for a string that is not closed is reported for
it.  The reason is that readers stop in front of the content of a string only right behind its opening quote: tokens come
in strings (`Knowledge.Strung`), and whatever is taken, and wherever reading goes on behind an error, they still do.
-/
namespace UnionScript

/-! ## What is known of tokens -/

/-- What is known of some tokens: of each of them that is no content of a string, and of the opening quote and the content
of a string that is not closed. -/
structure Knowledge where
  solid : Token → Prop
  unclosed : Token → Token → Prop

namespace Knowledge

variable (known : Knowledge)

/-- Tokens of which the content of a string stands behind its opening quote, and in front of the closing one if there is
one. -/
inductive Strung : List Token → Prop where
  | nil : Strung []
  | token {t : Token} {ts : List Token} : known.solid t → t.kind ≠ .quote → Strung ts → Strung (t :: ts)
  | closed {opening content closing : Token} {ts : List Token} : known.solid opening → opening.kind = .quote →
      content.kind = .string → known.solid closing → closing.kind = .quote → Strung ts →
      Strung (opening :: content :: closing :: ts)
  | unclosed {opening content : Token} {ts : List Token} : known.solid opening → opening.kind = .quote →
      content.kind = .string → known.unclosed opening content → (∀ t ∈ ts.head?, t.kind ≠ .quote) → Strung ts →
      Strung (opening :: content :: ts)

/-- A span from some tokens to others. -/
inductive Around : Span → Prop where
  | token {t : Token} : known.solid t → Around t.span
  | union {a b : Span} : Around a → Around b → Around (a.union b)

/-- There is a reason for an error among the tokens. -/
def Explains : ParseError → Prop
  | .unterminatedString span =>
    ∃ opening content, known.unclosed opening content ∧ span = opening.span.union content.span
  | .invalidLiteral text span =>
    ∃ t, known.solid t ∧ (t.kind = .integer ∨ t.kind = .float) ∧ t.text = text ∧ t.span = span ∧
      Numeral.isNumeral text = false
  | e => known.Around e.span

/-- The tokens that are left come in strings, and there is a reason for every error recorded. -/
structure Sound (s : ParseState) : Prop where
  rest : known.Strung s.rest
  eof : known.solid s.eof
  kind : s.eof.kind = .eof
  errors : ∀ e ∈ s.errors, known.Explains e

variable {known} {ts : List Token} {s : ParseState}

namespace Strung

theorem append {ts' : List Token} (h : known.Strung ts) (hhead : ∀ t ∈ ts'.head?, t.kind ≠ .quote)
    (h' : known.Strung ts') : known.Strung (ts ++ ts') := by
  induction h with
  | nil => exact h'
  | token ht hkind _ ih => exact .token ht hkind ih
  | closed hopening hquote hcontent hclosing hquote' _ ih => exact .closed hopening hquote hcontent hclosing hquote' ih
  | @unclosed _ _ ts hopening hquote hcontent hunclosed hnext _ ih =>
    refine .unclosed hopening hquote hcontent hunclosed ?_ ih
    cases ts with
    | nil => exact hhead
    | cons t ts => exact hnext

/-- Behind tokens that are no quotes. -/
theorem dropWhile {skips : Token → Bool} (hskips : ∀ t, skips t = true → t.kind ≠ .quote) (h : known.Strung ts) :
    known.Strung (ts.dropWhile skips) := by
  induction h with
  | nil => exact .nil
  | token ht hkind hrest ih =>
    rw [List.dropWhile_cons]
    split
    · exact ih
    · exact .token ht hkind hrest
  | closed hopening hquote hcontent hclosing hquote' hrest _ =>
    rw [List.dropWhile_cons_of_neg fun h => hskips _ h hquote]
    exact .closed hopening hquote hcontent hclosing hquote' hrest
  | unclosed hopening hquote hcontent hunclosed hnext hrest _ =>
    rw [List.dropWhile_cons_of_neg fun h => hskips _ h hquote]
    exact .unclosed hopening hquote hcontent hunclosed hnext hrest

/-! ### Behind an error -/

theorem resume_cons {t : Token} (h : t.kind = .quote ∨ t.kind = .string) (ts : List Token) :
    Parse.resume (t :: ts) = Parse.resume ts := by
  rw [Parse.resume]
  rcases h with h | h <;> simp [Parse.isSeparator, h]

theorem resume (h : known.Strung ts) : known.Strung (Parse.resume ts) := by
  induction h with
  | nil => exact .nil
  | token ht hkind hrest ih =>
    rw [Parse.resume]
    split
    · exact hrest
    · split
      · exact .token ht hkind hrest
      · exact ih
  | closed _ hquote hcontent _ hquote' _ ih =>
    rwa [resume_cons (.inl hquote), resume_cons (.inr hcontent), resume_cons (.inl hquote')]
  | unclosed _ hquote hcontent _ _ _ ih => rwa [resume_cons (.inl hquote), resume_cons (.inr hcontent)]

/-- Where a token is passed over that may be an opening quote, its string is passed over as well. -/
theorem resume_tail (h : known.Strung ts) : known.Strung (Parse.resume ts.tail) := by
  cases h with
  | nil => exact .nil
  | token _ _ hrest => exact hrest.resume
  | closed _ _ hcontent _ hquote' hrest =>
    rw [List.tail_cons, resume_cons (.inr hcontent), resume_cons (.inl hquote')]
    exact hrest.resume
  | unclosed _ _ hcontent _ _ hrest =>
    rw [List.tail_cons, resume_cons (.inr hcontent)]
    exact hrest.resume

end Strung

namespace Sound

theorem peek (h : known.Sound s) : known.solid s.peek := by
  obtain ⟨rest, eof, errors, depth, fault⟩ := s
  obtain ⟨hrest, heof, -, -⟩ := h
  cases hrest with
  | nil => exact heof
  | token ht => exact ht
  | closed ht => exact ht
  | unclosed ht => exact ht

theorem advance (h : known.Sound s) (hkind : s.peek.kind ≠ .quote) : known.Sound s.advance := by
  obtain ⟨rest, eof, errors, depth, fault⟩ := s
  obtain ⟨hrest, heof, hends, herrors⟩ := h
  refine ⟨?_, heof, hends, herrors⟩
  cases hrest with
  | nil => exact .nil
  | token _ _ hrest => exact hrest
  | closed _ hquote => exact absurd hquote hkind
  | unclosed _ hquote => exact absurd hquote hkind

theorem dropWhile {skips : Token → Bool} (hskips : ∀ t, skips t = true → t.kind ≠ .quote) (h : known.Sound s) :
    known.Sound { s with rest := s.rest.dropWhile skips } :=
  ⟨h.rest.dropWhile hskips, h.eof, h.kind, h.errors⟩

/-- How deep expressions nest plays no part. -/
theorem relevel (h : known.Sound s) (depth : Nat) (fault : Bool) : known.Sound { s with depth, fault } :=
  ⟨h.rest, h.eof, h.kind, h.errors⟩

theorem record {e : ParseError} (h : known.Sound s) (he : known.Explains e) : known.Sound (s.record e) :=
  ⟨h.rest, h.eof, h.kind, List.forall_mem_cons.2 ⟨he, h.errors⟩⟩

end Sound

/-! ## Readers -/

/-- From a state on, a reader answers something that holds, or there is a reason for the error it fails with; and for what
it records there is one in either case. -/
def Gives {α : Type} (known : Knowledge) (s : ParseState) (p : Parse α) (holds : α → Prop) : Prop :=
  match p s with
  | .ok a t => known.Sound t ∧ holds a
  | .error e t => known.Sound t ∧ known.Explains e

/-- From every state in which tokens come in strings. -/
def AlwaysGives {α : Type} (known : Knowledge) (p : Parse α) (holds : α → Prop) : Prop :=
  ∀ s, known.Sound s → known.Gives s p holds

/-- Nothing has to be known of the answer. -/
abbrev Fair {α : Type} (known : Knowledge) (p : Parse α) : Prop := known.AlwaysGives p fun _ => True

section Readers

open Parse

variable {α β : Type} {holds : β → Prop}

section Results

variable {p : Parse β} {t : ParseState}

theorem Gives.ok {b : β} (h : known.Gives s p holds) (hp : p s = .ok b t) : known.Sound t ∧ holds b := by
  unfold Gives at h
  rwa [hp] at h

theorem Gives.error {e : ParseError} (h : known.Gives s p holds) (hp : p s = .error e t) :
    known.Sound t ∧ known.Explains e := by
  unfold Gives at h
  rwa [hp] at h

theorem gives_of_ok {b : β} (hp : p s = .ok b t) (ht : known.Sound t) (hb : holds b) : known.Gives s p holds := by
  unfold Gives
  rw [hp]
  exact ⟨ht, hb⟩

theorem gives_of_error {e : ParseError} (hp : p s = .error e t) (ht : known.Sound t) (he : known.Explains e) :
    known.Gives s p holds := by
  unfold Gives
  rw [hp]
  exact ⟨ht, he⟩

end Results

/-! ### From a state on -/

theorem gives_pure {b : β} (hs : known.Sound s) (h : holds b) : known.Gives s (pure b) holds := ⟨hs, h⟩

theorem gives_throw {e : ParseError} (hs : known.Sound s) (h : known.Explains e) :
    known.Gives s (throw e : Parse β) holds := ⟨hs, h⟩

theorem gives_ite {c : Prop} [Decidable c] {p q : Parse β} (h : c → known.Gives s p holds)
    (h' : ¬c → known.Gives s q holds) : known.Gives s (if c then p else q) holds := by
  by_cases hc : c
  · rw [if_pos hc]
    exact h hc
  · rw [if_neg hc]
    exact h' hc

theorem gives_bind (between : α → Prop) {p : Parse α} {next : α → Parse β} (h : known.Gives s p between)
    (hnext : ∀ a t, p s = .ok a t → known.Sound t → between a → known.Gives t (next a) holds) :
    known.Gives s (p >>= next) holds := by
  cases hp : p s with
  | ok a t =>
    obtain ⟨ht, ha⟩ := h.ok hp
    unfold Gives
    rw [Steps.bind_ok hp]
    exact hnext a t hp ht ha
  | error e t =>
    obtain ⟨ht, he⟩ := h.error hp
    exact gives_of_error (Steps.bind_error hp) ht he

/-- A reader that only looks. -/
theorem gives_look {look : ParseState → α} {next : α → Parse β} (h : known.Gives s (next (look s)) holds) :
    known.Gives s ((fun s => .ok (look s) s : Parse α) >>= next) holds := h

/-- The next token is taken, whatever it is. -/
theorem gives_take {next : Token → Parse β} (h : known.Gives s.advance (next s.peek) holds) :
    known.Gives s (advance >>= next) holds := h

theorem gives_advance {next : Token → Parse β} (hs : known.Sound s) (hkind : s.peek.kind ≠ .quote)
    (h : known.Sound s.advance → known.Gives s.advance (next s.peek) holds) :
    known.Gives s (advance >>= next) holds := gives_take (h (hs.advance hkind))

/-! ### From every state -/

theorem always_pure {b : β} (h : holds b) : known.AlwaysGives (pure b) holds := fun _ hs => gives_pure hs h

theorem always_throw {e : ParseError} (h : known.Explains e) : known.AlwaysGives (throw e : Parse β) holds :=
  fun _ hs => gives_throw hs h

theorem always_expected (what : String) : known.AlwaysGives (expected what : Parse β) holds :=
  fun _ hs => ⟨hs, .token hs.peek⟩

theorem always_unexpected : known.AlwaysGives (unexpected : Parse β) holds := fun _ hs => ⟨hs, .token hs.peek⟩

theorem always_tooDeep {span : Span} (h : known.Around span) : known.AlwaysGives (tooDeep span : Parse β) holds :=
  fun _ hs => ⟨hs, h⟩

theorem always_ite {c : Prop} [Decidable c] {p q : Parse β} (h : known.AlwaysGives p holds)
    (h' : known.AlwaysGives q holds) : known.AlwaysGives (if c then p else q) holds :=
  fun s hs => gives_ite (fun _ => h s hs) fun _ => h' s hs

theorem gives_part (between : α → Prop) {p : Parse α} {next : α → Parse β} (hs : known.Sound s)
    (h : known.AlwaysGives p between) (hnext : ∀ a, between a → known.AlwaysGives (next a) holds) :
    known.Gives s (p >>= next) holds :=
  gives_bind between (h s hs) fun a t _ ht ha => hnext a ha t ht

theorem always_bind (between : α → Prop) {p : Parse α} {next : α → Parse β} (h : known.AlwaysGives p between)
    (hnext : ∀ a, between a → known.AlwaysGives (next a) holds) : known.AlwaysGives (p >>= next) holds :=
  fun _ hs => gives_part between hs h hnext

/-- A reader whose answer plays no part. -/
theorem always_next {p : Parse α} {next : α → Parse β} (h : known.Fair p)
    (hnext : ∀ a, known.AlwaysGives (next a) holds) : known.AlwaysGives (p >>= next) holds :=
  always_bind _ h fun a _ => hnext a

theorem always_look {look : ParseState → α} {next : α → Parse β} (h : ∀ a, known.AlwaysGives (next a) holds) :
    known.AlwaysGives ((fun s => .ok (look s) s : Parse α) >>= next) holds :=
  fun s hs => h (look s) s hs

theorem always_imp {between : β → Prop} {p : Parse β} (h : known.AlwaysGives p between)
    (himp : ∀ b, between b → holds b) : known.AlwaysGives p holds := by
  intro s hs
  cases hp : p s with
  | ok b t =>
    obtain ⟨ht, hb⟩ := (h s hs).ok hp
    exact gives_of_ok hp ht (himp b hb)
  | error e t =>
    obtain ⟨ht, he⟩ := (h s hs).error hp
    exact gives_of_error hp ht he

theorem fair_skipNewlines : known.Fair skipNewlines := fun _ hs =>
  ⟨hs.dropWhile fun t ht => by rw [eq_of_beq ht]; decide, trivial⟩

theorem always_rounds (between : α → Prop) {round : α → Parse (Round α β)}
    (h : ∀ a, between a → known.AlwaysGives (round a) fun turn =>
      match turn with
      | .again next => between next
      | .done b => holds b) {a : α} (ha : between a) : known.AlwaysGives (rounds round a) holds := by
  intro s hs
  induction hn : s.rest.length using Nat.strongRecOn generalizing a s with
  | ind n ih =>
    have hround := h a ha s hs
    cases hturn : round a s with
    | error e t =>
      obtain ⟨ht, he⟩ := hround.error hturn
      exact gives_of_error (rounds_error hturn) ht he
    | ok turn t =>
      obtain ⟨ht, hheld⟩ := hround.ok hturn
      cases turn with
      | done b => exact gives_of_ok (rounds_done hturn) ht hheld
      | again next =>
        by_cases hless : t.rest.length < s.rest.length
        · unfold Gives
          rw [rounds_again hturn hless]
          exact ih _ (hn ▸ hless) hheld t ht rfl
        · exact gives_of_error (rounds_stuck hturn hless) (ht.relevel _ _) (.token ht.peek)

theorem fair_rounds {round : α → Parse (Round α β)} (h : ∀ a, known.Fair (round a)) (a : α) :
    known.Fair (rounds round a) :=
  always_rounds (fun _ => True) (fun a _ => always_imp (h a) fun turn _ => by cases turn <;> trivial) trivial

theorem always_nested {p : Parse β} (h : known.AlwaysGives p holds) : known.AlwaysGives (nested p) holds := by
  intro s hs
  have hp := h { s with depth := s.depth + 1 } (hs.relevel _ _)
  cases hread : p { s with depth := s.depth + 1 } with
  | ok b t =>
    obtain ⟨ht, hb⟩ := hp.ok hread
    exact gives_of_ok (nested_ok hread) (ht.relevel _ _) hb
  | error e t =>
    obtain ⟨ht, he⟩ := hp.error hread
    exact gives_of_error (nested_error hread) (ht.relevel _ _) he

/-- Behind an error that is recorded reading goes on where tokens come in strings again. -/
theorem fair_recovering {p : Parse α} (h : known.Fair p) : known.Fair (recovering p) := by
  intro s hs
  cases hread : p s with
  | ok a t => exact gives_of_ok (recovering_ok hread) ((h s hs).ok hread).1 trivial
  | error e t =>
    obtain ⟨ht, he⟩ := (h s hs).error hread
    have hrecord := ht.record he
    refine gives_of_ok (recovering_error hread) ⟨?_, hrecord.eof, hrecord.kind, hrecord.errors⟩ trivial
    show known.Strung (resume (if t.rest.length = s.rest.length then t.rest.tail else t.rest))
    split
    · exact ht.rest.resume_tail
    · exact ht.rest.resume

/-! ## Tokens -/

theorem fair_accept {kind : TokenKind} (hkind : kind ≠ .quote) : known.Fair (accept kind) := by
  intro s hs
  refine gives_look (gives_ite (fun hpeek => ?_) fun _ => gives_pure hs trivial)
  exact gives_advance hs (by rw [eq_of_beq hpeek]; exact hkind) fun hs => gives_pure hs trivial

theorem always_expect {kind : TokenKind} (hkind : kind ≠ .quote) (what : String) :
    known.AlwaysGives (expect kind what) known.solid := by
  intro s hs
  refine gives_look (gives_ite (fun hpeek => ?_) fun _ => always_expected what s hs)
  exact ⟨hs.advance (by rw [eq_of_beq hpeek]; exact hkind), hs.peek⟩

theorem always_identifier (what : String) : known.AlwaysGives (identifier what) known.solid :=
  always_expect (by decide) what

section Items

variable {close : TokenKind} {what : String} {item : Parse α} (hitem : known.Fair item)

include hitem

theorem fair_items : known.Fair (items close what item) := by
  refine always_next fair_skipNewlines fun _ => fair_rounds (fun taken => ?_) _
  refine always_look fun _ => always_ite (always_pure trivial) ?_
  refine always_next hitem fun _ => always_next fair_skipNewlines fun _ => always_next (fair_accept (by decide)) fun _ => ?_
  refine always_ite (always_next fair_skipNewlines fun _ => always_pure trivial) (always_look fun _ => ?_)
  exact always_ite (always_pure trivial) (always_expected _)

theorem always_delimited (hclose : close ≠ .quote) :
    known.AlwaysGives (delimited close what item) fun taken => known.solid taken.2 := by
  refine fun s hs => gives_bind _ (fair_items hitem s hs) fun taken t hread ht _ => ?_
  have hpeek : t.peek.kind ≠ .quote := by rwa [peek_of_items hread]
  exact gives_advance ht hpeek fun hs => gives_pure hs ht.peek

end Items

/-! ## Annotations -/

theorem fair_alternative : known.Fair alternative := by
  refine always_next (fair_accept (by decide)) fun _ => always_bind _ (always_identifier _) fun _ _ =>
    always_next (fair_accept (by decide)) fun _ => always_ite ?_ (always_pure trivial)
  exact always_bind _ (always_identifier _) fun _ _ => always_pure trivial

theorem fair_annotation : known.Fair annotation := by
  refine always_next fair_alternative fun _ => always_next (fair_rounds (fun ts => ?_) _) fun _ => always_pure trivial
  refine always_next (fair_accept (by decide)) fun _ => always_ite ?_ (always_pure trivial)
  exact always_next fair_skipNewlines fun _ => always_next fair_alternative fun _ => always_pure trivial

theorem fair_annotation? : known.Fair annotation? :=
  always_next (fair_accept (by decide)) fun _ =>
    always_ite (always_next fair_annotation fun _ => always_pure trivial) (always_pure trivial)

theorem fair_annotationOf {name : Token} (hname : known.solid name) : known.Fair (annotationOf name) :=
  always_next (fair_accept (by decide)) fun _ =>
    always_ite (always_next fair_annotation fun _ => always_pure trivial) (always_throw (.token hname))

/-! ## Expressions -/

/-- Behind an opening quote the content is taken, and the closing quote if there is one. -/
theorem gives_stringBehind (hs : known.Sound s) (hquote : s.peek.kind = .quote) :
    known.Gives s.advance (stringBehind s.peek) fun _ => True := by
  obtain ⟨rest, eof, errors, depth, fault⟩ := s
  obtain ⟨hrest, heof, hends, herrors⟩ := hs
  -- Right behind the quote tokens do not come in strings, so both ways to read on are followed to where they do again.
  cases hrest with
  | nil => exact absurd (hends.symm.trans hquote) (by decide)
  | token _ hkind => exact absurd hquote hkind
  | @closed opening content closing ts _ _ hcontent _ hclosing hrest =>
    let u : ParseState := ⟨ts, eof, errors, depth, fault⟩
    have hsound : known.Sound u := ⟨hrest, heof, hends, herrors⟩
    have hread : stringBehind opening ((u.before [closing]).before [content]) =
        .ok (.literal (opening.span.union closing.span) (.string content.text)) u := by
      unfold stringBehind
      rw [Steps.bind_ok (expect_before hcontent _), Steps.bind_ok (check_next hclosing)]
      rfl
    exact gives_of_ok hread hsound trivial
  | @unclosed opening content ts _ _ hcontent hunclosed hnext hrest =>
    let u : ParseState := ⟨ts, eof, errors, depth, fault⟩
    have hsound : known.Sound u := ⟨hrest, heof, hends, herrors⟩
    have hpeek : u.peek.kind ≠ .quote := by
      cases ts with
      | nil => exact fun h => absurd (hends.symm.trans h) (by decide)
      | cons t ts => exact hnext t rfl
    have hread : stringBehind opening (u.before [content]) =
        .error (.unterminatedString (opening.span.union content.span)) u := by
      unfold stringBehind
      rw [Steps.bind_ok (expect_before hcontent _), Steps.bind_ok (check_none hpeek)]
      rfl
    exact gives_of_error hread hsound ⟨opening, content, hunclosed, rfl⟩

theorem fair_number {t : Token} (ht : known.solid t) (hkind : t.kind = .integer ∨ t.kind = .float)
    (value : String → Literal) : known.Fair (number t value) := by
  refine fun s hs => gives_ite (fun _ => gives_pure hs trivial) fun hnumeral => gives_throw hs ?_
  exact ⟨t, ht, hkind, rfl, rfl, Bool.eq_false_iff.2 hnumeral⟩

theorem fair_accessTarget : known.Fair accessTarget := by
  refine fun s hs => gives_look ?_
  split
  · rename_i hkind
    exact gives_advance hs (by rw [hkind]; decide) fun hs => gives_pure hs trivial
  · rename_i hkind
    exact gives_take (gives_stringBehind hs hkind)
  · exact always_expected _ s hs

section Forms

variable {deeper : Deeper} (hd : Deeper.Has (fun {_} p => known.Fair p) deeper)

include hd

theorem fair_anyExpression : known.Fair (anyExpression deeper) := hd.expression _

theorem fair_vectorBehind (opened : Token) : known.Fair (vectorBehind deeper opened) :=
  always_bind _ (always_delimited (fair_anyExpression hd) (by decide)) fun _ _ => always_pure trivial

theorem fair_argument : known.Fair (argument deeper) := by
  refine fun s hs => gives_look (gives_look (gives_ite (fun hnamed => ?_) fun _ => ?_))
  · obtain ⟨hname, hsign⟩ := Bool.and_eq_true_iff.1 hnamed
    refine gives_advance hs (by rw [eq_of_beq hname]; decide) fun hs => ?_
    have hsign : s.advance.peek.kind = .equal := eq_of_beq hsign
    refine gives_advance hs (by rw [hsign]; decide) fun hs => ?_
    exact gives_part _ hs fair_skipNewlines fun _ _ => always_next (fair_anyExpression hd) fun _ => always_pure trivial
  · exact gives_part _ hs (fair_anyExpression hd) fun _ _ => always_pure trivial

theorem always_arguments {close : TokenKind} (hclose : close ≠ .quote) (what : String) :
    known.AlwaysGives (arguments deeper close what) fun taken => known.solid taken.2 :=
  always_delimited (fair_argument hd) hclose

theorem fair_parameter : known.Fair (parameter deeper) := by
  refine fun s hs => gives_look (gives_ite (fun hkind => ?_) fun _ => always_expected _ s hs)
  have hquote : s.peek.kind ≠ .quote := by rcases hkind with h | h <;> rw [h] <;> decide
  refine gives_advance hs hquote fun hs => gives_part _ hs fair_annotation? fun types _ =>
    always_next (fair_accept (by decide)) fun _ => always_ite ?_ (always_pure trivial)
  exact always_next fair_skipNewlines fun _ => always_next (fair_anyExpression hd) fun _ => always_pure trivial

theorem fair_parameters : known.Fair (parameters deeper) :=
  always_bind _ (always_delimited (fair_parameter hd) (by decide)) fun _ _ => always_pure trivial

/-! ### Functions, branches and loops -/

theorem fair_arrowFunctionBehind (opened : Token) : known.Fair (arrowFunctionBehind deeper opened) := by
  refine always_next (fair_parameters hd) fun _ => always_next fair_annotation? fun _ =>
    always_bind _ (always_expect (by decide) _) fun _ _ => always_next fair_skipNewlines fun _ =>
      always_look fun _ => always_ite ?_ ?_
  · exact always_next hd.block fun _ => always_pure trivial
  · exact always_next (fair_anyExpression hd) fun _ => always_pure trivial

omit hd in
theorem fair_receiver? : known.Fair receiver? := by
  refine fun s hs => gives_look (gives_look (gives_ite (fun hopened => ?_) fun _ => gives_pure hs trivial))
  have hkind : s.peek.kind = .leftParen := eq_of_beq (Bool.and_eq_true_iff.1 hopened).1
  refine gives_advance hs (by rw [hkind]; decide) fun hs => gives_part _ hs (always_identifier _) fun name hname => ?_
  exact always_next (fair_annotationOf hname) fun _ => always_bind _ (always_expect (by decide) _) fun _ _ =>
    always_pure trivial

theorem fair_functionBehind (func : Token) (decorators : List Decorator) :
    known.Fair (functionBehind deeper func decorators) := by
  have hrest (receiver : Option TypedName) (name : Option Token) :
      known.Fair (signed deeper func decorators receiver name) :=
    always_bind _ (always_expect (by decide) _) fun _ _ => always_next (fair_parameters hd) fun _ =>
      always_next fair_annotation? fun _ => always_next fair_skipNewlines fun _ => always_next hd.block fun _ =>
        always_pure trivial
  refine always_next fair_receiver? fun receiver s hs => gives_look (gives_ite (fun hname => ?_) fun _ => ?_)
  · exact gives_advance hs (by rw [eq_of_beq hname]; decide) fun hs => hrest receiver _ _ hs
  · refine gives_ite (fun _ => ?_) fun _ => hrest receiver none s hs
    exact gives_part (fun _ => True) hs (always_expected _) fun name _ => hrest receiver name

theorem fair_branch (elseSpan ifSpan : Span) : known.Fair (branch deeper elseSpan ifSpan) :=
  always_bind _ (always_expect (by decide) _) fun _ _ => always_next fair_skipNewlines fun _ =>
    always_next (fair_anyExpression hd) fun _ => always_next fair_skipNewlines fun _ =>
      always_bind _ (always_expect (by decide) _) fun _ _ => always_next fair_skipNewlines fun _ =>
        always_next hd.block fun _ => always_pure trivial

theorem fair_conditionalBehind (opened : Token) : known.Fair (conditionalBehind deeper opened) := by
  refine always_next (fair_branch hd _ _) fun first => fair_rounds (fun more s hs => ?_) _
  refine gives_look (gives_ite (fun helse => ?_) fun _ => gives_pure hs trivial)
  refine gives_bind _ (fair_skipNewlines s hs) fun _ t hskip ht _ => ?_
  have hnext : t.peek.kind = .keyword .else := by
    cases hskip
    obtain ⟨word, hhead, hkind⟩ := (Option.any_eq_true _ _).1 helse
    rw [ParseState.peek, hhead, Option.getD_some]
    exact eq_of_beq hkind
  refine gives_advance ht (by rw [hnext]; decide) fun ht => gives_part _ ht fair_skipNewlines fun _ _ s hs => ?_
  refine gives_look (gives_ite (fun hif => ?_) fun _ => ?_)
  · refine gives_advance hs (by rw [eq_of_beq hif]; decide) fun hs => ?_
    exact gives_part _ hs (fair_branch hd _ _) fun _ _ => always_pure trivial
  · exact gives_part _ hs hd.block fun _ _ => always_pure trivial

theorem fair_forBehind (opened : Token) : known.Fair (forBehind deeper opened) :=
  always_bind _ (always_expect (by decide) _) fun _ _ => always_bind _ (always_expect (by decide) _) fun _ _ =>
    always_bind _ (always_identifier _) fun _ hname => always_next (fair_annotationOf hname) fun _ =>
      always_bind _ (always_expect (by decide) _) fun _ _ => always_next (fair_anyExpression hd) fun _ =>
        always_bind _ (always_expect (by decide) _) fun _ _ => always_next fair_skipNewlines fun _ =>
          always_next hd.block fun _ => always_pure trivial

theorem fair_whileBehind (opened : Token) : known.Fair (whileBehind deeper opened) :=
  always_bind _ (always_expect (by decide) _) fun _ _ => always_next fair_skipNewlines fun _ =>
    always_next (fair_anyExpression hd) fun _ => always_next fair_skipNewlines fun _ =>
      always_bind _ (always_expect (by decide) _) fun _ _ => always_next fair_skipNewlines fun _ =>
        always_next hd.block fun _ => always_pure trivial

theorem fair_repeatBehind (opened : Token) : known.Fair (repeatBehind deeper opened) :=
  always_next hd.block fun _ => always_pure trivial

/-! ### First parts and continuations -/

theorem fair_unaryBehind (opened : Token) (operator : UnaryOperator) :
    known.Fair (unaryBehind deeper opened operator) :=
  always_next fair_skipNewlines fun _ => always_next (hd.expression _) fun _ => always_pure trivial

theorem fair_parenthesized (opened : Token) : known.Fair (parenthesized deeper opened) :=
  always_look fun _ => always_ite (fair_arrowFunctionBehind hd _) (fair_vectorBehind hd _)

theorem fair_firstPart : known.Fair (firstPart deeper) := by
  intro s hs
  have hbehind {kind : TokenKind} (hkind : s.peek.kind = kind) (hquote : kind ≠ .quote) {p : Parse Expression}
      (hp : known.Fair p) : known.Gives s (advance >>= fun _ => p) fun _ => True :=
    gives_advance hs (hkind ▸ hquote) fun hs => hp _ hs
  refine gives_look ?_
  split
  · exact hbehind ‹_› (by decide) (always_pure trivial)
  · exact hbehind ‹_› (by decide) (fair_number hs.peek (.inl ‹_›) _)
  · exact hbehind ‹_› (by decide) (fair_number hs.peek (.inr ‹_›) _)
  · exact gives_take (gives_stringBehind hs ‹_›)
  · exact hbehind ‹_› (by decide) (fair_parenthesized hd _)
  · exact hbehind ‹_› (by decide) (fair_functionBehind hd _ _)
  · exact hbehind ‹_› (by decide) (fair_conditionalBehind hd _)
  · exact hbehind ‹_› (by decide) (fair_forBehind hd _)
  · exact hbehind ‹_› (by decide) (fair_whileBehind hd _)
  · exact hbehind ‹_› (by decide) (fair_repeatBehind hd _)
  · rename_i hquote _ _ _ _ _ _
    split
    · exact hbehind rfl hquote (always_pure trivial)
    · exact hbehind rfl hquote (fair_unaryBehind hd _ _)
    · exact always_unexpected s hs

omit hd in
/-- What continues an expression is no quote. -/
theorem ne_quote_of_continuation {t : Token} {continuation : Continuation} (h : Continuation.of? t = some continuation) :
    t.kind ≠ .quote := by
  intro hkind
  simp [Continuation.of?, Token.binaryOperator?, hkind] at h

theorem gives_continuationOf (hs : known.Sound s) (hquote : s.peek.kind ≠ .quote) (left : Expression) :
    ∀ continuation, known.Gives s (continuationOf deeper left continuation) fun _ => True
  | .operator operator => gives_advance hs hquote fun hs => by
    refine gives_ite (fun _ => gives_part _ hs fair_accessTarget fun _ _ => always_pure trivial) fun _ => ?_
    exact gives_part _ hs fair_skipNewlines fun _ _ => always_next (hd.expression _) fun _ => always_pure trivial
  | .call => gives_advance hs hquote fun hs =>
    gives_part _ hs (always_arguments hd (by decide) _) fun _ _ => always_pure trivial
  | .index _ => gives_advance hs hquote fun hs =>
    gives_ite (fun _ => gives_part _ hs (always_arguments hd (by decide) _) fun _ _ => always_pure trivial) fun _ =>
      gives_part _ hs (always_arguments hd (by decide) _) fun _ _ => always_pure trivial

theorem fair_continued (floor : Level) (first : Expression) : known.Fair (continued deeper floor first) := by
  refine fair_rounds (fun left s hs => gives_look ?_) _
  split
  · rename_i continuation hcontinuation
    refine gives_ite (fun _ => ?_) fun _ => gives_pure hs trivial
    refine gives_bind _ (gives_continuationOf hd hs (ne_quote_of_continuation hcontinuation) left continuation) ?_
    exact fun _ _ _ ht _ => gives_pure ht trivial
  · exact gives_pure hs trivial

theorem fair_expressionBody (floor : Level) : known.Fair (expressionBody deeper floor) :=
  always_next (fair_firstPart hd) fun first => fair_continued hd floor first

/-! ## Declarations -/

omit hd

theorem fair_entry (types : Union) (attributes : List TypedName) : known.Fair (entry types attributes) := by
  refine fun s hs => gives_look (gives_look (gives_ite (fun hnamed => ?_) fun _ => ?_))
  · obtain ⟨hname, hsign⟩ := Bool.and_eq_true_iff.1 hnamed
    refine gives_advance hs (by rw [eq_of_beq hname]; decide) fun hs => ?_
    have hsign : s.advance.peek.kind = .colon := eq_of_beq hsign
    refine gives_advance hs (by rw [hsign]; decide) fun hs => ?_
    exact gives_part _ hs fair_annotation fun _ _ => always_pure trivial
  · exact gives_part _ hs fair_annotation fun _ _ => always_pure trivial

theorem fair_skipEntrySeparators : known.Fair skipEntrySeparators := fun _ hs =>
  ⟨hs.dropWhile fun t ht => by
    rcases Bool.or_eq_true_iff.1 ht with h | h <;> rw [eq_of_beq h] <;> decide, trivial⟩

theorem fair_entries : known.Fair entries := by
  refine always_bind _ (always_expect (by decide) _) fun _ _ => fair_rounds (fun listed => ?_) _
  refine always_next fair_skipEntrySeparators fun _ => always_next (fair_accept (by decide)) fun _ =>
    always_ite (always_pure trivial) (always_next (fair_entry _ _) fun _ => always_look fun _ => ?_)
  exact always_ite (always_pure trivial) (always_expected _)

/-- Tokens stand around what decorates a declaration. -/
def Decorates (known : Knowledge) (decorators : List Decorator) : Prop := ∀ d ∈ decorators, known.Around d.span

theorem fair_fitting {word : Token} (hword : known.solid word) {declaration : TypeDeclaration}
    (h : known.Decorates declaration.decorators) : known.Fair (fitting word declaration) := by
  unfold fitting
  split
  · rename_i e he
    obtain ⟨d, hd, hfault⟩ := List.exists_of_findSome?_eq_some he
    obtain ⟨fault, -, rfl⟩ := Option.map_eq_some_iff.1 hfault
    exact always_throw (.union (h d hd) (.token hword))
  · exact always_pure trivial

theorem gives_typeDeclaration (hs : known.Sound s) (hquote : s.peek.kind ≠ .quote) {decorators : List Decorator}
    (h : known.Decorates decorators) : known.Gives s (typeDeclaration decorators) fun _ => True := by
  have hword := hs.peek
  refine gives_advance hs hquote fun hs => gives_part _ hs (always_identifier _) fun name hname => ?_
  refine always_next (fair_accept (by decide)) fun _ => always_ite (fun s hs => ?_) (always_throw (.token hname))
  refine gives_look ?_
  split
  · rename_i kind hkind
    have hname : s.peek.kind = .identifier := by
      by_contra hne
      exact absurd hkind (by simp [hne])
    refine gives_advance hs (by rw [hname]; decide) fun hs => gives_part _ hs fair_entries fun _ _ => ?_
    exact fair_fitting hword h
  · exact gives_part _ hs fair_annotation fun _ _ => fair_fitting hword h

include hd

theorem gives_decorator (hs : known.Sound s) (hquote : s.peek.kind ≠ .quote) :
    known.Gives s (decorator deeper) fun d => known.Around d.span := by
  have hat := hs.peek
  refine gives_advance hs hquote fun hs => gives_part _ hs (always_identifier _) fun name hname => ?_
  have hspan : known.Around (s.peek.span.union name.span) := .union (.token hat) (.token hname)
  dsimp only
  split
  · exact always_throw hspan
  · refine always_next (fair_accept (by decide)) fun _ => always_ite ?_ ?_
    · refine always_bind _ (always_arguments hd (by decide) _) fun taken hclose => ?_
      exact always_next fair_skipNewlines fun _ => always_pure (.union hspan (.token hclose))
    · exact always_next fair_skipNewlines fun _ => always_pure hspan

theorem fair_declarationBehind {decorators : List Decorator} {last : Decorator} (h : known.Decorates decorators)
    (hlast : known.Around last.span) : known.Fair (declarationBehind deeper decorators last) := by
  refine fun s hs => gives_look ?_
  split
  · rename_i hkind
    refine gives_bind _ (gives_typeDeclaration hs ?_ h) fun _ _ _ ht _ => gives_pure ht trivial
    rw [hkind]
    decide
  · rename_i hkind
    split
    · rename_i misplaced hmisplaced
      exact gives_throw hs (h misplaced (List.mem_of_find?_eq_some hmisplaced))
    · refine gives_advance hs (by rw [hkind]; decide) fun hs => ?_
      exact gives_part _ hs (fair_functionBehind hd _ _) fun _ _ => always_pure trivial
  · exact gives_throw hs hlast

theorem gives_decorated (hs : known.Sound s) (hquote : s.peek.kind ≠ .quote) :
    known.Gives s (decorated deeper) fun _ => True := by
  let between (taken : List Decorator × Decorator) : Prop := known.Decorates taken.1 ∧ known.Around taken.2.span
  refine gives_bind _ (gives_decorator hd hs hquote) fun first t _ ht hfirst => ?_
  refine gives_part between ht (always_rounds between (fun taken htaken s hs => ?_) ?_) fun taken htaken =>
    fair_declarationBehind hd htaken.1 htaken.2
  · refine gives_look (gives_ite (fun hat => ?_) fun _ => gives_pure hs htaken)
    refine gives_bind _ (gives_decorator hd hs (by rw [eq_of_beq hat]; decide)) fun d t _ ht hd => gives_pure ht ⟨?_, hd⟩
    exact List.forall_mem_append.2 ⟨htaken.1, List.forall_mem_singleton.2 hd⟩
  · exact ⟨List.forall_mem_singleton.2 hfirst, hfirst⟩

/-! ## Statements -/

theorem gives_binding (hs : known.Sound s) (hquote : s.peek.kind ≠ .quote) (constant : Bool) :
    known.Gives s (binding deeper constant) fun _ => True := by
  refine gives_advance hs hquote fun hs => gives_part _ hs (always_identifier _) fun name hname => ?_
  refine always_next (fair_annotationOf hname) fun _ => always_next (fair_accept (by decide)) fun _ => always_ite ?_ ?_
  · exact always_next fair_skipNewlines fun _ => always_next (fair_anyExpression hd) fun _ => always_pure trivial
  · exact always_ite (always_expected _) (always_pure trivial)

omit hd in
theorem fair_statementEnd : known.Fair statementEnd :=
  always_look fun _ => always_ite (always_pure trivial) always_unexpected

omit hd in
theorem gives_ended {p : Parse Statement} (h : known.Gives s p fun _ => True) : known.Gives s (ended p) fun _ => True :=
  gives_bind _ h fun _ _ _ ht _ => gives_part _ ht fair_statementEnd fun _ _ => always_pure trivial

theorem fair_statement : known.Fair (statement deeper) := by
  intro s hs
  have hne {kind : TokenKind} (hkind : s.peek.kind = kind) (hquote : kind ≠ .quote) : s.peek.kind ≠ .quote :=
    hkind ▸ hquote
  have hword {kind : TokenKind} (hkind : s.peek.kind = kind) (hquote : kind ≠ .quote) {p : Token → Parse Statement}
      (hp : ∀ t, known.Fair (p t)) : known.Gives s (advance >>= p) fun _ => True :=
    gives_advance hs (hne hkind hquote) fun hs => hp _ _ hs
  refine gives_look ?_
  split
  · exact gives_ended (gives_binding hd hs (hne ‹_› (by decide)) _)
  · exact gives_ended (gives_binding hd hs (hne ‹_› (by decide)) _)
  · refine gives_ended (gives_bind _ (gives_typeDeclaration hs (hne ‹_› (by decide)) (List.forall_mem_nil _)) ?_)
    exact fun _ _ _ ht _ => gives_pure ht trivial
  · refine gives_ended (hword ‹_› (by decide) fun _ => always_look fun _ => always_ite (always_pure trivial) ?_)
    exact always_next (fair_anyExpression hd) fun _ => always_pure trivial
  · refine gives_ended (hword ‹_› (by decide) fun _ => ?_)
    exact always_next (fair_anyExpression hd) fun _ => always_pure trivial
  · exact gives_ended (hword ‹_› (by decide) fun _ => always_pure trivial)
  · exact gives_ended (hword ‹_› (by decide) fun _ => always_pure trivial)
  · exact hword ‹_› (by decide) fun _ => always_pure trivial
  · exact hword ‹_› (by decide) fun _ => always_pure trivial
  · exact gives_ended (gives_decorated hd hs (hne ‹_› (by decide)))
  · exact gives_ended (gives_part _ hs hd.block fun _ _ => always_pure trivial)
  · exact gives_ended (gives_part _ hs (fair_anyExpression hd) fun _ _ => always_pure trivial)

omit hd in
theorem fair_skipSeparators : known.Fair skipSeparators := fun _ hs =>
  ⟨hs.dropWhile fun t ht => by
    rcases Bool.or_eq_true_iff.1 ht with h | h <;> rw [eq_of_beq h] <;> decide, trivial⟩

theorem fair_statements (inBlock : Bool) : known.Fair (statements deeper inBlock) := by
  refine fair_rounds (fun taken => ?_) _
  refine always_next fair_skipSeparators fun _ => always_look fun _ => always_ite (always_pure trivial) ?_
  refine always_next (fair_recovering (fair_statement hd)) fun found => ?_
  split
  · exact always_pure trivial
  · exact always_pure trivial

theorem fair_blockBody (opened : Token) : known.Fair (blockBody deeper opened) :=
  always_next (fair_statements hd true) fun _ => always_bind _ (always_expect (by decide) _) fun _ _ =>
    always_pure trivial

omit hd

/-- **Whatever room is left, there is a reason for the errors.** -/
theorem fair_deeperAt : ∀ room : Nat, Deeper.Has (fun {_} p => known.Fair p) (deeperAt room)
  | 0 => ⟨fun _ _ hs => ⟨hs, .token hs.peek⟩, always_bind _ (always_expect (by decide) _) fun _ hopened =>
    always_tooDeep (.token hopened)⟩
  | room + 1 =>
    have hd := fair_deeperAt room
    ⟨fun floor => always_nested (fair_expressionBody hd floor), always_bind _ (always_expect (by decide) _)
      fun opened _ => always_nested (fair_blockBody hd opened)⟩

end Forms
end Readers

/-! ## Programs -/

/-- **There is a reason among the tokens for every error of a program**, if the tokens come in strings. -/
theorem explains_ofTokens {tokens : List Token} (h : known.Strung (ParseState.ofTokens tokens).rest)
    (hend : known.solid (ParseState.ofTokens tokens).eof) (limit : Nat) :
    ∀ e ∈ (ParsedProgram.ofTokens tokens limit).errors, known.Explains e := by
  have hstart : known.Sound (ParseState.ofTokens tokens) :=
    ⟨h, hend, ParseState.eof_kind_ofTokens tokens, List.forall_mem_nil _⟩
  have hrun := fair_statements (fair_deeperAt limit) false _ hstart
  intro e he
  unfold ParsedProgram.ofTokens ParsedProgram.run at he
  split at he
  · rename_i s hread
    exact (hrun.ok hread).1.errors e (List.mem_reverse.1 he)
  · rename_i failure s hread
    obtain ⟨hs, hfailure⟩ := hrun.error hread
    rcases List.mem_cons.1 (List.mem_reverse.1 he) with rfl | he
    · exact hfailure
    · exact hs.errors e he

end Knowledge
end UnionScript
