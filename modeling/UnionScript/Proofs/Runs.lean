import UnionScript.Proofs.Building
import UnionScript.Proofs.Layout
/-!
# Runs — the tokens that trees are read from

Every reader takes a run of tokens off the front of what is left, and what it answers is laid out over that run: this is
shown form by form, and by an induction over the room that is left for nesting.  A reader is looked at in the middle of a
form, behind the tokens that are taken already (`Spends`), so that at the end of a form all of its tokens are at hand.
-/
namespace UnionScript
namespace Parse

open Steps

/-! ## Taking tokens -/

/-- From a state on, behind some tokens that are taken, a reader answers what has to do with all tokens taken by then, and
with the state it comes to. -/
def SpendsTo {α : Type} (s : ParseState) (before : List Token) (p : Parse α)
    (holds : List Token → α → ParseState → Prop) : Prop :=
  s.eof.kind = .eof → ∀ a s', p s = .ok a s' →
    s'.eof.kind = .eof ∧ ∃ used, s.rest = used ++ s'.rest ∧ holds (before ++ used) a s'

/-- Only the tokens and the answer play a part. -/
abbrev Spends {α : Type} (s : ParseState) (before : List Token) (p : Parse α) (holds : List Token → α → Prop) : Prop :=
  SpendsTo s before p fun used a _ => holds used a

section Spends

variable {α β : Type} {s : ParseState} {before : List Token} {holds : List Token → β → ParseState → Prop}

theorem spendsTo_pure {b : β} (h : holds before b s) : SpendsTo s before (pure b) holds := by
  rintro heof _ _ ⟨⟩
  exact ⟨heof, [], rfl, (List.append_nil before).symm ▸ h⟩

theorem spends_pure {b : β} {holds : List Token → β → Prop} (h : holds before b) : Spends s before (pure b) holds :=
  spendsTo_pure h

theorem spends_throw (e : ParseError) : SpendsTo s before (throw e) holds := by rintro _ _ _ ⟨⟩

theorem spends_expected (what : String) : SpendsTo s before (expected what) holds := by rintro _ _ _ ⟨⟩

theorem spends_imp {known : List Token → β → ParseState → Prop} {p : Parse β} (h : SpendsTo s before p known)
    (himp : ∀ used b t, known used b t → holds used b t) : SpendsTo s before p holds := by
  intro heof b t hp
  obtain ⟨heof', used, hused, hb⟩ := h heof b t hp
  exact ⟨heof', used, hused, himp _ b t hb⟩

theorem spends_ite {c : Prop} [Decidable c] {p q : Parse β} (h : c → SpendsTo s before p holds)
    (h' : SpendsTo s before q holds) : SpendsTo s before (if c then p else q) holds := by
  split
  · rename_i hc
    exact h hc
  · exact h'

theorem spends_bind (known : List Token → α → ParseState → Prop) {p : Parse α} {next : α → Parse β}
    (h : SpendsTo s before p known)
    (hnext : ∀ t all a, p s = .ok a t → known all a t → SpendsTo t all (next a) holds) :
    SpendsTo s before (p >>= next) holds := by
  intro heof b s' hb
  obtain ⟨a, t, hp, hb⟩ := of_bind_ok hb
  obtain ⟨heof', used, hused, ha⟩ := h heof a t hp
  obtain ⟨heof'', more, hmore, hb⟩ := hnext t _ a hp ha heof' b s' hb
  exact ⟨heof'', used ++ more, by rw [hused, hmore, List.append_assoc], by rwa [← List.append_assoc]⟩

/-- What a reader does behind some tokens it does behind more of them. -/
theorem spends_frame (before : List Token) {ts : List Token} {p : Parse α} {known : List Token → α → ParseState → Prop}
    (h : SpendsTo s ts p known) :
    SpendsTo s (before ++ ts) p fun all a t => ∃ used, all = before ++ used ∧ known used a t := by
  intro heof a t hp
  obtain ⟨heof', used, hused, ha⟩ := h heof a t hp
  exact ⟨heof', used, hused, ts ++ used, List.append_assoc _ _ _, ha⟩

/-- A reader of a part, which stands behind what is taken. -/
theorem spends_part (known : List Token → α → ParseState → Prop) {p : Parse α} {next : α → Parse β}
    (h : ∀ s, SpendsTo s [] p known)
    (hnext : ∀ t used a, known used a t → SpendsTo t (before ++ used) (next a) holds) :
    SpendsTo s before (p >>= next) holds := by
  have hp := spends_frame before (h s)
  rw [List.append_nil] at hp
  refine spends_bind _ hp ?_
  rintro t _ a - ⟨used, rfl, ha⟩
  exact hnext t used a ha

/-- Whatever an orderly reader takes. -/
theorem spends_orderly {p : Parse α} (hp : Orderly p) {known : α → Prop} (h : Answers p known) (s : ParseState) :
    Spends s [] p fun _ a => known a := by
  intro heof a t hok
  obtain ⟨used, hused⟩ := (hp.ok hok).rest
  exact ⟨hp.eof_kind hok heof, used, hused.symm, h s a t hok⟩

/-- A reader whose answer plays no part. -/
theorem spends_skip {p : Parse α} {next : α → Parse β} (hp : Orderly p)
    (hnext : ∀ t gap a, SpendsTo t (before ++ gap) (next a) holds) : SpendsTo s before (p >>= next) holds :=
  spends_part (fun _ _ _ => True) (spends_orderly hp fun _ _ _ _ => trivial) fun t gap a _ => hnext t gap a

/-- A reader that only looks. -/
theorem spends_look {look : ParseState → α} {next : α → Parse β} (h : SpendsTo s before (next (look s)) holds) :
    SpendsTo s before ((fun s => .ok (look s) s : Parse α) >>= next) holds := h

/-- The next token is taken, if there is one. -/
theorem spends_next {next : Token → Parse β} (hkind : s.peek.kind ≠ .eof)
    (hnext : SpendsTo s.advance (before ++ [s.peek]) (next s.peek) holds) :
    SpendsTo s before (advance >>= next) holds := by
  refine spends_bind (fun all t u => t = s.peek ∧ all = before ++ [s.peek] ∧ u = s.advance) ?_ ?_
  · rintro heof _ _ ⟨⟩
    refine ⟨heof, [s.peek], ?_, rfl, rfl, rfl⟩
    cases hrest : s.rest with
    | nil => exact absurd (by rw [ParseState.peek, hrest]; exact heof) hkind
    | cons t rest => rw [ParseState.peek, hrest, ParseState.advance, hrest]; rfl
  · rintro _ _ _ - ⟨rfl, rfl, rfl⟩
    exact hnext

theorem spends_advance {next : Token → Parse β} (hkind : s.peek.kind ≠ .eof)
    (hnext : ∀ t, SpendsTo t (before ++ [s.peek]) (next s.peek) holds) : SpendsTo s before (advance >>= next) holds :=
  spends_next hkind (hnext s.advance)

theorem spends_expect {kind : TokenKind} {next : Token → Parse β} (hkind : kind ≠ .eof) (what : String)
    (hnext : ∀ s t, t.kind = kind → SpendsTo s (before ++ [t]) (next t) holds) :
    SpendsTo s before (expect kind what >>= next) holds := by
  let known (all : List Token) (t : Token) (_ : ParseState) : Prop := t.kind = kind ∧ all = before ++ [t]
  refine spends_bind known (spends_look (spends_ite (fun hpeek => ?_) (spends_expected _))) ?_
  · have hpeek := eq_of_beq hpeek
    have hadvance : SpendsTo s before (advance >>= pure) known :=
      spends_advance (hpeek ▸ hkind) fun t => spendsTo_pure ⟨hpeek, rfl⟩
    rwa [bind_pure] at hadvance
  · rintro t _ a - ⟨ha, rfl⟩
    exact hnext t a ha

theorem spends_skipNewlines {next : Unit → Parse β}
    (hnext : ∀ t gap, (∀ b ∈ gap, b.kind = .newline) → SpendsTo t (before ++ gap) (next ()) holds) :
    SpendsTo s before (skipNewlines >>= next) holds := by
  refine spends_bind (fun all _ _ => ∃ gap, all = before ++ gap ∧ ∀ b ∈ gap, b.kind = .newline) ?_ ?_
  · rintro heof ⟨⟩ t hskip
    obtain ⟨gap, hgap, hs⟩ := of_skipNewlines hskip
    exact ⟨orderly_closed.skipNewlines.eof_kind hskip heof, gap, congrArg ParseState.rest hs, gap, rfl, hgap⟩
  · rintro t _ ⟨⟩ - ⟨gap, rfl, hgap⟩
    exact hnext t gap hgap

theorem spends_accept {kind : TokenKind} {next : Bool → Parse β} (hkind : kind ≠ .eof)
    (htrue : ∀ s t, t.kind = kind → SpendsTo s (before ++ [t]) (next true) holds)
    (hfalse : SpendsTo s before (next false) holds) : SpendsTo s before (accept kind >>= next) holds := by
  intro heof b s' hb
  obtain ⟨found, t, haccept, hnext⟩ := of_bind_ok hb
  have hends := (orderly_closed.accept kind).eof_kind haccept heof
  rcases of_accept haccept heof hkind with ⟨rfl, token, htoken, hs⟩ | ⟨rfl, rfl, -⟩
  · obtain ⟨heof', used, hused, hholds⟩ := htrue t token htoken hends b s' hnext
    exact ⟨heof', token :: used, by rw [hs, ParseState.rest_before, hused]; rfl, List.append_cons before token used ▸ hholds⟩
  · exact hfalse hends b s' hnext

/-- A repetition each round of which keeps what is known. -/
theorem spendsTo_rounds (known : List Token → α → ParseState → Prop) {round : α → Parse (Round α β)}
    (h : ∀ s all a, known all a s → SpendsTo s all (round a) fun all turn t =>
      match turn with
      | .again next => known all next t
      | .done b => holds all b t) {a : α} (ha : known before a s) : SpendsTo s before (rounds round a) holds := by
  intro heof b s' hb
  refine of_rounds (motive := fun a t => ∀ all, known all a t → t.eof.kind = .eof →
    s'.eof.kind = .eof ∧ ∃ used, t.rest = used ++ s'.rest ∧ holds (all ++ used) b s') ?_ ?_ hb before ha heof
  · intro a t hround all ha heof
    exact h t all a ha heof _ s' hround
  · intro a t next u hround ih all ha heof
    obtain ⟨heof', used, hused, hnext⟩ := h t all a ha heof _ u hround
    obtain ⟨heof'', more, hmore, hb⟩ := ih _ hnext heof'
    exact ⟨heof'', used ++ more, by rw [hused, hmore, List.append_assoc], by rwa [← List.append_assoc]⟩

theorem spends_rounds (known : List Token → α → Prop) {round : α → Parse (Round α β)}
    {holds : List Token → β → Prop}
    (h : ∀ s all a, known all a → Spends s all (round a) fun all turn =>
      match turn with
      | .again next => known all next
      | .done b => holds all b) {a : α} (ha : known before a) : Spends s before (rounds round a) holds := by
  refine spendsTo_rounds (fun all a _ => known all a) (fun s all a ha heof turn t hround => ?_) ha
  obtain ⟨heof', used, hused, hturn⟩ := h s all a ha heof turn t hround
  refine ⟨heof', used, hused, ?_⟩
  cases turn <;> exact hturn

/-- Reading one level deeper, where the level is of no account for what is answered. -/
theorem spends_nested {p : Parse β} (hlevel : ∀ used b (t : ParseState), holds used b t → holds used b t.ascend)
    (h : ∀ s, SpendsTo s before p holds) (s : ParseState) : SpendsTo s before (nested p) holds := by
  intro heof b s' hb
  cases hp : p { s with depth := s.depth + 1 } with
  | ok c t =>
    cases (nested_ok hp).symm.trans hb
    obtain ⟨heof', used, hused, hc⟩ := h { s with depth := s.depth + 1 } heof b t hp
    exact ⟨heof', used, hused, hlevel _ _ _ hc⟩
  | error e t => exact nomatch (nested_error hp).symm.trans hb

theorem spends_recovering {p : Parse α} {known : List Token → α → Prop} (hp : Orderly p)
    (h : ∀ s, Spends s [] p known) (s : ParseState) :
    Spends s [] (recovering p) fun used found => ∀ a ∈ found, known used a := by
  intro heof found s' hfound
  cases hread : p s with
  | ok a t =>
    cases (recovering_ok hread).symm.trans hfound
    obtain ⟨heof', used, hused, ha⟩ := h s heof a _ hread
    exact ⟨heof', used, hused, fun b hb => (Option.mem_some.1 hb) ▸ ha⟩
  | error e t =>
    have horderly := hp.recovering.ok hfound
    obtain ⟨used, hused⟩ := horderly.rest
    have hnone : found = none := by
      cases (recovering_error hread).symm.trans hfound
      rfl
    exact ⟨horderly.eof ▸ heof, used, hused.symm, fun b hb => absurd (hnone ▸ hb) (Option.not_mem_none b)⟩

end Spends

/-! ## Items -/

section Items

variable {α : Type} {close : TokenKind} {what : String} {item : Parse α}

/-- Behind all items the closing token is next. -/
theorem peek_of_items {s t : ParseState} {taken : List α} (h : items close what item s = .ok taken t) :
    t.peek.kind = close := by
  obtain ⟨_, u, -, h⟩ := of_bind_ok h
  refine of_rounds (motive := fun _ _ => t.peek.kind = close) (fun taken s hdone => ?_) (fun _ _ _ _ _ h => h) h
  obtain ⟨closed, s', hcheck, hdone⟩ := of_bind_ok hdone
  cases hcheck
  split at hdone
  · rename_i hclosed
    cases hdone
    exact eq_of_beq hclosed
  · obtain ⟨a, s₁, -, hdone⟩ := of_bind_ok hdone
    obtain ⟨_, s₂, -, hdone⟩ := of_bind_ok hdone
    obtain ⟨comma, s₃, -, hdone⟩ := of_bind_ok hdone
    split at hdone
    · obtain ⟨_, s₄, -, hdone⟩ := of_bind_ok hdone
      cases hdone
    · obtain ⟨closed, s₄, hcheck, hdone⟩ := of_bind_ok hdone
      cases hcheck
      split at hdone
      · rename_i hclosed
        cases hdone
        exact eq_of_beq hclosed
      · cases hdone

/-- What is known of items passes on to one item more, and what stands between them plays no part in it. -/
structure Accumulates (known : List Token → α → Prop) (holds : List Token → List α → Prop) : Prop where
  nil : holds [] []
  skip {all gap : List Token} {taken : List α} : (∀ t ∈ gap, t.kind = .newline ∨ t.kind = .comma) → holds all taken →
    holds (all ++ gap) taken
  more {all used : List Token} {taken : List α} {a : α} : holds all taken → known used a →
    holds (all ++ used) (taken ++ [a])

variable {known : List Token → α → Prop} {holds : List Token → List α → Prop} (h : Accumulates known holds)
  (hitem : ∀ s, Spends s [] item known)

include h hitem

theorem spends_items (s : ParseState) : Spends s [] (items close what item) holds := by
  have hbreaks {all gap : List Token} {taken : List α} (hgap : ∀ t ∈ gap, t.kind = .newline) (htaken : holds all taken) :
      holds (all ++ gap) taken := h.skip (fun t ht => .inl (hgap t ht)) htaken
  refine spends_skipNewlines fun s gap hgap => spends_rounds holds (fun s all taken htaken => ?_) (hbreaks hgap h.nil)
  refine spends_look (spends_ite (fun _ => spends_pure htaken) ?_)
  refine spends_part _ hitem fun s used a ha => spends_skipNewlines fun s gap hgap => ?_
  have hmore : holds (all ++ used ++ gap) (taken ++ [a]) := hbreaks hgap (h.more htaken ha)
  refine spends_accept (by decide) (fun s comma hcomma => spends_skipNewlines fun s gap' hgap' => spends_pure ?_)
    (spends_look (spends_ite (fun _ => spends_pure hmore) (spends_expected _)))
  exact hbreaks hgap' (h.skip (List.forall_mem_singleton.2 (.inr hcomma)) hmore)

theorem spends_delimited (hclose : close ≠ .eof) (s : ParseState) : Spends s [] (delimited close what item)
    fun used taken => ∃ inner, used = inner ++ [taken.2] ∧ taken.2.kind = close ∧ holds inner taken.1 := by
  refine spends_bind _ (spends_items h hitem s) fun t used taken hread htaken => ?_
  have hpeek := peek_of_items hread
  exact spends_advance (hpeek ▸ hclose) fun t => spends_pure ⟨used, rfl, hpeek, htaken⟩

omit h hitem

/-- What is laid out item by item is laid out. -/
theorem accumulates_laid (occurrences : α → List Occurrence) :
    Accumulates (fun used a => Laid used (occurrences a)) fun used taken => Laid used (taken.flatMap occurrences) where
  nil := .nil []
  skip _ htaken := htaken.skip _
  more htaken ha := by
    rw [List.flatMap_append, List.flatMap_singleton]
    exact htaken.append ha

end Items

/-! ## Expressions -/

/-- A block is read from a run of tokens: it has its span, and the occurrences in it are laid out over it. -/
structure OverBlock (ts : List Token) (b : Block) : Prop where
  spans : Spans ts b.span
  laid : Laid ts b.occurrences

/-- The readers for what an expression or a block holds lay it out over the tokens they take. -/
structure Lays (deeper : Deeper) : Prop where
  orderly : Deeper.Has (fun {_} p => Orderly p) deeper
  expression (floor : Level) (s : ParseState) : Spends s [] (deeper.expression floor) fun used e => e.Over used
  block (s : ParseState) : Spends s [] deeper.block OverBlock

section Forms

open Expression (Over)

variable {deeper : Deeper} {s : ParseState} {opened : Token}

theorem spends_stringBehind (hopened : opened.kind ≠ .string) :
    Spends s [opened] (stringBehind opened) fun used e => e.Over used := by
  refine spends_expect (by decide) _ fun s content _ => spends_look (spends_ite (fun hclose => ?_) (spends_throw _))
  have hclose := eq_of_beq hclose
  refine spends_advance (by rw [hclose]; decide) fun t => spends_pure ?_
  have hspans : Spans ([opened] ++ [content] ++ [s.peek]) (opened.span.union s.peek.span) :=
    (Spans.single hopened).union [content] (.single (by rw [hclose]; decide))
  exact .node (.ofPart (.nil []) List.nil_infix (Nat.zero_lt_succ _)) hspans rfl

theorem spends_number {t : Token} (ht : t.kind ≠ .string) (value : String → Literal) :
    Spends s [t] (number t value) fun used e => e.Over used :=
  spends_ite (fun _ => spends_pure (.single ht rfl rfl rfl)) (spends_throw _)

theorem spends_accessTarget (s : ParseState) : Spends s [] accessTarget fun used e => e.Over used := by
  refine spends_look ?_
  split
  · rename_i hkind
    exact spends_advance (by rw [hkind]; decide) fun t => spends_pure (.single (by rw [hkind]; decide) rfl rfl rfl)
  · rename_i hkind
    exact spends_advance (by rw [hkind]; decide) fun t => spends_stringBehind (by rw [hkind]; decide)
  · exact spends_expected _

variable (hd : Lays deeper)

include hd

theorem spends_anyExpression (s : ParseState) : Spends s [] (anyExpression deeper) fun used e => e.Over used :=
  hd.expression .lowest s

theorem spends_vectorBehind (hopened : opened.kind ≠ .string) :
    Spends s [opened] (vectorBehind deeper opened) fun used e => e.Over used := by
  have hitem (s : ParseState) : Spends s [] (anyExpression deeper) fun used e => Laid used e.occurrences :=
    spends_imp (spends_anyExpression hd s) fun _ _ _ h => h.laid
  refine spends_part _ (spends_delimited (accumulates_laid _) hitem (by decide)) ?_
  rintro t _ ⟨elements, close⟩ ⟨inner, rfl, hclose, hinner⟩
  rw [← occurrencesOfElements_eq] at hinner
  have hspans := (Spans.single hopened).union inner (.single (t := close) (by rw [hclose]; decide))
  exact spends_pure (.node (.ofPart hinner ⟨[opened], [close], rfl⟩ (by simp)) hspans rfl)

theorem spends_argument (s : ParseState) :
    Spends s [] (argument deeper) fun used a => Laid used a.value.occurrences := by
  refine spends_look (spends_look (spends_ite (fun _ => ?_) ?_))
  · refine spends_skip orderly_closed.advance fun s gap₁ _ => spends_skip orderly_closed.advance fun s gap₂ _ =>
      spends_skip orderly_closed.skipNewlines fun s gap₃ _ => ?_
    exact spends_part _ (spends_anyExpression hd) fun s used e he => spends_pure (he.laid.behind _)
  · exact spends_part _ (spends_anyExpression hd) fun s used e he => spends_pure he.laid

theorem spends_arguments {close : TokenKind} (hclose : close ≠ .eof) (what : String) (s : ParseState) :
    Spends s [] (arguments deeper close what) fun used taken => ∃ inner, used = inner ++ [taken.2] ∧
      taken.2.kind = close ∧ Laid inner (occurrencesOfArguments taken.1) := by
  simp only [occurrencesOfArguments_eq]
  exact spends_delimited (accumulates_laid _) (spends_argument hd) hclose s

theorem spends_parameter (s : ParseState) : Spends s [] (parameter deeper) fun used p => Laid used p.occurrences := by
  refine spends_look (spends_ite (fun _ => ?_) (spends_expected _))
  refine spends_skip orderly_closed.advance fun s gap₁ t => spends_skip orderly_closed.annotation? fun s gap₂ types =>
    spends_skip (orderly_closed.accept _) fun s gap₃ _ => spends_ite (fun _ => ?_) (spends_pure (.nil _))
  refine spends_skip orderly_closed.skipNewlines fun s gap₄ _ => ?_
  exact spends_part _ (spends_anyExpression hd) fun s used e he => spends_pure (he.laid.behind _)

theorem spends_parameters (s : ParseState) :
    Spends s [] (parameters deeper) fun used ps => Laid used (occurrencesOfParameters ps) := by
  simp only [occurrencesOfParameters_eq]
  refine spends_part _ (spends_delimited (accumulates_laid _) (spends_parameter hd) (by decide)) ?_
  rintro t _ taken ⟨inner, rfl, -, hinner⟩
  exact spends_pure (hinner.skip _)

/-! ### Functions -/

theorem spends_arrowFunctionBehind (hopened : opened.kind ≠ .string) :
    Spends s [opened] (arrowFunctionBehind deeper opened) fun used e => e.Over used := by
  refine spends_part _ (spends_parameters hd) fun s used ps hps => ?_
  refine spends_skip orderly_closed.annotation? fun s gap₁ returns => spends_skip (orderly_closed.expect _ _)
    fun s gap₂ _ => spends_skip orderly_closed.skipNewlines fun s gap₃ _ => spends_look ?_
  have hbody {body : Block} {more : List Token} (h : OverBlock more body) :
      Over ([opened] ++ used ++ gap₁ ++ gap₂ ++ gap₃ ++ more) (.function (opened.span.union body.span)
        { name := none, nameSpan := opened.span.union body.span, receiver := none, parameters := ps,
          returnTypes := returns, body, decorators := [] }) := by
    have hinner : Laid (used ++ (gap₁ ++ gap₂ ++ gap₃ ++ more)) (occurrencesOfParameters ps ++ body.occurrences) :=
      hps.append (h.laid.behind _)
    have hspans := (Spans.single hopened).union (used ++ gap₁ ++ gap₂ ++ gap₃) h.spans
    simp only [List.append_assoc] at hinner hspans ⊢
    exact .node (.ofPart hinner (List.suffix_append _ _).isInfix (by simp)) hspans rfl
  refine spends_ite (fun _ => ?_) ?_
  · exact spends_part _ hd.block fun s more body h => spends_pure (hbody h)
  · refine spends_part _ (spends_anyExpression hd) fun s more e he => spends_pure (hbody ⟨he.spans, ?_⟩)
    rw [Block.occurrences, occurrencesOfStatements_eq, List.flatMap_singleton, Statement.occurrences]
    exact he.laid

/-- A function is read from a run of tokens, whatever stands in its decorators. -/
structure OverFunction (decorators : List Decorator) (ts : List Token) (e : Expression) : Prop where
  aside : e.aside = Occurrence.lookedInto false (occurrencesOfDecorators decorators)
  spans : Spans ts e.span
  laid : Laid ts (e.inside ++ [⟨e, true⟩])

theorem spends_functionBehind (hopened : opened.kind ≠ .string) (decorators : List Decorator) :
    Spends s [opened] (functionBehind deeper opened decorators) (OverFunction decorators) := by
  refine spends_skip orderly_closed.receiver? fun s gap receiver => ?_
  have hrest (s : ParseState) (gap : List Token) (name : Option Token) : Spends s ([opened] ++ gap) (do
      let _ ← Parse.expect .leftParen "`(` to start parameter list"
      let ps ← Parse.parameters deeper
      let returnTypes ← Parse.annotation?
      Parse.skipNewlines
      let body ← deeper.block
      return Expression.function (opened.span.union body.span)
        { name := name.map Token.text, nameSpan := (name.getD opened).span, receiver, parameters := ps, returnTypes,
          body, decorators } : Parse Expression) (OverFunction decorators) := by
    refine spends_skip (orderly_closed.expect _ _) fun s gap₁ _ => spends_part _ (spends_parameters hd)
      fun s used ps hps => spends_skip orderly_closed.annotation? fun s gap₂ returns =>
        spends_skip orderly_closed.skipNewlines fun s gap₃ _ => spends_part _ hd.block fun s more body hbody =>
          spends_pure ?_
    have hinner : Laid (used ++ (gap₂ ++ gap₃ ++ more)) (occurrencesOfParameters ps ++ body.occurrences) :=
      hps.append (hbody.laid.behind _)
    have hspans := (Spans.single hopened).union (gap ++ gap₁ ++ used ++ gap₂ ++ gap₃) hbody.spans
    have hpart := (List.suffix_append (gap ++ gap₁) (used ++ (gap₂ ++ gap₃ ++ more))).isInfix
    simp only [List.append_assoc] at hinner hspans hpart ⊢
    exact ⟨rfl, hspans, .node (.ofPart hinner (hpart.trans (List.suffix_append _ _).isInfix) (by simp; omega)) hspans⟩
  refine spends_look (spends_ite (fun _ => ?_) (spends_ite (fun _ => ?_) ?_))
  · exact spends_skip orderly_closed.advance fun s gap₁ name => by
      rw [List.append_assoc]
      exact hrest s _ (some name)
  · exact spends_skip (orderly_closed.expected _) fun s gap₁ name => by
      rw [List.append_assoc]
      exact hrest s _ name
  · exact hrest s gap none

/-! ### Branches -/

omit hd

/-- A branch is read from the tokens behind its `if`. -/
structure OverBranch (ts : List Token) (b : Branch) : Prop where
  laid : Laid ts (b.condition.occurrences ++ b.consequence.occurrences)
  ends : ∃ gap run, ts = gap ++ run ∧ Spans run b.consequence.span

/-- What is behind the consequence of a branch: nothing, or a block at the end of some tokens. -/
structure OverElse (ts : List Token) (alternative : Option Block) : Prop where
  laid : Laid ts (occurrencesOfElse alternative)
  empty : alternative = none → ts = []
  ends : ∀ b, alternative = some b → ∃ gap run, ts = gap ++ run ∧ Spans run b.span

theorem OverElse.none : OverElse [] none := ⟨.nil _, fun _ => rfl, nofun⟩

theorem OverElse.some {ts : List Token} {b : Block} (h : OverBlock ts b) (gap : List Token) :
    OverElse (gap ++ ts) (some b) where
  laid := h.laid.behind gap
  empty := nofun
  ends _ hb := ⟨gap, ts, rfl, Option.some.inj hb ▸ h.spans⟩

/-- A branch and what is behind it make up an expression. -/
theorem over_close {ts us : List Token} {b : Branch} {alternative : Option Block} (hopened : opened.kind ≠ .string)
    (hif : b.ifSpan = opened.span) (h : OverBranch ts b) (h' : OverElse us alternative) :
    Over ([opened] ++ (ts ++ us)) (b.close alternative) := by
  have hinner := h.laid.append h'.laid
  rw [List.append_assoc] at hinner
  have hspans : Spans ([opened] ++ (ts ++ us)) (b.ifSpan.union (alternative.getD b.consequence).span) := by
    rw [hif]
    cases halternative : alternative with
    | none =>
      obtain ⟨gap, run, rfl, hspan⟩ := h.ends
      obtain rfl := h'.empty halternative
      rw [List.append_nil]
      exact (Spans.single hopened).union gap hspan
    | some block =>
      obtain ⟨gap, run, rfl, hspan⟩ := h'.ends block halternative
      rw [← List.append_assoc ts gap run]
      exact (Spans.single hopened).union (ts ++ gap) hspan
  exact .node (.ofPart hinner (List.suffix_append _ _).isInfix (by simp)) hspans rfl

/-- A branch behind an `else`: it is read from a gap, the `else`, and its own tokens. -/
structure OverLink (ts : List Token) (b : Branch) : Prop where
  tokens : ∃ (gap : List Token) (otherwise : Token) (more : List Token) (opened : Token) (run : List Token),
    ts = gap ++ ([otherwise] ++ (more ++ ([opened] ++ run))) ∧
    b.elseSpan = otherwise.span ∧ b.ifSpan = opened.span ∧ otherwise.kind ≠ .string ∧ opened.kind ≠ .string ∧
    OverBranch run b

/-- A link of a chain and what is behind it are behind the consequence in front of it. -/
theorem OverLink.asBlock {ts us : List Token} {b : Branch} {alternative : Option Block} (h : OverLink ts b)
    (h' : OverElse us alternative) : OverElse (ts ++ us) (some (b.asBlock alternative)) := by
  obtain ⟨gap, otherwise, more, opened, run, rfl, helse, hif, hotherwise, hopened, hbranch⟩ := h.tokens
  have hclose := over_close hopened hif hbranch h'
  have hblock : OverBlock ([otherwise] ++ (more ++ ([opened] ++ (run ++ us)))) (b.asBlock alternative) := by
    refine ⟨?_, ?_⟩
    · rw [Branch.asBlock, helse]
      exact (Spans.single hotherwise).union more hclose.spans
    · rw [Branch.asBlock, Block.occurrences, occurrencesOfStatements_eq, List.flatMap_singleton, Statement.occurrences]
      exact (hclose.laid.behind more).behind [otherwise]
  have helse := OverElse.some hblock gap
  simpa only [List.append_assoc] using helse

/-- The links of a chain, one behind the other. -/
inductive OverLinks : List Token → List Branch → Prop
  | nil : OverLinks [] []
  | cons {ts us b more} (h : OverLink ts b) (hmore : OverLinks us more) : OverLinks (ts ++ us) (b :: more)

theorem OverLinks.concat {ts us : List Token} {more : List Branch} {b : Branch} (h : OverLinks ts more)
    (hb : OverLink us b) : OverLinks (ts ++ us) (more ++ [b]) := by
  induction h with
  | nil => simpa only [List.append_nil, List.nil_append] using OverLinks.cons hb .nil
  | cons h _ ih =>
    rw [List.append_assoc]
    exact .cons h ih

theorem OverLinks.alternative {ts us : List Token} {more : List Branch} {last : Option Block} (h : OverLinks ts more)
    (hlast : OverElse us last) :
    OverElse (ts ++ us) (more.foldr (fun b alternative => some (b.asBlock alternative)) last) := by
  induction h with
  | nil => exact hlast
  | cons h _ ih =>
    rw [List.append_assoc]
    exact h.asBlock ih

/-- Where an `else` follows it is taken, behind the line ends in front of it. -/
theorem spends_otherwise {α : Type} {before : List Token} {next : Token → Parse α} {holds : List Token → α → Prop}
    (helse : elseFollows s.rest = true)
    (hnext : ∀ s gap t, t.kind = .keyword .else → Spends s (before ++ (gap ++ [t])) (next t) holds) :
    Spends s before (skipNewlines >>= fun _ => advance >>= next) holds := by
  obtain ⟨t, hhead, hkind⟩ := (Option.any_eq_true _ _).1 helse
  let u : ParseState := { s with rest := s.rest.dropWhile (·.kind == .newline) }
  let gap := s.rest.takeWhile (·.kind == .newline)
  have hpeek : u.peek = t := by rw [ParseState.peek, show u.rest.head? = some t from hhead, Option.getD_some]
  have hsplit : s.rest = gap ++ u.rest := List.takeWhile_append_dropWhile.symm
  have hkind : t.kind = .keyword .else := eq_of_beq hkind
  have hu : Spends u (before ++ gap) (advance >>= next) holds := by
    refine spends_advance (by rw [hpeek, hkind]; decide) fun s => ?_
    rw [hpeek, List.append_assoc]
    exact hnext s gap t hkind
  intro heof a s' hok
  obtain ⟨heof', used, hused, ha⟩ := hu heof a s' hok
  exact ⟨heof', gap ++ used, by rw [hsplit, hused, List.append_assoc], by rwa [← List.append_assoc]⟩

variable (hd : Lays deeper)

include hd

theorem spends_branch (elseSpan ifSpan : Span) (s : ParseState) :
    Spends s [] (branch deeper elseSpan ifSpan) fun used b =>
      b.elseSpan = elseSpan ∧ b.ifSpan = ifSpan ∧ OverBranch used b := by
  refine spends_skip (orderly_closed.expect _ _) fun s gap₁ _ => spends_skip orderly_closed.skipNewlines fun s gap₂ _ =>
    spends_part _ (spends_anyExpression hd) fun s used condition hcondition =>
      spends_skip orderly_closed.skipNewlines fun s gap₃ _ => spends_skip (orderly_closed.expect _ _) fun s gap₄ _ =>
        spends_skip orderly_closed.skipNewlines fun s gap₅ _ => spends_part _ hd.block fun s more body hbody =>
          spends_pure ⟨rfl, rfl, ?_, _, more, rfl, hbody.spans⟩
  exact (((hcondition.laid.behind _).skip gap₃).skip gap₄ |>.skip gap₅).append hbody.laid

theorem spends_conditionalBehind (hopened : opened.kind ≠ .string) :
    Spends s [opened] (conditionalBehind deeper opened) fun used e => e.Over used := by
  refine spends_part _ (spends_branch hd _ _) fun s first b hb => ?_
  obtain ⟨-, hif, hb⟩ := hb
  let known (all : List Token) (more : List Branch) : Prop :=
    ∃ used, all = [opened] ++ (first ++ used) ∧ OverLinks used more
  have hchain {used us : List Token} {more : List Branch} {last : Option Block} (h : OverLinks used more)
      (hlast : OverElse us last) : Over ([opened] ++ (first ++ (used ++ us))) (chain b more last) :=
    over_close hopened hif hb (h.alternative hlast)
  refine spends_rounds known (fun s all more hmore => ?_) ⟨[], by simp, .nil⟩
  obtain ⟨used, rfl, hlinks⟩ := hmore
  refine spends_look (spends_ite (fun helse => ?_) ?_)
  · refine spends_otherwise helse fun s gap otherwise hotherwise => ?_
    refine spends_skip orderly_closed.skipNewlines fun s gap' _ => spends_look (spends_ite (fun hnext => ?_) ?_)
    · have hnext := eq_of_beq hnext
      refine spends_advance (by rw [hnext]; decide) fun t =>
        spends_part _ (spends_branch hd _ _) fun s run link hlink => ?_
      obtain ⟨helseSpan, hifSpan, hlink⟩ := hlink
      refine spends_pure ⟨_, ?_, hlinks.concat ⟨gap, otherwise, gap', _, run, rfl, helseSpan, hifSpan,
        by rw [hotherwise]; decide, by rw [hnext]; decide, hlink⟩⟩
      simp
    · refine spends_part _ hd.block fun s run block hblock => spends_pure ?_
      have hover := hchain hlinks (.some hblock (gap ++ [otherwise] ++ gap'))
      simpa only [List.append_assoc] using hover
  · exact spends_pure (by simpa only [List.append_nil] using hchain hlinks .none)

/-! ### Loops -/

theorem spends_forBehind (hopened : opened.kind ≠ .string) :
    Spends s [opened] (forBehind deeper opened) fun used e => e.Over used := by
  refine spends_skip (orderly_closed.expect _ _) fun s gap₁ _ => spends_skip (orderly_closed.expect _ _) fun s gap₂ _ =>
    spends_skip (orderly_closed.identifier _) fun s gap₃ name => spends_skip (orderly_closed.annotationOf name)
      fun s gap₄ loopVariable => spends_skip (orderly_closed.expect _ _) fun s gap₅ _ =>
        spends_part _ (spends_anyExpression hd) fun s used iterable he => ?_
  refine spends_skip (orderly_closed.expect _ _) fun s gap₆ _ => spends_skip orderly_closed.skipNewlines fun s gap₇ _ =>
    spends_part _ hd.block fun s more body hbody => spends_pure ?_
  have hinner : Laid (gap₁ ++ gap₂ ++ gap₃ ++ gap₄ ++ gap₅ ++ (used ++ (gap₆ ++ gap₇ ++ more)))
      (iterable.occurrences ++ body.occurrences) := (he.laid.append (hbody.laid.behind _)).behind _
  have hspans := (Spans.single hopened).union (gap₁ ++ gap₂ ++ gap₃ ++ gap₄ ++ gap₅ ++ used ++ gap₆ ++ gap₇) hbody.spans
  simp only [List.append_assoc] at hinner hspans ⊢
  exact .node (.ofPart hinner (List.suffix_append _ _).isInfix (by simp)) hspans rfl

theorem spends_whileBehind (hopened : opened.kind ≠ .string) :
    Spends s [opened] (whileBehind deeper opened) fun used e => e.Over used := by
  refine spends_skip (orderly_closed.expect _ _) fun s gap₁ _ => spends_skip orderly_closed.skipNewlines fun s gap₂ _ =>
    spends_part _ (spends_anyExpression hd) fun s used condition he => ?_
  refine spends_skip orderly_closed.skipNewlines fun s gap₃ _ => spends_skip (orderly_closed.expect _ _) fun s gap₄ _ =>
    spends_skip orderly_closed.skipNewlines fun s gap₅ _ => spends_part _ hd.block fun s more body hbody => spends_pure ?_
  have hinner : Laid (gap₁ ++ gap₂ ++ (used ++ (gap₃ ++ gap₄ ++ gap₅ ++ more)))
      (condition.occurrences ++ body.occurrences) := (he.laid.append (hbody.laid.behind _)).behind _
  have hspans := (Spans.single hopened).union (gap₁ ++ gap₂ ++ used ++ gap₃ ++ gap₄ ++ gap₅) hbody.spans
  simp only [List.append_assoc] at hinner hspans ⊢
  exact .node (.ofPart hinner (List.suffix_append _ _).isInfix (by simp)) hspans rfl

theorem spends_repeatBehind (hopened : opened.kind ≠ .string) :
    Spends s [opened] (repeatBehind deeper opened) fun used e => e.Over used := by
  refine spends_part _ hd.block fun s used body hbody => spends_pure ?_
  have hspans := (Spans.single hopened).union [] hbody.spans
  exact .node (.ofPart hbody.laid (List.suffix_append _ _).isInfix (by simp)) hspans rfl

/-! ### First parts and continuations -/

theorem spends_unaryBehind (hopened : opened.kind ≠ .string) (operator : UnaryOperator) :
    Spends s [opened] (unaryBehind deeper opened operator) fun used e => e.Over used := by
  refine spends_skip orderly_closed.skipNewlines fun s gap _ => spends_part _ (hd.expression _) fun s used e he =>
    spends_pure ?_
  have hinner := he.laid.behind gap
  have hspans := (Spans.single hopened).union gap he.spans
  rw [List.append_assoc]
  exact .node (.ofPart hinner (List.suffix_append _ _).isInfix (by simp)) hspans rfl

theorem spends_firstPart (s : ParseState) : Spends s [] (firstPart deeper) fun used e => e.Over used := by
  refine spends_look ?_
  -- The first token is taken in every form; it is neither the end of file nor the content of a string.
  have htake {kind : TokenKind} {p : Parse Expression} (hkind : s.peek.kind = kind) (heof : kind ≠ .eof)
      (h : ∀ t, Spends t [s.peek] p fun used e => e.Over used) :
      Spends s [] (advance >>= fun _ => p) fun used e => e.Over used := spends_advance (hkind ▸ heof) h
  split
  · rename_i hkind
    exact htake hkind (by decide) fun t => spends_pure (.single (by rw [hkind]; decide) rfl rfl rfl)
  · rename_i hkind
    exact htake hkind (by decide) fun t => spends_number (by rw [hkind]; decide) _
  · rename_i hkind
    exact htake hkind (by decide) fun t => spends_number (by rw [hkind]; decide) _
  · rename_i hkind
    exact htake hkind (by decide) fun t => spends_stringBehind (by rw [hkind]; decide)
  · rename_i hkind
    have hopened : s.peek.kind ≠ .string := by rw [hkind]; decide
    exact htake hkind (by decide) fun t => spends_look (spends_ite (fun _ => spends_arrowFunctionBehind hd hopened)
      (spends_vectorBehind hd hopened))
  · rename_i hkind
    refine htake hkind (by decide) fun t => spends_imp (spends_functionBehind hd (by rw [hkind]; decide) [])
      fun _ _ _ hover => ⟨hover.spans, ?_⟩
    rw [Expression.occurrences_eq, hover.aside]
    exact hover.laid
  · rename_i hkind
    exact htake hkind (by decide) fun t => spends_conditionalBehind hd (by rw [hkind]; decide)
  · rename_i hkind
    exact htake hkind (by decide) fun t => spends_forBehind hd (by rw [hkind]; decide)
  · rename_i hkind
    exact htake hkind (by decide) fun t => spends_whileBehind hd (by rw [hkind]; decide)
  · rename_i hkind
    exact htake hkind (by decide) fun t => spends_repeatBehind hd (by rw [hkind]; decide)
  · split
    · rename_i value _ hvalue
      have hkinds : s.peek.kind ≠ .eof ∧ s.peek.kind ≠ .string := by
        constructor <;> intro hkind <;> simp [wordLiteral?, hkind] at hvalue
      exact htake rfl hkinds.1 fun t => spends_pure (.single hkinds.2 rfl rfl rfl)
    · rename_i operator _ hoperator
      have hkinds : s.peek.kind ≠ .eof ∧ s.peek.kind ≠ .string := by
        constructor <;> intro hkind <;> simp [Token.unaryOperator?, hkind] at hoperator
      exact htake rfl hkinds.1 fun t => spends_unaryBehind hd hkinds.2 operator
    · rintro _ _ _ ⟨⟩

variable {before : List Token} {left : Expression}

theorem spends_operatorBehind (hleft : left.Over before) (operator : BinaryOperator) :
    Spends s before (operatorBehind deeper left operator) fun used e => e.Over used := by
  refine spends_skip orderly_closed.advance fun s gap _ => ?_
  have hover {gap more : List Token} {right : Expression} (h : right.Over more) :
      Over (before ++ gap ++ more) (.binary (left.span.union right.span) operator left right) := by
    have hspans := hleft.spans.union gap h.spans
    have hinner := LaidInside.append (hleft.laid.lookedInto (operator.infersLeft left))
      ((h.laid.lookedInto (!operator.isAccess)).behind gap) hleft.spans.ne_nil
      (List.append_ne_nil_of_right_ne_nil gap h.spans.ne_nil)
    rw [List.append_assoc]
    exact .node hinner hspans rfl
  refine spends_ite (fun _ => ?_) ?_
  · exact spends_part _ spends_accessTarget fun s more right h => spends_pure (hover h)
  · refine spends_skip orderly_closed.skipNewlines fun s gap' _ => spends_part _ (hd.expression _) fun s more right h =>
      spends_pure ?_
    rw [List.append_assoc before]
    exact hover h

omit hd in
/-- What stands behind an expression in brackets, up to the closing one. -/
theorem over_bracketed {gap inner : List Token} {close : Token} {as : List Argument} {e : Expression} {inferred : Bool}
    (hleft : left.Over before) (hclose : close.kind ≠ .string) (has : Laid inner (occurrencesOfArguments as))
    (hspan : e.span = left.span.union close.span) (haside : e.aside = [])
    (hinside : e.inside = Occurrence.lookedInto inferred left.occurrences ++ occurrencesOfArguments as) :
    Over (before ++ gap ++ (inner ++ [close])) e := by
  have hspans := hleft.spans.union (gap ++ inner) (.single hclose)
  have hinner := LaidInside.append (hleft.laid.lookedInto inferred) ((has.skip [close]).behind gap) hleft.spans.ne_nil
    (List.append_ne_nil_of_right_ne_nil gap (List.append_ne_nil_of_right_ne_nil inner (List.cons_ne_nil close [])))
  simp only [List.append_assoc] at hspans hinner ⊢
  exact .node (hinside ▸ hinner) (hspan ▸ hspans) haside

theorem spends_continuationOf (hleft : left.Over before) :
    ∀ continuation, Spends s before (continuationOf deeper left continuation) fun used e => e.Over used
  | .operator operator => spends_operatorBehind hd hleft operator
  | .call => by
    refine spends_skip orderly_closed.advance fun s gap _ => spends_part _ (spends_arguments hd (by decide) _) ?_
    rintro s _ ⟨as, close⟩ ⟨inner, rfl, hclose, has⟩
    exact spends_pure (over_bracketed hleft (by rw [hclose]; decide) has rfl rfl rfl)
  | .index double => by
    have hindex {close : Token} {gap inner : List Token} {as : List Argument} (hclose : close.kind ≠ .string)
        (has : Laid inner (occurrencesOfArguments as)) :
        Over (before ++ gap ++ (inner ++ [close])) (.index (left.span.union close.span) left as double) :=
      over_bracketed hleft hclose has rfl rfl (rfl : _ = Occurrence.lookedInto true left.occurrences ++ _)
    refine spends_skip orderly_closed.advance fun s gap _ => spends_ite (fun _ => ?_) ?_
    · refine spends_part _ (spends_arguments hd (by decide) _) ?_
      rintro s _ ⟨as, close⟩ ⟨inner, rfl, hclose, has⟩
      exact spends_pure (hindex (by rw [hclose]; decide) has)
    · refine spends_part _ (spends_arguments hd (by decide) _) ?_
      rintro s _ ⟨as, close⟩ ⟨inner, rfl, hclose, has⟩
      exact spends_pure (hindex (by rw [hclose]; decide) has)

theorem spends_expressionBody (floor : Level) (s : ParseState) :
    Spends s [] (expressionBody deeper floor) fun used e => e.Over used := by
  refine spends_part _ (spends_firstPart hd) fun s used first hfirst => spends_rounds (fun used e => e.Over used)
    (fun s used left hleft => spends_look ?_) hfirst
  split
  · refine spends_ite (fun _ => ?_) (spends_pure hleft)
    exact spends_bind _ (spends_continuationOf hd hleft _) fun s all e _ he => spends_pure he
  · exact spends_pure hleft

/-! ## Statements -/

/-- What a reader that reads an expression last lays out. -/
theorem spends_lastExpression {before : List Token} {f : Expression → Statement}
    (hf : ∀ e, (f e).occurrences = e.occurrences) :
    Spends s before (anyExpression deeper >>= fun e => pure (f e)) fun used st => Laid used st.occurrences :=
  spends_part _ (spends_anyExpression hd) fun _ _ e he => spends_pure (hf e ▸ he.laid.behind before)

omit hd in
theorem spends_ended {p : Parse Statement} {holds : List Token → Statement → Prop} (h : ∀ s, Spends s [] p holds)
    (s : ParseState) : Spends s [] (ended p) holds := by
  intro heof st s' hst
  exact h s heof st s' (of_ended hst).1

theorem spends_binding (constant : Bool) (s : ParseState) :
    Spends s [] (binding deeper constant) fun used st => Laid used st.occurrences := by
  refine spends_skip orderly_closed.advance fun s gap₁ _ => spends_skip (orderly_closed.identifier _) fun s gap₂ name =>
    spends_skip (orderly_closed.annotationOf name) fun s gap₃ target => spends_skip (orderly_closed.accept _)
      fun s gap₄ _ => spends_ite (fun _ => ?_) (spends_ite (fun _ => spends_expected _) (spends_pure (.nil _)))
  exact spends_skip orderly_closed.skipNewlines fun s gap₅ _ => spends_lastExpression hd fun e => by
    rw [Statement.occurrences]

theorem spends_returnStatement (s : ParseState) :
    Spends s [] (returnStatement deeper) fun used st => Laid used st.occurrences := by
  refine spends_skip orderly_closed.advance fun s gap word => spends_look (spends_ite (fun _ => spends_pure (.nil _)) ?_)
  exact spends_lastExpression hd fun e => by rw [Statement.occurrences]

theorem spends_deferStatement (s : ParseState) :
    Spends s [] (deferStatement deeper) fun used st => Laid used st.occurrences :=
  spends_skip orderly_closed.advance fun s gap word => spends_lastExpression hd fun e => by rw [Statement.occurrences]

theorem spends_decorator (s : ParseState) :
    Spends s [] (decorator deeper) fun used d => Laid used (occurrencesOfArguments d.arguments) := by
  refine spends_skip orderly_closed.advance fun s gap₁ _ => spends_skip (orderly_closed.identifier _) fun s gap₂ name => ?_
  dsimp only
  split
  · exact spends_throw _
  · refine spends_skip (orderly_closed.accept _) fun s gap₃ _ => spends_ite (fun _ => ?_)
      (spends_skip orderly_closed.skipNewlines fun s gap₄ _ => spends_pure (.nil _))
    refine spends_part _ (spends_arguments hd (by decide) _) ?_
    rintro s _ ⟨as, close⟩ ⟨inner, rfl, -, has⟩
    exact spends_skip orderly_closed.skipNewlines fun s gap₄ _ => spends_pure (((has.skip [close]).behind _).skip gap₄)

omit hd in
/-- A type statement holds what its decorators hold. -/
theorem spends_typeStatement {before : List Token} (decorators : List Decorator)
    (h : Laid before (occurrencesOfDecorators decorators)) :
    Spends s before (typeDeclaration decorators >>= fun d => pure (Statement.typeDeclaration d)) fun used st =>
      Laid used st.occurrences := by
  refine spends_part _ (spends_orderly (orderly_closed.typeDeclaration decorators) (answers_typeDeclaration decorators)) ?_
  rintro s used ⟨name, span, list, kind, types, attributes, _⟩ rfl
  refine spends_pure ?_
  rw [Statement.occurrences, TypeDeclaration.occurrences]
  exact (h.lookedInto false).skip used

theorem spends_declarationBehind {before : List Token} {decorators : List Decorator} (last : Decorator)
    (h : Laid before (occurrencesOfDecorators decorators)) :
    Spends s before (declarationBehind deeper decorators last) fun used st => Laid used st.occurrences := by
  refine spends_look ?_
  split
  · exact spends_typeStatement decorators h
  · rename_i hkind
    split
    · exact spends_throw _
    · -- The run of the function begins behind its decorators.
      refine spends_advance (by rw [hkind]; decide) fun t => spends_bind _ (spends_frame before
        (spends_functionBehind hd (by rw [hkind]; decide) decorators)) ?_
      rintro t _ e - ⟨used, rfl, he⟩
      refine spends_pure ?_
      rw [Statement.occurrences, Expression.occurrences_eq, he.aside]
      exact (h.lookedInto false).append he.laid
  · exact spends_throw _

theorem spends_decorated (s : ParseState) : Spends s [] (decorated deeper) fun used st => Laid used st.occurrences := by
  let known (used : List Token) (listed : List Decorator × Decorator) : Prop :=
    Laid used (occurrencesOfDecorators listed.1)
  refine spends_part _ (spends_decorator hd) fun s used first hfirst => spends_bind (fun all listed _ => known all listed) ?_ fun s all listed _ h =>
    spends_declarationBehind hd listed.2 h
  have hone : known ([] ++ used) ([first], first) := by
    show Laid used (occurrencesOfDecorators [first])
    rw [occurrencesOfDecorators_eq, List.flatMap_singleton]
    exact hfirst
  refine spends_rounds known (fun s all listed hlisted => ?_) hone
  refine spends_look (spends_ite (fun _ => ?_) (spends_pure hlisted))
  refine spends_part _ (spends_decorator hd) fun s more d hmore => spends_pure ?_
  show Laid (all ++ more) (occurrencesOfDecorators (listed.1 ++ [d]))
  rw [occurrencesOfDecorators_eq, List.flatMap_append, ← occurrencesOfDecorators_eq, List.flatMap_singleton]
  exact hlisted.append hmore

theorem spends_statement (s : ParseState) :
    Spends s [] (Parse.statement deeper) fun used st => Laid used st.occurrences := by
  have hword {st : Token → Statement} (h : ∀ t, (st t).occurrences = []) (s : ParseState) :
      Spends s [] (advance >>= fun t => pure (st t)) fun used st => Laid used st.occurrences :=
    spends_skip orderly_closed.advance fun s gap t => spends_pure (h t ▸ .nil _)
  refine spends_look ?_
  split
  · exact spends_ended (spends_binding hd _) s
  · exact spends_ended (spends_binding hd _) s
  · exact spends_ended (fun s => spends_typeStatement [] (.nil _)) s
  · exact spends_ended (spends_returnStatement hd) s
  · exact spends_ended (spends_deferStatement hd) s
  · exact spends_ended (hword fun t => by rw [Statement.occurrences]) s
  · exact spends_ended (hword fun t => by rw [Statement.occurrences]) s
  · exact hword (fun t => by rw [Statement.occurrences]) s
  · exact hword (fun t => by rw [Statement.occurrences]) s
  · exact spends_ended (spends_decorated hd) s
  · refine spends_ended (fun s => spends_part _ hd.block fun s used b hb => spends_pure ?_) s
    rw [Statement.occurrences]
    exact hb.laid
  · exact spends_ended (fun s => spends_lastExpression hd fun e => by rw [Statement.occurrences]) s

theorem spends_statements (inBlock : Bool) (s : ParseState) :
    Spends s [] (Parse.statements deeper inBlock) fun used taken => Laid used (occurrencesOfStatements taken) := by
  let known (used : List Token) (taken : List Statement) : Prop := Laid used (occurrencesOfStatements taken)
  refine spends_rounds known (fun s all taken htaken => ?_) (.nil _)
  refine spends_skip orderly_closed.skipSeparators fun s gap _ => spends_look (spends_ite
    (fun _ => spends_pure (htaken.skip gap)) ?_)
  refine spends_part _ (spends_recovering (orderly_closed.statement hd.orderly) (spends_statement hd))
    fun s used found hfound => ?_
  cases found with
  | none => exact spends_pure ((htaken.skip gap).skip used)
  | some st =>
    refine spends_pure ?_
    show Laid (all ++ gap ++ used) (occurrencesOfStatements (taken ++ [st]))
    rw [occurrencesOfStatements_eq, List.flatMap_append, ← occurrencesOfStatements_eq, List.flatMap_singleton]
    exact (htaken.skip gap).append (hfound st rfl)

theorem spends_blockBody (hopened : opened.kind ≠ .string) : Spends s [opened] (blockBody deeper opened) OverBlock := by
  refine spends_part _ (spends_statements hd true) fun s used taken htaken => spends_expect (by decide) _
    fun s close hclose => spends_pure ?_
  have hspans := (Spans.single hopened).union used (.single (t := close) (by rw [hclose]; decide))
  rw [List.append_assoc]
  refine ⟨hspans, ?_⟩
  rw [Block.occurrences]
  exact (htaken.skip [close]).behind [opened]

end Forms

/-! ## Nesting -/

/-- **The induction over the room that is left.** -/
theorem lays_deeperAt : ∀ room : Nat, Lays (deeperAt room)
  | 0 => by
    refine ⟨orderly_closed.deeperAt 0, fun floor s => ?_, fun s => ?_⟩
    · rintro _ _ _ ⟨⟩
    · have hdeep (t : ParseState) (opened : Token) : Spends t ([] ++ [opened]) (tooDeep opened.span) OverBlock := by
        rintro _ _ _ ⟨⟩
      exact spends_expect (by decide) _ fun t opened _ => hdeep t opened
  | room + 1 => by
    have hd := lays_deeperAt room
    refine ⟨orderly_closed.deeperAt (room + 1), fun floor => spends_nested (fun _ _ _ h => h) (spends_expressionBody hd floor), fun s => ?_⟩
    exact spends_expect (by decide) _ fun s opened hopened =>
      spends_nested (fun _ _ _ h => h) (fun s => spends_blockBody hd (by rw [hopened]; decide)) s

/-- **What is read from tokens of one file is laid out over them.** -/
theorem laid_ofTokens (tokens : List Token) (limit : Nat) : ∃ run, run <+: (ParseState.ofTokens tokens).rest ∧
    Laid run (occurrencesOfStatements (ParsedProgram.ofTokens tokens limit).program.statements) := by
  unfold ParsedProgram.ofTokens
  split
  · rename_i statements s hread
    obtain ⟨-, used, hused, hlaid⟩ := spends_statements (lays_deeperAt limit) false (.ofTokens tokens)
      (ParseState.eof_kind_ofTokens tokens) statements s hread
    exact ⟨used, ⟨s.rest, hused.symm⟩, hlaid⟩
  · exact ⟨[], List.nil_prefix, .nil []⟩

end Parse
end UnionScript
