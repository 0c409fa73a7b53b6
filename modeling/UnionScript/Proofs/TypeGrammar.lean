import UnionScript.Proofs.Orderly
/-!
# TypeGrammar — which tokens declare a type

What the readers of annotations and type declarations accept is said here without them, as relations between tokens and
what these stand for (`Alternative`, `Annotation`, `Entries`, `Declaration`).  A reader that answers has taken tokens
that stand for its answer (`of_typeDeclaration`), and from tokens that stand for something it reads just that, whatever
follows them (`typeDeclaration_before`), as long as what follows does not belong to them.
-/
namespace UnionScript

/-! ## The relations -/

namespace Grammar

/-- The tokens of one alternative of a union. -/
inductive Alternative : List Token → TypeName → Prop
  | named {name : Token} (hname : name.kind = .identifier) : Alternative [name] { name := name.text }
  | packaged {package access name : Token} (hpackage : package.kind = .identifier)
    (haccess : access.kind = .namespaceAccess) (hname : name.kind = .identifier) :
    Alternative [package, access, name] { name := name.text, package := some package.text }
  | list {mark : Token} {ts : List Token} {t : TypeName} (hmark : mark.kind = .listMark) (h : Alternative ts t)
    (hplain : t.list = false) : Alternative (mark :: ts) { t with list := true }

/-- The tokens of further alternatives, each behind a bar. -/
inductive Alternatives : List Token → List TypeName → Prop
  | nil : Alternatives [] []
  | cons {bar : Token} {breaks ts more : List Token} {t : TypeName} {all : List TypeName} (hbar : bar.kind = .or)
    (hbreaks : ∀ b ∈ breaks, b.kind = .newline) (h : Alternative ts t) (hmore : Alternatives more all) :
    Alternatives (bar :: (breaks ++ (ts ++ more))) (t :: all)

/-- The tokens of a union. -/
inductive Annotation : List Token → Union → Prop
  | intro {first more : List Token} {t : TypeName} {all : List TypeName} (h : Alternative first t)
    (hmore : Alternatives more all) : Annotation (first ++ more) (.ofList (t :: all))

/-- The members and attributes that a body has listed. -/
abbrev Listed := Union × List TypedName

/-- The tokens of one entry of a body, with what is listed before and behind it. -/
inductive Entry : List Token → Listed → Listed → Prop
  | member {ts : List Token} {u types : Union} {attributes : List TypedName} (h : Annotation ts u) :
    Entry ts (types, attributes) (types.merge u, attributes)
  | named {name colon : Token} {ts : List Token} {u types : Union} {attributes : List TypedName}
    (hname : name.kind = .identifier) (hcolon : colon.kind = .colon) (h : Annotation ts u) :
    Entry (name :: colon :: ts) (types, attributes)
      (types, attributes ++ [{ name := name.text, span := name.span, types := u }])

/-- Whether a kind of token may stand behind an entry. -/
def endsEntry (t : Token) : Bool := Parse.isEntrySeparator t || t.kind == .rightBrace

/-- The tokens of the entries of a body up to its closing brace, with what is listed before and behind them. -/
inductive Entries : List Token → Listed → Listed → Prop
  | close {separators : List Token} {brace : Token} {listed : Listed}
    (hseparators : ∀ t ∈ separators, Parse.isEntrySeparator t) (hbrace : brace.kind = .rightBrace) :
    Entries (separators ++ [brace]) listed listed
  | cons {separators ts more : List Token} {listed between result : Listed}
    (hseparators : ∀ t ∈ separators, Parse.isEntrySeparator t) (h : Entry ts listed between)
    (hend : more.head?.any endsEntry) (hmore : Entries more between result) :
    Entries (separators ++ (ts ++ more)) listed result

/-- The tokens of a type declaration without decorators. -/
inductive Declaration : List Token → TypeDeclaration → Prop
  | plain {word name colon : Token} {ts : List Token} {u : Union} (hword : word.kind = .keyword .type)
    (hname : name.kind = .identifier) (hcolon : colon.kind = .colon) (h : Annotation ts u) :
    Declaration (word :: name :: colon :: ts)
      { name := name.text, span := name.span, list := u.alternatives.all TypeName.list, kind := .plain, types := u,
        attributes := [], decorators := [] }
  | composite {word name colon announced brace : Token} {kind : TypeKind} {ts : List Token} {types : Union}
    {attributes : List TypedName} (hword : word.kind = .keyword .type) (hname : name.kind = .identifier)
    (hcolon : colon.kind = .colon) (hannounced : announced.kind = .identifier)
    (hkind : TypeKind.ofWord? announced.text = some kind) (hbrace : brace.kind = .leftBrace)
    (h : Entries ts (.empty, []) (types, attributes)) :
    Declaration (word :: name :: colon :: announced :: brace :: ts)
      { name := name.text, span := name.span, list := false, kind,
        types := if types.isEmpty then .named name.text else types, attributes, decorators := [] }

/-! ### Where the tokens begin -/

theorem Alternative.exists_cons {ts : List Token} {t : TypeName} (h : Alternative ts t) :
    ∃ first rest, ts = first :: rest ∧ (first.kind = .identifier ∨ first.kind = .listMark) := by
  cases h with
  | named hname => exact ⟨_, _, rfl, .inl hname⟩
  | packaged hpackage => exact ⟨_, _, rfl, .inl hpackage⟩
  | list hmark => exact ⟨_, _, rfl, .inr hmark⟩

/-- A union starts with a list mark or with a name, and with the name of a type behind it there is no colon or brace. -/
theorem Annotation.exists_cons {ts : List Token} {u : Union} (h : Annotation ts u) :
    ∃ first rest, ts = first :: rest ∧ (first.kind = .listMark ∨ first.kind = .identifier ∧
      ∀ t ∈ rest.head?, t.kind = .namespaceAccess ∨ t.kind = .or) := by
  cases h with
  | intro h hmore =>
    cases h with
    | named hname =>
      refine ⟨_, _, rfl, .inr ⟨hname, ?_⟩⟩
      cases hmore with
      | nil => simp
      | cons hbar => simp [hbar]
    | packaged hpackage haccess => exact ⟨_, _, rfl, .inr ⟨hpackage, by simp [haccess]⟩⟩
    | list hmark => exact ⟨_, _, rfl, .inl hmark⟩

theorem Entry.exists_cons {ts : List Token} {listed between : Listed} (h : Entry ts listed between) :
    ∃ first rest, ts = first :: rest ∧ (first.kind = .identifier ∨ first.kind = .listMark) := by
  cases h with
  | named hname => exact ⟨_, _, rfl, .inl hname⟩
  | member h =>
    obtain ⟨first, rest, rfl, hfirst⟩ := h.exists_cons
    exact ⟨first, rest, rfl, hfirst.symm.imp_left And.left⟩

theorem Entries.ne_nil {ts : List Token} {listed result : Listed} (h : Entries ts listed result) : ts ≠ [] := by
  cases h with
  | close => simp
  | cons hseparators h =>
    obtain ⟨first, rest, rfl, -⟩ := h.exists_cons
    simp

end Grammar

/-! ## Readers of tokens -/

/-- A state in front of some tokens. -/
def ParseState.before (s : ParseState) (ts : List Token) : ParseState := { s with rest := ts ++ s.rest }

namespace ParseState

variable (s : ParseState) (t : Token) (ts us : List Token)

theorem before_append : s.before (ts ++ us) = (s.before us).before ts := by
  simp only [before, List.append_assoc]

theorem before_cons : s.before (t :: ts) = (s.before ts).before [t] := rfl

@[simp] theorem peek_before_cons : (s.before (t :: ts)).peek = t := rfl

@[simp] theorem rest_before : (s.before ts).rest = ts ++ s.rest := rfl

@[simp] theorem eof_before : (s.before ts).eof = s.eof := rfl

@[simp] theorem errors_before : (s.before ts).errors = s.errors := rfl

/-- In front of tokens that pass a test, dropping such tokens leads up to the first that does not. -/
theorem dropWhile_before {s : ParseState} {ts rest : List Token} {first : Token} {test : Token → Bool}
    (h : ∀ t ∈ ts, test t) (hrest : s.rest = first :: rest) (hfirst : ¬test first) :
    (s.before ts).rest.dropWhile test = s.rest := by
  rw [rest_before, List.dropWhile_append_of_pos h, hrest, List.dropWhile_cons_of_neg hfirst]

/-- Behind the tokens that a test passes the state is in front of those. -/
theorem before_takeWhile (test : Token → Bool) :
    s = { s with rest := s.rest.dropWhile test : ParseState }.before (s.rest.takeWhile test) := by
  simp only [before, List.takeWhile_append_dropWhile]

/-- A state whose next token is none of the end of file is in front of it. -/
theorem exists_before {s : ParseState} (heof : s.eof.kind = .eof) (h : s.peek.kind ≠ .eof) :
    s = s.advance.before [s.peek] := by
  obtain ⟨rest, eof, errors, depth⟩ := s
  cases rest with
  | nil => exact absurd heof h
  | cons t rest => rfl

end ParseState

namespace Parse

open Grammar Steps

variable {s s' : ParseState} {kind : TokenKind}

theorem check_next {t : Token} (h : t.kind = kind) : check kind (s.before [t]) = .ok true (s.before [t]) := by
  rw [check, ParseState.peek_before_cons, h, beq_self_eq_true]

theorem check_none (h : s.peek.kind ≠ kind) : check kind s = .ok false s := by
  rw [check, beq_eq_false_iff_ne.2 h]

theorem accept_before {t : Token} (h : t.kind = kind) : accept kind (s.before [t]) = .ok true s := by
  unfold accept
  rw [bind_ok (check_next h)]
  rfl

theorem accept_none (h : s.peek.kind ≠ kind) : accept kind s = .ok false s := by
  unfold accept
  rw [bind_ok (check_none h)]
  rfl

theorem of_accept {b : Bool} (h : accept kind s = .ok b s') (heof : s.eof.kind = .eof) (hkind : kind ≠ .eof) :
    (b = true ∧ ∃ t, t.kind = kind ∧ s = s'.before [t]) ∨ (b = false ∧ s' = s ∧ s.peek.kind ≠ kind) := by
  by_cases hpeek : s.peek.kind = kind
  · have hs := ParseState.exists_before heof (by rwa [hpeek])
    rw [hs, accept_before hpeek] at h
    cases h
    exact .inl ⟨rfl, s.peek, hpeek, hs⟩
  · rw [accept_none hpeek] at h
    cases h
    exact .inr ⟨rfl, rfl, hpeek⟩

theorem expect_before {t : Token} (h : t.kind = kind) (what : String) :
    expect kind what (s.before [t]) = .ok t s := by
  unfold expect
  rw [bind_ok (check_next h)]
  rfl

theorem of_expect {t : Token} {what : String} (h : expect kind what s = .ok t s') (heof : s.eof.kind = .eof)
    (hkind : kind ≠ .eof) : t.kind = kind ∧ s = s'.before [t] := by
  unfold expect at h
  obtain ⟨b, u, hcheck, h⟩ := of_bind_ok h
  cases hcheck
  cases hpeek : s.peek.kind == kind with
  | false =>
    rw [hpeek] at h
    exact nomatch h
  | true =>
    rw [hpeek] at h
    cases h
    have hpeek := eq_of_beq hpeek
    exact ⟨hpeek, ParseState.exists_before heof (by rwa [hpeek])⟩

theorem identifier_before {t : Token} (h : t.kind = .identifier) (what : String) :
    identifier what (s.before [t]) = .ok t s :=
  expect_before h what

theorem of_identifier {t : Token} {what : String} (h : identifier what s = .ok t s') (heof : s.eof.kind = .eof) :
    t.kind = .identifier ∧ s = s'.before [t] :=
  of_expect h heof nofun

/-! ## Annotations -/

/-- What is read of an alternative behind its list mark, if it has one. -/
def alternativeBehind (list : Bool) : Parse TypeName := do
  let first ← identifier "type name"
  if ← accept .namespaceAccess then
    let second ← identifier "type name after `::`"
    return { name := second.text, package := some first.text, list }
  else
    return { name := first.text, list }

theorem alternativeBehind_before {ts : List Token} {t : TypeName} (h : Alternative ts t) (hplain : t.list = false)
    (hnext : s.peek.kind ≠ .namespaceAccess) (list : Bool) :
    alternativeBehind list (s.before ts) = .ok { t with list } s := by
  unfold alternativeBehind
  cases h with
  | named hname =>
    rw [bind_ok (identifier_before hname _), bind_ok (accept_none hnext)]
    rfl
  | packaged hpackage haccess hname =>
    rw [ParseState.before_cons, bind_ok (identifier_before hpackage _), ParseState.before_cons,
      bind_ok (accept_before haccess), if_pos rfl, bind_ok (identifier_before hname _)]
    rfl
  | list => exact nomatch hplain

theorem alternative_before {ts : List Token} {t : TypeName} (h : Alternative ts t)
    (hnext : s.peek.kind ≠ .namespaceAccess) : alternative (s.before ts) = .ok t s := by
  show (accept .listMark >>= alternativeBehind) (s.before ts) = _
  cases h with
  | named hname =>
    rw [bind_ok (accept_none (by simp [hname]))]
    exact alternativeBehind_before (.named hname) rfl hnext false
  | packaged hpackage haccess hname =>
    rw [bind_ok (accept_none (by simp [hpackage]))]
    exact alternativeBehind_before (.packaged hpackage haccess hname) rfl hnext false
  | list hmark h hplain =>
    rw [ParseState.before_cons, bind_ok (accept_before hmark)]
    exact alternativeBehind_before h hplain hnext true

theorem of_alternativeBehind {t : TypeName} {list : Bool} (h : alternativeBehind list s = .ok t s')
    (heof : s.eof.kind = .eof) : ∃ ts, s = s'.before ts ∧ Alternative ts { t with list := false } ∧ t.list = list := by
  obtain ⟨first, u, hfirst, h₁⟩ := of_bind_ok h
  obtain ⟨hkind, hs⟩ := of_identifier hfirst heof
  obtain ⟨b, v, haccept, h₂⟩ := of_bind_ok h₁
  have hu := (orderly_closed.identifier _).eof_kind hfirst heof
  rcases of_accept haccept hu nofun with ⟨rfl, access, haccess, hu'⟩ | ⟨rfl, rfl, -⟩
  · obtain ⟨second, w, hsecond, h₃⟩ := of_bind_ok h₂
    obtain ⟨hkind', hv⟩ := of_identifier hsecond ((orderly_closed.accept _).eof_kind haccept hu)
    cases h₃
    exact ⟨[first, access, second], by rw [hs, hu', hv]; rfl, .packaged hkind haccess hkind', rfl⟩
  · cases h₂
    exact ⟨[first], hs, .named hkind, rfl⟩

theorem of_alternative {t : TypeName} (h : alternative s = .ok t s') (heof : s.eof.kind = .eof) :
    ∃ ts, s = s'.before ts ∧ Alternative ts t := by
  obtain ⟨b, u, haccept, h₁⟩ := of_bind_ok h
  rcases of_accept haccept heof nofun with ⟨rfl, mark, hmark, hs⟩ | ⟨rfl, rfl, -⟩
  · obtain ⟨ts, hu, hts, hlist⟩ := of_alternativeBehind h₁ ((orderly_closed.accept _).eof_kind haccept heof)
    have ht : { { t with list := false } with list := true } = t := by rw [← hlist]
    exact ⟨mark :: ts, by rw [hs, hu]; rfl, ht ▸ .list hmark hts rfl⟩
  · obtain ⟨ts, hu, hts, hlist⟩ := of_alternativeBehind h₁ heof
    have ht : { t with list := false } = t := by rw [← hlist]
    exact ⟨ts, hu, ht ▸ hts⟩

/-- A round of reading the alternatives behind the first one. -/
def annotationRound (taken : List TypeName) : Parse (Round (List TypeName) (List TypeName)) := do
  if ← accept .or then
    skipNewlines
    return .again (taken ++ [← alternative])
  else
    return .done taken

theorem skipNewlines_before {breaks : List Token} (h : ∀ b ∈ breaks, b.kind = .newline) {first : Token}
    {rest : List Token} (hrest : s.rest = first :: rest) (hfirst : first.kind ≠ .newline) :
    skipNewlines (s.before breaks) = .ok () s := by
  unfold skipNewlines
  rw [ParseState.dropWhile_before (fun b hb => beq_iff_eq.2 (h b hb)) hrest (by simpa using hfirst)]
  rfl

theorem of_skipNewlines (h : skipNewlines s = .ok () s') :
    ∃ breaks : List Token, (∀ b ∈ breaks, b.kind = .newline) ∧ s = s'.before breaks := by
  cases h
  refine ⟨s.rest.takeWhile (·.kind == .newline), fun b hb => ?_, s.before_takeWhile _⟩
  exact eq_of_beq (List.all_eq_true.1 List.all_takeWhile b hb)

theorem peek_before_alternatives {more : List Token} {all : List TypeName} (h : Alternatives more all)
    (hnext : s.peek.kind ≠ .namespaceAccess) : (s.before more).peek.kind ≠ .namespaceAccess := by
  cases h with
  | nil => exact hnext
  | cons hbar => simp [hbar]

theorem rounds_annotation_before {more : List Token} {all : List TypeName} (h : Alternatives more all)
    (hor : s.peek.kind ≠ .or) (hnext : s.peek.kind ≠ .namespaceAccess) (taken : List TypeName) :
    rounds annotationRound taken (s.before more) = .ok (taken ++ all) s := by
  induction h generalizing taken with
  | nil =>
    rw [List.append_nil]
    refine rounds_done ?_
    show (accept .or >>= _) s = _
    rw [bind_ok (accept_none hor)]
    rfl
  | @cons bar breaks ts more t all hbar hbreaks halt hmore ih =>
    obtain ⟨first, rest, rfl, hfirst⟩ := halt.exists_cons
    have hround : annotationRound taken (s.before (bar :: (breaks ++ (first :: rest ++ more)))) =
        .ok (.again (taken ++ [t])) (s.before more) := by
      have hskip : skipNewlines (((s.before more).before (first :: rest)).before breaks) =
          .ok () ((s.before more).before (first :: rest)) :=
        skipNewlines_before hbreaks rfl (by rcases hfirst with e | e <;> simp [e])
      show (accept .or >>= _) _ = _
      rw [ParseState.before_cons, bind_ok (accept_before hbar), if_pos rfl, ParseState.before_append,
        ParseState.before_append, bind_ok hskip, bind_ok (alternative_before halt (peek_before_alternatives hmore hnext))]
      rfl
    rw [rounds_again hround (by simp; omega), ih, List.append_assoc]
    rfl

theorem annotation_before {ts : List Token} {u : Union} (h : Annotation ts u) (hor : s.peek.kind ≠ .or)
    (hnext : s.peek.kind ≠ .namespaceAccess) : annotation (s.before ts) = .ok u s := by
  cases h with
  | intro h hmore =>
    rw [ParseState.before_append]
    show (alternative >>= fun first => rounds annotationRound [first] >>= _) _ = _
    rw [bind_ok (alternative_before h (peek_before_alternatives hmore hnext)),
      bind_ok (rounds_annotation_before hmore hor hnext _)]
    rfl

theorem of_rounds_annotation {taken all : List TypeName} (h : rounds annotationRound taken s = .ok all s') :
    s.eof.kind = .eof → ∃ more new, s = s'.before more ∧ Alternatives more new ∧ all = taken ++ new := by
  refine of_rounds (motive := fun taken s => s.eof.kind = .eof →
    ∃ more new, s = s'.before more ∧ Alternatives more new ∧ all = taken ++ new) ?_ ?_ h
  · intro taken s hround heof
    obtain ⟨b, u, haccept, h₁⟩ := of_bind_ok hround
    rcases of_accept haccept heof nofun with ⟨rfl, -⟩ | ⟨rfl, rfl, -⟩
    · obtain ⟨_, _, -, h₂⟩ := of_bind_ok h₁
      obtain ⟨_, _, -, h₃⟩ := of_bind_ok h₂
      exact nomatch h₃
    · cases h₁
      exact ⟨[], [], rfl, .nil, by rw [List.append_nil]⟩
  · intro taken s next u hround ih heof
    obtain ⟨b, v, haccept, h₁⟩ := of_bind_ok hround
    have hv := (orderly_closed.accept _).eof_kind haccept heof
    rcases of_accept haccept heof nofun with ⟨rfl, bar, hbar, hs⟩ | ⟨rfl, rfl, -⟩
    · obtain ⟨_, w, hskip, h₂⟩ := of_bind_ok h₁
      obtain ⟨t, x, halternative, h₃⟩ := of_bind_ok h₂
      cases h₃
      have hw := orderly_closed.skipNewlines.eof_kind hskip hv
      obtain ⟨breaks, hbreaks, hv'⟩ := of_skipNewlines hskip
      obtain ⟨ts, hw', hts⟩ := of_alternative halternative hw
      obtain ⟨more, new, hu, hmore, rfl⟩ := ih (orderly_closed.alternative.eof_kind halternative hw)
      refine ⟨bar :: (breaks ++ (ts ++ more)), t :: new, ?_, .cons hbar hbreaks hts hmore, ?_⟩
      · rw [ParseState.before_cons, ParseState.before_append, ParseState.before_append, ← hu, ← hw', ← hv', ← hs]
      · rw [List.append_assoc]
        rfl
    · exact nomatch h₁

theorem of_annotation {u : Union} (h : annotation s = .ok u s') (heof : s.eof.kind = .eof) :
    ∃ ts, s = s'.before ts ∧ Annotation ts u := by
  obtain ⟨first, v, hfirst, h₁⟩ := of_bind_ok h
  obtain ⟨all, w, hall, h₂⟩ := of_bind_ok h₁
  cases h₂
  obtain ⟨ts, hs, hts⟩ := of_alternative hfirst heof
  obtain ⟨more, new, hv, hmore, rfl⟩ :=
    of_rounds_annotation hall (orderly_closed.alternative.eof_kind hfirst heof)
  exact ⟨ts ++ more, by rw [ParseState.before_append, ← hv, hs], .intro hts hmore⟩

/-! ## Bodies -/

theorem secondKind_before (t : Token) (ts : List Token) :
    secondKind (s.before (t :: ts)) = .ok (s.before ts).peek.kind (s.before (t :: ts)) := rfl

theorem advance_before (t : Token) : advance (s.before [t]) = .ok t s := rfl

theorem check_before (t : Token) (ts : List Token) :
    check kind (s.before (t :: ts)) = .ok (t.kind == kind) (s.before (t :: ts)) := rfl

theorem peek_of_head? {t : Token} (h : s.rest.head? = some t) : s.peek = t := by
  rw [ParseState.peek, h]
  rfl

theorem endsEntry_cases {t : Token} (h : endsEntry t = true) :
    t.kind = .newline ∨ t.kind = .comma ∨ t.kind = .rightBrace := by
  simpa [endsEntry, isEntrySeparator, or_assoc] using h

/-- What follows the name of a type that is an entry, or all of a union, is no sign that the name is another thing. -/
theorem peek_before_union {rest : List Token} (h : ∀ t ∈ rest.head?, t.kind = .namespaceAccess ∨ t.kind = .or)
    (hkind : kind ≠ .namespaceAccess) (hkind' : kind ≠ .or) (hs : s.peek.kind ≠ kind) :
    (s.before rest).peek.kind ≠ kind := by
  cases rest with
  | nil => exact hs
  | cons t rest =>
    rw [ParseState.peek_before_cons]
    rcases h t rfl with e | e
    · rw [e]
      exact hkind.symm
    · rw [e]
      exact hkind'.symm

theorem entry_before {ts : List Token} {listed between : Listed} (h : Entry ts listed between)
    (hend : s.rest.head?.any endsEntry) : entry listed.1 listed.2 (s.before ts) = .ok between s := by
  obtain ⟨t, ht, hends⟩ := (Option.any_eq_true _ _).1 hend
  have hpeek : s.peek.kind = .newline ∨ s.peek.kind = .comma ∨ s.peek.kind = .rightBrace := by
    rw [peek_of_head? ht]
    exact endsEntry_cases hends
  have hor : s.peek.kind ≠ .or := by rcases hpeek with e | e | e <;> simp [e]
  have hnext : s.peek.kind ≠ .namespaceAccess := by rcases hpeek with e | e | e <;> simp [e]
  have hcolon : s.peek.kind ≠ .colon := by rcases hpeek with e | e | e <;> simp [e]
  unfold entry
  cases h with
  | member h =>
    have hannotation := annotation_before h hor hnext
    obtain ⟨first, rest, rfl, hfirst⟩ := h.exists_cons
    rw [bind_ok (check_before _ _), bind_ok (secondKind_before _ _)]
    have hnamed : (first.kind == .identifier && (s.before rest).peek.kind == .colon) = false := by
      rcases hfirst with e | ⟨-, hsecond⟩
      · simp [e]
      · have hnot : (s.before rest).peek.kind ≠ .colon := peek_before_union hsecond nofun nofun hcolon
        simp [hnot]
    dsimp only
    rw [hnamed]
    exact bind_ok hannotation
  | @named name colon _ u _ _ hname hcolon' h =>
    have hnamed : (name.kind == .identifier && colon.kind == .colon) = true := by rw [hname, hcolon']; rfl
    rw [bind_ok (check_before _ _), bind_ok (secondKind_before _ _)]
    dsimp only
    rw [ParseState.peek_before_cons, hnamed, if_pos rfl, ParseState.before_cons, bind_ok (advance_before _),
      ParseState.before_cons, bind_ok (advance_before _), bind_ok (annotation_before h hor hnext)]
    rfl

theorem of_entry {types : Union} {attributes : List TypedName} {listed : Listed}
    (h : entry types attributes s = .ok listed s') (heof : s.eof.kind = .eof) :
    ∃ ts, s = s'.before ts ∧ Entry ts (types, attributes) listed := by
  obtain ⟨b, u, hcheck, h₁⟩ := of_bind_ok h
  cases hcheck
  obtain ⟨second, v, hsecond, h₂⟩ := of_bind_ok h₁
  cases hsecond
  dsimp only at h₂
  split at h₂
  · rename_i hnamed
    obtain ⟨hname, hcolon⟩ := Bool.and_eq_true_iff.1 hnamed
    have hname := eq_of_beq hname
    have hcolon : s.advance.peek.kind = .colon := eq_of_beq hcolon
    have hs := ParseState.exists_before heof (by rw [hname]; nofun)
    have hs' := ParseState.exists_before (s := s.advance) heof (by rw [hcolon]; nofun)
    obtain ⟨name, w, hfirst, h₃⟩ := of_bind_ok h₂
    cases hfirst
    obtain ⟨colon, x, hsecond, h₄⟩ := of_bind_ok h₃
    cases hsecond
    obtain ⟨u, y, hannotation, h₅⟩ := of_bind_ok h₄
    cases h₅
    obtain ⟨ts, hx, hts⟩ := of_annotation hannotation heof
    refine ⟨s.peek :: s.advance.peek :: ts, ?_, .named hname hcolon hts⟩
    rw [ParseState.before_cons, ParseState.before_cons _ s.advance.peek, ← hx, ← hs', ← hs]
  · obtain ⟨u, y, hannotation, h₃⟩ := of_bind_ok h₂
    cases h₃
    obtain ⟨ts, hs, hts⟩ := of_annotation hannotation heof
    exact ⟨ts, hs, .member hts⟩

/-- A round of reading the entries of a body. -/
def entriesRound : Listed → Parse (Round Listed Listed)
  | (types, attributes) => do
    skipEntrySeparators
    if ← accept .rightBrace then
      return .done (types, attributes)
    else
      let listed ← entry types attributes
      let next ← peek
      if isEntrySeparator next || next.kind == .rightBrace then return .again listed
      else expected "`,` or `\x7d` in type body"

theorem entries_eq :
    entries = (expect .leftBrace "`\x7b` to start type body" >>= fun _ => rounds entriesRound (Union.empty, [])) := rfl

theorem skipEntrySeparators_before {separators : List Token} (h : ∀ t ∈ separators, isEntrySeparator t) {first : Token}
    {rest : List Token} (hrest : s.rest = first :: rest) (hfirst : ¬isEntrySeparator first) :
    skipEntrySeparators (s.before separators) = .ok () s := by
  unfold skipEntrySeparators
  rw [ParseState.dropWhile_before h hrest hfirst]
  rfl

theorem of_skipEntrySeparators (h : skipEntrySeparators s = .ok () s') :
    ∃ separators : List Token, (∀ t ∈ separators, isEntrySeparator t) ∧ s = s'.before separators := by
  cases h
  exact ⟨s.rest.takeWhile isEntrySeparator, List.all_eq_true.1 List.all_takeWhile, s.before_takeWhile _⟩

theorem rounds_entries_before {ts : List Token} {listed result : Listed} (h : Entries ts listed result) :
    rounds entriesRound listed (s.before ts) = .ok result s := by
  induction h with
  | @close separators brace listed hseparators hbrace =>
    have hskip : skipEntrySeparators ((s.before [brace]).before separators) = .ok () (s.before [brace]) :=
      skipEntrySeparators_before hseparators rfl (by simp [isEntrySeparator, hbrace])
    rw [ParseState.before_append]
    refine rounds_done ?_
    show (skipEntrySeparators >>= _) _ = _
    rw [bind_ok hskip, bind_ok (accept_before hbrace)]
    rfl
  | @cons separators ts more listed between result hseparators hentry hend hmore ih =>
    obtain ⟨first, rest, rfl, hfirst⟩ := hentry.exists_cons
    obtain ⟨next, hnext, hends⟩ := (Option.any_eq_true _ _).1 hend
    have hmore' : (s.before more).rest.head? = some next := by
      rw [ParseState.rest_before, List.head?_append, hnext]
      rfl
    have hskip : skipEntrySeparators (((s.before more).before (first :: rest)).before separators) =
        .ok () ((s.before more).before (first :: rest)) :=
      skipEntrySeparators_before hseparators rfl (by rcases hfirst with e | e <;> simp [isEntrySeparator, e])
    have hround : entriesRound listed (((s.before more).before (first :: rest)).before separators) =
        .ok (.again between) (s.before more) := by
      show (skipEntrySeparators >>= _) _ = _
      rw [bind_ok hskip, bind_ok (accept_none (by rcases hfirst with e | e <;> simp [e]))]
      show (entry listed.1 listed.2 >>= _) _ = _
      rw [bind_ok (entry_before hentry (by rw [hmore']; exact hends))]
      show (if endsEntry (s.before more).peek = true then _ else _ : Parse _) _ = _
      rw [peek_of_head? hmore', if_pos hends]
      rfl
    rw [ParseState.before_append, ParseState.before_append, rounds_again hround (by simp; omega), ih]

theorem of_rounds_entries {listed result : Listed} (h : rounds entriesRound listed s = .ok result s') :
    s.eof.kind = .eof → ∃ ts, s = s'.before ts ∧ Entries ts listed result := by
  refine of_rounds (motive := fun listed s => s.eof.kind = .eof → ∃ ts, s = s'.before ts ∧ Entries ts listed result)
    ?_ ?_ h
  · rintro ⟨types, attributes⟩ s hround heof
    obtain ⟨_, u, hskip, h₁⟩ := of_bind_ok hround
    obtain ⟨separators, hseparators, hs⟩ := of_skipEntrySeparators hskip
    obtain ⟨b, v, haccept, h₂⟩ := of_bind_ok h₁
    rcases of_accept haccept (orderly_closed.skipEntrySeparators.eof_kind hskip heof) nofun with
      ⟨rfl, brace, hbrace, hu⟩ | ⟨rfl, rfl, -⟩
    · cases h₂
      exact ⟨separators ++ [brace], by rw [ParseState.before_append, ← hu, ← hs], .close hseparators hbrace⟩
    · obtain ⟨_, _, -, h₃⟩ := of_bind_ok h₂
      obtain ⟨_, _, -, h₄⟩ := of_bind_ok h₃
      split at h₄ <;> exact nomatch h₄
  · rintro ⟨types, attributes⟩ s next w hround ih heof
    obtain ⟨_, u, hskip, h₁⟩ := of_bind_ok hround
    obtain ⟨separators, hseparators, hs⟩ := of_skipEntrySeparators hskip
    have hu := orderly_closed.skipEntrySeparators.eof_kind hskip heof
    obtain ⟨b, v, haccept, h₂⟩ := of_bind_ok h₁
    rcases of_accept haccept hu nofun with ⟨rfl, -⟩ | ⟨rfl, rfl, -⟩
    · exact nomatch h₂
    · obtain ⟨between, x, hentry, h₃⟩ := of_bind_ok h₂
      obtain ⟨t, y, hpeek, h₄⟩ := of_bind_ok h₃
      cases hpeek
      obtain ⟨ts, hv, hts⟩ := of_entry hentry hu
      split at h₄
      · rename_i hends
        cases h₄
        obtain ⟨more, hx, hmore⟩ := ih ((orderly_closed.entry _ _).eof_kind hentry hu)
        refine ⟨separators ++ (ts ++ more), ?_, .cons hseparators hts ?_ hmore⟩
        · rw [ParseState.before_append, ParseState.before_append, ← hx, ← hv, ← hs]
        · obtain ⟨first, rest, rfl⟩ := List.exists_cons_of_ne_nil hmore.ne_nil
          rw [hx, ParseState.peek_before_cons] at hends
          exact hends
      · exact nomatch h₄

/-! ## Declarations -/

theorem kindAhead?_eq (s : ParseState) :
    kindAhead? s = .ok (if s.peek.kind = .identifier ∧ s.advance.peek.kind = .leftBrace
      then TypeKind.ofWord? s.peek.text else none) s := rfl

/-- A union does not start like a body. -/
theorem kindAhead?_before_union {ts : List Token} {u : Union} (h : Annotation ts u)
    (hbrace : s.peek.kind ≠ .leftBrace) : kindAhead? (s.before ts) = .ok none (s.before ts) := by
  obtain ⟨first, rest, rfl, hfirst⟩ := h.exists_cons
  rw [kindAhead?_eq, if_neg]
  rintro ⟨hkind, hsecond⟩
  rcases hfirst with e | ⟨-, hrest⟩
  · rw [ParseState.peek_before_cons, e] at hkind
    exact nomatch hkind
  · have hnot : (s.before rest).peek.kind ≠ .leftBrace := peek_before_union hrest nofun nofun hbrace
    exact hnot hsecond

theorem typeDeclaration_before {ts : List Token} {d : TypeDeclaration} (h : Declaration ts d) (hor : s.peek.kind ≠ .or)
    (hnext : s.peek.kind ≠ .namespaceAccess) (hbrace : s.peek.kind ≠ .leftBrace) :
    typeDeclaration [] (s.before ts) = .ok d s := by
  unfold typeDeclaration
  cases h with
  | plain hword hname hcolon h =>
    rw [ParseState.before_cons, bind_ok (advance_before _), ParseState.before_cons, bind_ok (identifier_before hname _),
      ParseState.before_cons, bind_ok (accept_before hcolon), if_pos rfl,
      bind_ok (kindAhead?_before_union h hbrace)]
    dsimp only
    rw [bind_ok (annotation_before h hor hnext)]
    rfl
  | @composite word name colon announced brace kind ts types attributes hword hname hcolon hannounced hkind hopen h =>
    have hahead : kindAhead? (((s.before ts).before [brace]).before [announced]) =
        .ok (some kind) (((s.before ts).before [brace]).before [announced]) := by
      rw [kindAhead?_eq, if_pos ⟨hannounced, hopen⟩]
      exact congrArg (EStateM.Result.ok · _) hkind
    have hentries : entries ((s.before ts).before [brace]) = .ok (types, attributes) s := by
      rw [entries_eq, bind_ok (expect_before hopen _), rounds_entries_before h]
    rw [ParseState.before_cons, bind_ok (advance_before _), ParseState.before_cons, bind_ok (identifier_before hname _),
      ParseState.before_cons, bind_ok (accept_before hcolon), if_pos rfl, ParseState.before_cons,
      ParseState.before_cons _ brace, bind_ok hahead]
    dsimp only
    rw [bind_ok (advance_before _), bind_ok hentries]
    rfl

theorem of_typeDeclaration {d : TypeDeclaration} (h : typeDeclaration [] s = .ok d s') (heof : s.eof.kind = .eof)
    (hword : s.peek.kind = .keyword .type) : ∃ ts, s = s'.before ts ∧ Declaration ts d := by
  have hs := ParseState.exists_before heof (by rw [hword]; nofun)
  obtain ⟨word, u, hadvance, h₁⟩ := of_bind_ok h
  cases hadvance
  obtain ⟨name, v, hidentifier, h₂⟩ := of_bind_ok h₁
  obtain ⟨hname, hu⟩ := of_identifier hidentifier heof
  have hv := (orderly_closed.identifier _).eof_kind hidentifier heof
  obtain ⟨b, w, haccept, h₃⟩ := of_bind_ok h₂
  rcases of_accept haccept hv nofun with ⟨rfl, colon, hcolon, hv'⟩ | ⟨rfl, -, -⟩
  · have hw := (orderly_closed.accept _).eof_kind haccept hv
    obtain ⟨found, x, hahead, h₄⟩ := of_bind_ok h₃
    rw [kindAhead?_eq] at hahead
    cases hahead
    split at h₄
    · rename_i kind hkind
      obtain ⟨⟨hannounced, hopen⟩, hkind⟩ := Option.ite_none_right_eq_some.1 hkind
      have hw' := ParseState.exists_before hw (by rw [hannounced]; nofun)
      obtain ⟨announced, y, hadvance, h₅⟩ := of_bind_ok h₄
      cases hadvance
      obtain ⟨⟨types, attributes⟩, z, hentries, h₆⟩ := of_bind_ok h₅
      cases h₆
      rw [entries_eq] at hentries
      obtain ⟨brace, a, hexpect, hrounds⟩ := of_bind_ok hentries
      obtain ⟨hbrace, hy⟩ := of_expect hexpect hw nofun
      obtain ⟨ts, ha, hts⟩ := of_rounds_entries hrounds ((orderly_closed.expect _ _).eof_kind hexpect hw)
      refine ⟨s.peek :: name :: colon :: w.peek :: brace :: ts, ?_,
        .composite hword hname hcolon hannounced hkind hbrace hts⟩
      rw [ParseState.before_cons, ParseState.before_cons _ name, ParseState.before_cons _ colon,
        ParseState.before_cons _ w.peek, ParseState.before_cons _ brace, ← ha, ← hy, ← hw', ← hv', ← hu, ← hs]
    · obtain ⟨types, y, hannotation, h₅⟩ := of_bind_ok h₄
      cases h₅
      obtain ⟨ts, hx, hts⟩ := of_annotation hannotation hw
      refine ⟨s.peek :: name :: colon :: ts, ?_, .plain hword hname hcolon hts⟩
      rw [ParseState.before_cons, ParseState.before_cons _ name, ParseState.before_cons _ colon, ← hx, ← hv', ← hu, ← hs]
  · exact nomatch h₃

end Parse
end UnionScript
