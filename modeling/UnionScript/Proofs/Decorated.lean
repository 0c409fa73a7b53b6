import UnionScript.Proofs.Decorations
import UnionScript.Proofs.Reloading
/-!
# Decorated — declarations with decorators, read back from a type file

A declaration that was read is one whose names can be written down again, whose decorators fit it, and the plain
arguments of whose decorators stand alone (`TypeDeclaration.IsWritten`), whatever errors there were around it
(`isWritten_of_read`).  A type file of such declarations is read as declarations with the same decorators, those apart
that are not written, if every string that is written in a decorator may stand between double quotes (`read_decorated`).
-/
namespace UnionScript

open Lexeme Check

/-! ## Declarations and their decorators -/

namespace TypeDeclaration

/-- A declaration without its decorators. -/
def bare (d : TypeDeclaration) : TypeDeclaration := { d with decorators := [] }

/-- The decorators of a declaration that are written down. -/
def written (d : TypeDeclaration) : List Decorator := d.decorators.filter TypeEntry.isWritable

/-- A declaration that was read, with some room for what its decorators hold. -/
structure IsWritten (d : TypeDeclaration) (room : Nat) : Prop where
  bare : (entryOf d.bare).IsNamed
  decorators : ∀ x ∈ d.decorators, x.StandsAlone room
  fits : ∀ x ∈ d.decorators, d.decoratorFault? x.kind = none

variable {d d' : TypeDeclaration} {room : Nat}

theorem bare_of_undecorated (h : d.decorators = []) : d.bare = d := by
  cases d
  cases h
  rfl

theorem misfit?_eq_none_iff {span : Span} :
    d.misfit? span = none ↔ ∀ x ∈ d.decorators, d.decoratorFault? x.kind = none := by
  unfold misfit?
  rw [List.findSome?_eq_none_iff]
  exact forall₂_congr fun x _ => Option.map_eq_none_iff

/-- Whether a decorator fits is told by the kinds of both. -/
theorem decoratorFault?_of_kind (hkind : d'.kind = d.kind) {kind : DecoratorKind} (h : d.decoratorFault? kind = none) :
    d'.decoratorFault? kind = none := by
  unfold decoratorFault? at h ⊢
  rw [hkind]
  split at h
  · cases h
  split at h
  · cases h
  split at h
  · cases h
  · rename_i happlies hmatrix hfactor
    rw [if_neg happlies, if_neg hmatrix, if_neg hfactor]

/-- The arguments of a decorator that is written make a list of arguments. -/
theorem IsWritten.grouped (h : d.IsWritten room) : ∀ x ∈ d.written, GroupedArguments x.arguments room := by
  intro x hx
  obtain ⟨hmem, hplain⟩ := List.mem_filter.1 hx
  exact (h.decorators x hmem).grouped fun a ha => ⟨ha, plainArguments_iff.1 hplain a ha⟩

end TypeDeclaration

/-! ## Reading them -/

namespace Grammar

/-- Tokens of a declaration without decorators declare none. -/
theorem Declaration.decorators {ts : List Token} {d : TypeDeclaration} (h : Declaration ts d) : d.decorators = [] := by
  cases h <;> rfl

end Grammar

namespace Parse

open Grammar Steps

variable {room : Nat} {deeper : Deeper} {s s' : ParseState} {d : TypeDeclaration} {ds : List Decorator}

theorem fitting_ok {word : Token} (h : d.misfit? word.span = none) : fitting word d s = .ok d s := by
  rw [fitting, h]
  rfl

theorem of_fitting {word : Token} {d' : TypeDeclaration} (h : fitting word d s = .ok d' s') :
    d' = d ∧ s' = s ∧ d.misfit? word.span = none := by
  cases hfit : d.misfit? word.span with
  | some e =>
    rw [fitting, hfit] at h
    exact nomatch h
  | none =>
    rw [fitting_ok hfit] at h
    cases h
    exact ⟨rfl, rfl, rfl⟩

/-- **A declaration with decorators is read as one without them, to which they must fit.** -/
theorem typeDeclaration_eq (ds : List Decorator) (s : ParseState) :
    typeDeclaration ds s = (typeDeclaration [] >>= fun d => fitting s.peek { d with decorators := ds }) s := by
  unfold typeDeclaration
  rw [bind_assoc]
  show (identifier "type name" >>= _) s.advance = (identifier "type name" >>= _ >>= _) s.advance
  rw [bind_assoc]
  refine congrFun (bind_congr fun name => ?_) s.advance
  rw [bind_assoc]
  refine bind_congr fun colon => ?_
  cases colon with
  | false => rfl
  | true =>
    rw [if_pos rfl, if_pos rfl, bind_assoc]
    refine bind_congr fun found => ?_
    cases found with
    | none =>
      rw [bind_assoc]
      exact bind_congr fun types => rfl
    | some kind =>
      rw [bind_assoc]
      refine bind_congr fun word => ?_
      rw [bind_assoc]
      exact bind_congr fun listed => rfl

theorem of_typeDeclaration_decorated (h : typeDeclaration ds s = .ok d s') (heof : s.eof.kind = .eof)
    (hword : s.peek.kind = .keyword .type) :
    ∃ ts, s = s'.before ts ∧ Declaration ts d.bare ∧ d.decorators = ds ∧ d.misfit? s.peek.span = none := by
  rw [typeDeclaration_eq] at h
  obtain ⟨plain, t, hplain, h₁⟩ := of_bind_ok h
  obtain ⟨rfl, rfl, hfit⟩ := of_fitting h₁
  obtain ⟨ts, hs, hts⟩ := of_typeDeclaration hplain heof hword
  have hbare : TypeDeclaration.bare { plain with decorators := ds } = plain :=
    TypeDeclaration.bare_of_undecorated hts.decorators
  exact ⟨ts, hs, hbare ▸ hts, rfl, hfit⟩

/-- A declaration that is read takes tokens that it can be written down from, behind decorators that can be. -/
theorem isWritten_of_typeDeclaration (room : Nat) (h : typeDeclaration ds s = .ok d s') (heof : s.eof.kind = .eof)
    (hword : s.peek.kind = .keyword .type) :
    ∃ ts, s = s'.before ts ∧ ((∀ t ∈ ts, t.IsCopied) → (∀ x ∈ ds, x.StandsAlone room) → d.IsWritten room) := by
  obtain ⟨ts, hs, hts, rfl, hfit⟩ := of_typeDeclaration_decorated h heof hword
  refine ⟨ts, hs, fun hcopied hds => ⟨?_, hds, TypeDeclaration.misfit?_eq_none_iff.1 hfit⟩⟩
  exact hts.isNamed fun t ht => (hcopied t ht).name

/-- Behind decorators that can be written down a declaration can be. -/
theorem spends_declarationBehind_written (hd : Groups room deeper) {before : List Token} (last : Decorator)
    (hds : (∀ t ∈ before, t.IsCopied) → ∀ x ∈ ds, x.StandsAlone room) :
    Spends s before (declarationBehind deeper ds last) fun used st =>
      ∀ d, st = .typeDeclaration d → (∀ t ∈ used, t.IsCopied) → d.IsWritten room := by
  refine spends_look ?_
  split
  · rename_i hword
    refine spends_bind (fun all d _ => (∀ t ∈ all, t.IsCopied) → d.IsWritten room) ?_ ?_
    · intro heof d t hread
      obtain ⟨ts, hs, hwritten⟩ := isWritten_of_typeDeclaration room hread heof hword
      have heof' := (orderly_closed.typeDeclaration ds).eof_kind hread heof
      refine ⟨heof', ts, congrArg ParseState.rest hs, fun hcopied => ?_⟩
      obtain ⟨hbefore, hbehind⟩ := List.forall_mem_append.1 hcopied
      exact hwritten hbehind (hds hbefore)
    · rintro t all d - hwritten
      refine spends_pure ?_
      rintro _ ⟨⟩
      exact hwritten
  · split
    · exact spends_throw _
    · refine spends_skip orderly_closed.advance fun t gap func => ?_
      refine spends_skip (orderly_closed.functionBehind hd.orderly _ _) fun t gap' e => spends_pure ?_
      exact fun _ h => nomatch h
  · exact spends_throw _

/-- **A decorated declaration that is read can be written down**, if its tokens can be. -/
theorem spends_decorated_written (hd : Groups room deeper) (s : ParseState) :
    Spends s [] (decorated deeper) fun used st =>
      ∀ d, st = .typeDeclaration d → (∀ t ∈ used, t.IsCopied) → d.IsWritten room := by
  let known (used : List Token) (listed : List Decorator × Decorator) : Prop :=
    (∀ t ∈ used, t.IsCopied) → ∀ x ∈ listed.1, x.StandsAlone room
  refine spends_part _ (spends_decorator_plain hd) fun s used first hfirst => ?_
  refine spends_bind (fun all listed _ => known all listed) ?_ fun s all listed _ h =>
    spends_declarationBehind_written hd listed.2 h
  have hone : known ([] ++ used) ([first], first) := fun hcopied => List.forall_mem_singleton.2 (hfirst hcopied)
  refine spends_rounds known (fun s all listed hlisted => ?_) hone
  refine spends_look (spends_ite (fun _ => ?_) (spends_pure hlisted))
  refine spends_part _ (spends_decorator_plain hd) fun s more d hmore => spends_pure fun hcopied => ?_
  obtain ⟨hall, hmore'⟩ := List.forall_mem_append.1 hcopied
  exact List.forall_mem_append.2 ⟨hlisted hall, List.forall_mem_singleton.2 (hmore hmore')⟩

/-- A declaration that is read can be written down. -/
theorem isWritten_of_statement (h : statement (deeperAt room) s = .ok (.typeDeclaration d) s')
    (heof : s.eof.kind = .eof) (hcopied : ∀ t ∈ s.rest, t.IsCopied) : d.IsWritten room := by
  rw [statement_eq] at h
  by_cases hword : s.peek.kind = .keyword .type
  · rw [hword] at h
    obtain ⟨hread, -⟩ := of_ended h
    obtain ⟨d, t, hread, h₁⟩ := of_bind_ok hread
    cases h₁
    obtain ⟨ts, rfl, hwritten⟩ := isWritten_of_typeDeclaration room hread heof hword
    exact hwritten (fun t ht => hcopied t (List.mem_append_left _ ht)) fun x hx => absurd hx List.not_mem_nil
  by_cases hat : s.peek.kind = .atSign
  · rw [hat] at h
    obtain ⟨hread, -⟩ := of_ended h
    obtain ⟨-, used, hused, hwritten⟩ := spends_decorated_written (groups_deeperAt room) s heof _ s' hread
    exact hwritten d rfl fun t ht => hcopied t (hused ▸ List.mem_append_left _ ht)
  by_cases hcomment : s.peek.kind = .comment
  · rw [hcomment] at h
    cases h
  by_cases hroxygen : s.peek.kind = .roxygenComment
  · rw [hroxygen] at h
    cases h
  · exact (answers_statementOf_other hword hat hcomment hroxygen s _ s' h).elim

end Parse

/-- **Declarations that are read can be written down.** -/
theorem Session.isWritten_of_read (options : Options) (sources : List SourceFile) :
    ∀ d ∈ (Session.read options sources).program.typeDeclarations, d.IsWritten options.maxDepth := by
  obtain ⟨statements, s, -, hread⟩ := exists_statements sources options.maxDepth
  have hread : Parse.statementsFrom options.maxDepth false [] (.ofSources sources) = .ok statements s := hread []
  obtain ⟨hprogram, -⟩ := read_of_statementsFrom hread
  rw [hprogram]
  intro d hd
  have hall := Parse.forall_of_statementsFrom Token.IsCopied
    (fun st => ∀ d, st = .typeDeclaration d → d.IsWritten options.maxDepth)
    (fun h heof hcopied _ hst => Parse.isWritten_of_statement (hst ▸ h) heof hcopied) hread
    (eof_ofSources sources) (isCopied_ofSources sources) fun _ h => absurd h List.not_mem_nil
  exact hall _ (Program.mem_typeDeclarations.1 hd) d rfl

/-! ## Reading them back -/

/-- A type without its decorators and what they say. -/
def TypeEntry.bare (t : TypeEntry) : TypeEntry := { t with decorators := [], classes := [] }

/-- A type that is read where another one was written down: what is restored of it, with the decorators that are
written. -/
structure TypeEntry.RereadAs (t t' : TypeEntry) : Prop where
  bare : t'.bare.unplaced = t.bare.restored.unplaced
  decorators : List.Forall₂ Decorator.Same (t.decorators.filter TypeEntry.isWritable) t'.decorators

/-- A declaration of such a type. -/
abbrev TypeDeclaration.RereadAs (d d' : TypeDeclaration) : Prop := (entryOf d).RereadAs (entryOf d')

theorem kinds_of_same {xs ds : List Decorator} (h : List.Forall₂ Decorator.Same xs ds) :
    ds.map Decorator.kind = xs.map Decorator.kind := by
  induction h with
  | nil => rfl
  | cons hx _ ih => rw [List.map_cons, List.map_cons, hx.kind, ih]

/-- The words of some decorators, each on a line of its own. -/
def decoratorWords (written : List Decorator) : List Word := written.flatMap fun x => x.words ++ [(.newline, "\n")]

/-- The words of a declaration behind its decorators, without the line end behind it. -/
def TypeDeclaration.words (d : TypeDeclaration) : List Word :=
  decoratorWords d.written ++ (entryOf d.bare).declarationWords

namespace Parse

open Grammar Steps

variable {room : Nat} {s : ParseState}

/-- A round of reading decorators. -/
def decoratorsRound (deeper : Deeper) : List Decorator × Decorator →
    Parse (Round (List Decorator × Decorator) (List Decorator × Decorator))
  | (ds, last) => do
    if ← check .atSign then
      let d ← decorator deeper
      return .again (ds ++ [d], d)
    else
      return .done (ds, last)

/-- Decorators start with their sign. -/
theorem exists_cons_of_decoratorWords {x : Decorator} {xs : List Decorator} {ts : List Token}
    (hts : ts.map Token.word = decoratorWords (x :: xs)) : ∃ t rest, ts = t :: rest ∧ t.kind = .atSign := by
  obtain ⟨t, rest, rfl, ht, -⟩ := List.map_eq_cons_iff.1 hts
  exact ⟨t, rest, rfl, (of_word ht).1⟩

theorem head_before_decorators {xs : List Decorator} {ts : List Token} (hts : ts.map Token.word = decoratorWords xs)
    (hs : ∀ t ∈ s.rest.head?, t.kind ≠ .newline) : ∀ t ∈ (s.before ts).rest.head?, t.kind ≠ .newline := by
  cases xs with
  | nil =>
    rw [List.map_eq_nil_iff.1 hts]
    exact hs
  | cons x xs =>
    obtain ⟨t, rest, rfl, ht⟩ := exists_cons_of_decoratorWords hts
    rintro _ ⟨⟩
    rw [ht]
    nofun

/-- The first one of some decorators is read back, in front of the others. -/
theorem decorator_before_others {x : Decorator} {xs : List Decorator} (h : GroupedArguments x.arguments room)
    {ts : List Token} (hts : ts.map Token.word = decoratorWords (x :: xs))
    (hs : ∀ t ∈ s.rest.head?, t.kind ≠ .newline) :
    ∃ us d', x.Same d' ∧ us.map Token.word = decoratorWords xs ∧ us.length < ts.length ∧
      decorator (deeperAt room) (s.before ts) = .ok d' (s.before us) := by
  obtain ⟨own, us, rfl, hown, hus⟩ := List.map_eq_append_iff.1 hts
  obtain ⟨first, lines, rfl, hfirst, hlines⟩ := List.map_eq_append_iff.1 hown
  obtain ⟨line, rfl, hline⟩ := List.map_eq_singleton_iff.1 hlines
  have hbreaks : ∀ b ∈ [line], b.kind = .newline := List.forall_mem_singleton.2 (of_word hline).1
  obtain ⟨d', hsame, hread⟩ := decorator_before (s := s.before us) h hfirst hbreaks (head_before_decorators hus hs)
  refine ⟨us, d', hsame, hus, by simp; omega, ?_⟩
  rw [ParseState.before_append]
  exact hread

/-- **Decorators are read back one after the other**, in front of what is none. -/
theorem rounds_decorators_before (hs : s.peek.kind ≠ .atSign) (hline : ∀ t ∈ s.rest.head?, t.kind ≠ .newline) :
    ∀ {xs : List Decorator}, (∀ x ∈ xs, GroupedArguments x.arguments room) → ∀ {ts : List Token},
    ts.map Token.word = decoratorWords xs → ∀ taken last, ∃ ds last', List.Forall₂ Decorator.Same xs ds ∧
      rounds (decoratorsRound (deeperAt room)) (taken, last) (s.before ts) = .ok (taken ++ ds, last') s
  | [], _, ts, hts, taken, last => by
    rw [List.map_eq_nil_iff.1 hts]
    refine ⟨[], last, .nil, rounds_done ?_⟩
    show (check .atSign >>= _) s = _
    rw [bind_ok (check_none hs), List.append_nil]
    rfl
  | x :: xs, h, ts, hts, taken, last => by
    obtain ⟨hx, hxs⟩ := List.forall_mem_cons.1 h
    obtain ⟨us, d', hsame, hus, hless, hread⟩ := decorator_before_others hx hts hline
    obtain ⟨ds, last', hds, hrounds⟩ := rounds_decorators_before hs hline hxs hus (taken ++ [d']) d'
    refine ⟨d' :: ds, last', .cons hsame hds, ?_⟩
    obtain ⟨t, rest, rfl, ht⟩ := exists_cons_of_decoratorWords hts
    have hround : decoratorsRound (deeperAt room) (taken, last) (s.before (t :: rest)) =
        .ok (.again (taken ++ [d'], d')) (s.before us) := by
      show (check .atSign >>= _) _ = _
      rw [bind_ok (check_before _ _), ht]
      show (decorator (deeperAt room) >>= _) _ = _
      rw [bind_ok hread]
      rfl
    -- A round that takes no token would be the last one.
    have hless' : (s.before us).rest.length < (s.before (t :: rest)).rest.length := by
      rw [ParseState.rest_before, ParseState.rest_before, List.length_append, List.length_append]
      omega
    rw [rounds_again hround hless', hrounds, List.append_assoc]
    rfl

/-- What is read as a bare declaration is read as a decorated one behind decorators that fit it. -/
theorem declarationBehind_before {us : List Token} {d : TypeDeclaration} (hus : Declaration us d)
    (hend : endsDeclaration s.peek = true) {ds : List Decorator} (hfits : ∀ x ∈ ds, d.decoratorFault? x.kind = none)
    (deeper : Deeper) (last : Decorator) :
    declarationBehind deeper ds last (s.before us) = .ok (.typeDeclaration { d with decorators := ds }) s := by
  obtain ⟨hor, hnext, hbrace⟩ := endsDeclaration_ne hend
  obtain ⟨word, rest, rfl, hword⟩ := hus.exists_cons
  have hfit : TypeDeclaration.misfit? { d with decorators := ds } word.span = none :=
    TypeDeclaration.misfit?_eq_none_iff.2 hfits
  have hread : typeDeclaration ds (s.before (word :: rest)) = .ok { d with decorators := ds } s := by
    rw [typeDeclaration_eq, bind_ok (typeDeclaration_before hus hor hnext hbrace)]
    exact fitting_ok hfit
  unfold declarationBehind
  rw [bind_ok (show peekKind (s.before (word :: rest)) = .ok word.kind (s.before (word :: rest)) from rfl), hword]
  exact bind_ok hread

/-- **A declaration is read back behind its decorators**, if they fit it. -/
theorem decorated_before {x : Decorator} {xs : List Decorator} (h : ∀ y ∈ x :: xs, GroupedArguments y.arguments room)
    {ts us : List Token} (hts : ts.map Token.word = decoratorWords (x :: xs)) {d : TypeDeclaration}
    (hus : Declaration us d) (hend : endsDeclaration s.peek = true)
    (hfits : ∀ y ∈ x :: xs, d.decoratorFault? y.kind = none) :
    ∃ ds, List.Forall₂ Decorator.Same (x :: xs) ds ∧
      statement (deeperAt room) (s.before (ts ++ us)) = .ok (.typeDeclaration { d with decorators := ds }) s := by
  obtain ⟨hx, hxs⟩ := List.forall_mem_cons.1 h
  obtain ⟨word, rest, rfl, hword⟩ := hus.exists_cons
  let behind := s.before (word :: rest)
  have hsign : behind.peek.kind ≠ .atSign := by
    rw [ParseState.peek_before_cons, hword]
    nofun
  have hline : ∀ t ∈ behind.rest.head?, t.kind ≠ .newline := by
    rintro _ ⟨⟩
    rw [hword]
    nofun
  obtain ⟨more, first, hfirst, hmore, -, hread⟩ := decorator_before_others hx hts hline
  obtain ⟨ds, last, hds, hrounds⟩ := rounds_decorators_before hsign hline hxs hmore [first] first
  have hsame : List.Forall₂ Decorator.Same (x :: xs) (first :: ds) := .cons hfirst hds
  have hfits' : ∀ y ∈ first :: ds, d.decoratorFault? y.kind = none := by
    intro y hy
    have hmem : y.kind ∈ (x :: xs).map Decorator.kind := kinds_of_same hsame ▸ List.mem_map_of_mem hy
    obtain ⟨z, hz, hzy⟩ := List.mem_map.1 hmem
    rw [← hzy]
    exact hfits z hz
  refine ⟨first :: ds, hsame, ?_⟩
  obtain ⟨t, rest', rfl, ht⟩ := exists_cons_of_decoratorWords hts
  have hdecorated : decorated (deeperAt room) (behind.before (t :: rest')) =
      .ok (.typeDeclaration { d with decorators := first :: ds }) s := by
    show (decorator (deeperAt room) >>= _) _ = _
    rw [bind_ok hread]
    show (rounds (decoratorsRound (deeperAt room)) ([first], first) >>= _) _ = _
    rw [bind_ok hrounds]
    exact declarationBehind_before hus hend hfits' _ last
  rw [ParseState.before_append, statement_eq, ParseState.peek_before_cons, ht]
  exact ended_ok hdecorated hend

/-- A declaration starts with the sign of a decorator or with its word. -/
theorem exists_cons_of_words {d : TypeDeclaration} {ts : List Token} (hts : ts.map Token.word = d.words) :
    ∃ t rest, ts = t :: rest ∧ (t.kind = .atSign ∨ t.kind = .keyword .type) := by
  rw [TypeDeclaration.words] at hts
  cases hwritten : d.written with
  | nil =>
    rw [hwritten] at hts
    obtain ⟨t, rest, rfl, ht, -⟩ := List.map_eq_cons_iff.1 hts
    exact ⟨t, rest, rfl, .inr (of_word ht).1⟩
  | cons x xs =>
    rw [hwritten] at hts
    obtain ⟨t, rest, rfl, ht, -⟩ := List.map_eq_cons_iff.1 hts
    exact ⟨t, rest, rfl, .inl (of_word ht).1⟩

/-- **A declaration that was read is read back from its words.** -/
theorem statement_before_words {d : TypeDeclaration} (h : d.IsWritten room) {ts : List Token}
    (hts : ts.map Token.word = d.words) (hend : endsDeclaration s.peek = true) :
    ∃ d', d.RereadAs d' ∧ statement (deeperAt room) (s.before ts) = .ok (.typeDeclaration d') s := by
  obtain ⟨ts, us, rfl, hts, hus⟩ := List.map_eq_append_iff.1 hts
  obtain ⟨plain, hplain, hrestored⟩ := restored_of_declarationWords h.bare hus
  have hundecorated := hplain.decorators
  -- With whatever decorators, what is read of the declaration is the same.
  have hreread {ds : List Decorator} (hds : List.Forall₂ Decorator.Same d.written ds) :
      d.RereadAs { plain with decorators := ds } := by
    refine ⟨?_, hds⟩
    show (entryOf (TypeDeclaration.bare plain)).unplaced = _
    rw [TypeDeclaration.bare_of_undecorated hundecorated]
    exact hrestored
  have hgrouped := h.grouped
  have hfits : ∀ x ∈ d.written, plain.decoratorFault? x.kind = none := fun x hx =>
    TypeDeclaration.decoratorFault?_of_kind (congrArg TypeEntry.kind hrestored) (h.fits x (List.mem_filter.1 hx).1)
  cases hwritten : d.written with
  | nil =>
    rw [hwritten] at hts hreread
    rw [List.map_eq_nil_iff.1 hts]
    have hbare : { plain with decorators := [] } = plain := TypeDeclaration.bare_of_undecorated hundecorated
    exact ⟨plain, hbare ▸ hreread .nil, statement_before_declaration hplain hend⟩
  | cons x xs =>
    rw [hwritten] at hts hreread hgrouped hfits
    obtain ⟨ds, hds, hstatement⟩ := decorated_before hgrouped hts hplain hend hfits
    exact ⟨_, hreread hds, hstatement⟩

end Parse

/-! ## Their texts -/

theorem marks_decoratorLines {room : Nat} : ∀ {xs : List Decorator},
    (∀ x ∈ xs, GroupedArguments x.arguments room ∧ quotableArguments x.arguments = true) →
    Marks (String.join (xs.map TypeEntry.decoratorLine)).toList (decoratorWords xs)
  | [], _ => fun _ _ => rfl
  | x :: xs, h => by
    obtain ⟨⟨hx, hquotable⟩, hxs⟩ := List.forall_mem_cons.1 h
    rw [List.map_cons, String.join_cons, String.toList_append]
    exact (Decorator.marks_line hx hquotable).behind (marks_decoratorLines hxs)

namespace TypeDeclaration

variable {d : TypeDeclaration} {room : Nat}

/-- A declaration whose written decorators hold no strings but those that may stand between double quotes. -/
def IsQuotable (d : TypeDeclaration) : Prop := ∀ x ∈ d.written, quotableArguments x.arguments = true

/-- **A declaration is printed as its words**, on lines of their own. -/
theorem spells_declaration (h : d.IsWritten room) (hquotable : d.IsQuotable) :
    Spells (entryOf d).declaration.toList (d.words ++ [(.newline, "\n")]) := by
  have hlines := marks_decoratorLines fun x hx => ⟨h.grouped x hx, hquotable x hx⟩
  have htext : (entryOf d).declaration =
      String.join (d.written.map TypeEntry.decoratorLine) ++ (entryOf d.bare).declaration := by
    unfold TypeEntry.declaration
    simp only [String.append_assoc]
    rfl
  rw [htext, String.toList_append, words, List.append_assoc]
  exact hlines.append (TypeEntry.spells_declaration h.bare)

end TypeDeclaration

/-! ## Type files -/

namespace Parse

open Grammar

variable {room : Nat} {s : ParseState}

/-- **Declarations are read back one after the other.** -/
theorem statementsFrom_before_groups (heof : s.eof.kind = .eof) {ds : List TypeDeclaration}
    {groups : List (List Token × List Token)} (h : List.Forall₂ (fun d g => g.1.map Token.word = d.words ∧ g.2 ≠ [] ∧
      ∀ t ∈ g.2, t.kind = .newline) ds groups) (hwritten : ∀ d ∈ ds, d.IsWritten room) :
    ∃ read, List.Forall₂ TypeDeclaration.RereadAs ds read ∧ ∀ taken,
      statementsFrom room false taken (s.before (groups.flatMap fun g => g.1 ++ g.2)) =
        statementsFrom room false (taken ++ read.map .typeDeclaration) s := by
  induction h with
  | nil => exact ⟨[], .nil, fun taken => by rw [List.map_nil, List.append_nil]; rfl⟩
  | @cons d g ds groups hg _ ih =>
    obtain ⟨first, lines⟩ := g
    obtain ⟨hfirst, hsome, hlines⟩ : first.map Token.word = d.words ∧ lines ≠ [] ∧ ∀ t ∈ lines, t.kind = .newline := hg
    obtain ⟨hd, hds⟩ := List.forall_mem_cons.1 hwritten
    obtain ⟨read, hread, hrest⟩ := ih hds
    let more := s.before (groups.flatMap fun g => g.1 ++ g.2)
    let behind := more.before lines
    have hend : endsDeclaration behind.peek = true := by
      obtain ⟨line, breaks, hcons⟩ := List.exists_cons_of_ne_nil hsome
      have hpeek : behind.peek = line := by
        show (more.before lines).peek = line
        rw [hcons, ParseState.peek_before_cons]
      rw [endsDeclaration, hpeek, hlines line (hcons ▸ List.mem_cons_self)]
      rfl
    obtain ⟨d', hd', hstatement⟩ := statement_before_words hd hfirst hend
    refine ⟨d' :: read, .cons hd' hread, fun taken => ?_⟩
    obtain ⟨t, ts, rfl, ht⟩ := exists_cons_of_words hfirst
    have hcons : (behind.before (t :: ts)).rest = t :: (ts ++ behind.rest) := rfl
    have hkind : ¬isSeparator t ∧ t.kind ≠ .eof := by
      rcases ht with e | e <;> simp [isSeparator, e]
    -- The line ends behind a declaration are passed over in front of the next one.
    have hskip : ∀ taken, statementsFrom room false taken behind = statementsFrom room false taken more :=
      fun taken => statementsFrom_separators (s := more) heof taken fun t ht => by rw [isSeparator, hlines t ht]; rfl
    rw [List.flatMap_cons, ParseState.before_append, ParseState.before_append,
      statementsFrom_next hcons heof hkind.1 hkind.2 hstatement, hskip, hrest, List.append_assoc]
    rfl

end Parse

/-- **A type file of declarations that were read is read back as they are**, and without any error, if every string in
the decorators that are written may stand between double quotes. -/
theorem Session.read_decorated {options : Options} {ds : List TypeDeclaration}
    (h : ∀ d ∈ ds, d.IsWritten options.maxDepth) (hquotable : ∀ d ∈ ds, d.IsQuotable) {source : SourceFile}
    (htext : source.text = "\n".intercalate (ds.map fun d => (entryOf d).declaration)) :
    (Session.read options [source]).diagnostics = [] ∧ ∃ read : List TypeDeclaration,
      List.Forall₂ TypeDeclaration.RereadAs ds read ∧
        (Session.read options [source]).program = ⟨read.map .typeDeclaration⟩ := by
  have hspells := spells_file fun d hd => TypeDeclaration.spells_declaration (h d hd) (hquotable d hd)
  rw [← htext] at hspells
  obtain ⟨htokens, hstrays⟩ := SourceFile.of_spells hspells
  obtain ⟨groups, hgroups, hwords⟩ := exists_groups htokens
  let last : ParseState := { rest := [], eof := TokenStream.endOf [source] }
  have heof : last.eof.kind = .eof := eof_ofSources [source]
  have heof' : (last.before [source.lineEnd]).eof.kind = .eof := heof
  obtain ⟨read, hread, hrun⟩ := Parse.statementsFrom_before_groups heof' hwords h
  -- Behind the last declaration nothing is left but the line end that every file has at its end.
  have hends : Parse.statementsFrom options.maxDepth false (read.map .typeDeclaration) (last.before [source.lineEnd]) =
      .ok (read.map .typeDeclaration) last := by
    have hseparators : ∀ t ∈ [source.lineEnd], Parse.isSeparator t := List.forall_mem_singleton.2 rfl
    refine (Parse.statementsFrom_separators heof _ hseparators).trans ?_
    rw [Parse.statementsFrom_eq heof, if_pos (.inl heof)]
    rfl
  have hall : Parse.statementsFrom options.maxDepth false [] (.ofSources [source]) =
      .ok (read.map .typeDeclaration) last := by
    rw [ofSources_singleton, SourceFile.line, hgroups, ParseState.before_append, hrun, List.nil_append]
    exact hends
  obtain ⟨hprogram, hdiagnostics⟩ := read_of_statementsFrom hall
  refine ⟨?_, read, hread, hprogram⟩
  rw [hdiagnostics, List.flatMap_singleton, hstrays]
  rfl

/-! ## Programs -/

namespace Session

variable {es : List Numbered}

/-- **A session without types takes up the types of a type file as they are**, but for what is not written of them. -/
theorem load_decorated (session : Session) {env : Environment} (h : Lists env es)
    (hwritten : ∀ e ∈ es, e.2.IsWritten session.options.maxDepth) (hquotable : ∀ e ∈ es, e.2.IsQuotable)
    (hroot : session.root = .builtin) (name : String) :
    let file : SourceFile := ⟨name, env.root.typeFile⟩
    (read session.options [file]).diagnostics = [] ∧ (session.load file).1 = env.root.declaredTypes.length ∧
      List.Forall₂ TypeEntry.RereadAs env.root.declaredTypes (session.load file).2.root.declaredTypes := by
  intro file
  have htext : file.text = "\n".intercalate ((es.map Prod.snd).map fun d => (entryOf d).declaration) := by
    rw [List.map_map]
    exact h.typeFile
  obtain ⟨hnone, ds, hreread, hprogram⟩ := read_decorated (List.forall_mem_map.2 hwritten)
    (List.forall_mem_map.2 hquotable) htext
  have hds : (read session.options [file]).program.typeDeclarations = ds := by
    rw [hprogram, Program.typeDeclarations, List.filterMap_map]
    exact List.filterMap_some
  have hnames : (Frame.builtin.types.map TypeEntry.name ++ ds.map TypeDeclaration.name).Nodup := by
    have hdistinct := h.distinct
    rw [List.map_append, List.map_map] at hdistinct
    rw [names_of_forall₂ (hreread.imp fun _ _ h => congrArg TypeEntry.name h.bare), List.map_map]
    exact hdistinct
  obtain ⟨hadded, new, hloaded, hnew⟩ := load_of_read hroot hds hnames
  rw [h.declaredTypes, hloaded, hadded, ← hreread.length_eq, List.length_map, List.length_map]
  refine ⟨hnone, rfl, List.forall₂_map_left_iff.2 (List.forall₂_map_right_iff.2 ?_)⟩
  rw [← hnew] at hreread
  refine (List.forall₂_map_left_iff.1 (List.forall₂_map_right_iff.1 hreread)).imp fun e e' he => ?_
  exact ⟨he.bare, he.decorators⟩

/-- **Decorators are written so that they are read back, if their strings can stand between double quotes.**  Of a
decorator that is read anywhere in some sources, with whatever room for what it holds, take any arguments that are plain
values: it is read back from its line with these arguments, and without an error, exactly if every string in them may
stand between double quotes.  And if this holds of every decorator that is written into the type file of a program,
behind whatever type files, then the file is read without an error, and a fresh session that loads it has as many types
as the program's scope declares, each of them what is restored of the one it was printed for, with the same decorators,
those apart that hold other arguments than plain values. -/
theorem decorators_reloaded (options options' : Options) (files sources : List SourceFile) (name : String) :
    (∀ (room : Nat) (s t : ParseState) (d : Decorator), s.rest <:+ (ParseState.ofSources sources).rest →
      s.eof.kind = .eof → Parse.decorator (Parse.deeperAt room) s = .ok d t →
      ∀ arguments : List Argument, (∀ a ∈ arguments, a ∈ d.arguments ∧ a.value.isPlain = true) →
        (Decorator.IsReread { d with arguments } room ↔ quotableArguments arguments = true)) ∧
    let original := (((ofOptions options).loadAll files).compile sources).1.scope
    let file : SourceFile := ⟨name, original.typeFile⟩
    let fresh := ofOptions { options' with maxDepth := options.maxDepth }
    (∀ t ∈ original.declaredTypes, ∀ d ∈ t.decorators, TypeEntry.isWritable d = true →
      quotableArguments d.arguments = true) →
      (read fresh.options [file]).diagnostics = [] ∧ (fresh.load file).1 = original.declaredTypes.length ∧
        List.Forall₂ TypeEntry.RereadAs original.declaredTypes (fresh.load file).2.root.declaredTypes := by
  refine ⟨fun room s t d hs heof hread arguments harguments => ?_, ?_⟩
  · have hcopied : ∀ t ∈ s.rest, t.IsCopied := fun t ht => isCopied_ofSources sources t (hs.subset ht)
    have hgrouped := (Parse.standsAlone_of_decorator hread heof hcopied).grouped harguments
    exact Decorator.isReread_iff hgrouped (plainArguments_iff.2 fun a ha => (harguments a ha).2)
  · intro original file fresh hquotable
    obtain ⟨es, hes, hread⟩ := lists_program options files sources
    have hwritten : ∀ e ∈ es, e.2.IsWritten options.maxDepth := by
      intro e he
      rcases hread e he with ⟨file, -, hd⟩ | hd
      · exact isWritten_of_read options [file] _ hd
      · exact isWritten_of_read options sources _ hd
    have hdeclared : original.declaredTypes = es.map numberedEntry := hes.declaredTypes
    have hquotable : ∀ e ∈ es, e.2.IsQuotable := by
      intro e he x hx
      obtain ⟨hmem, hplain⟩ := List.mem_filter.1 hx
      exact hquotable (numberedEntry e) (hdeclared ▸ List.mem_map_of_mem he) x hmem hplain
    exact load_decorated fresh hes hwritten hquotable rfl name

/-- A decorator with values in a value. -/
theorem decorators_reloaded_call :
    let sources : List SourceFile := [⟨"m.vp", "@class(f(-y, k = 1))\ntype t: int"⟩]
    let start := ParseState.ofSources sources
    let original := (((ofOptions {}).loadAll []).compile sources).1.scope
    let file : SourceFile := ⟨"t.types", original.typeFile⟩
    let fresh := ofOptions { ({} : Options) with maxDepth := defaultDepthLimit }
    (∃ d t, start.rest <:+ start.rest ∧ start.eof.kind = .eof ∧
        Parse.decorator (Parse.deeperAt defaultDepthLimit) start = .ok d t ∧
        (∀ a ∈ d.arguments, a ∈ d.arguments ∧ a.value.isPlain = true) ∧
        (d.IsReread defaultDepthLimit ↔ quotableArguments d.arguments = true)) ∧
      (∀ t ∈ original.declaredTypes, ∀ d ∈ t.decorators, TypeEntry.isWritable d = true →
        quotableArguments d.arguments = true) ∧
      (read fresh.options [file]).diagnostics = [] ∧ (fresh.load file).1 = original.declaredTypes.length ∧
        List.Forall₂ TypeEntry.RereadAs original.declaredTypes (fresh.load file).2.root.declaredTypes := by
  intro sources start original file fresh
  obtain ⟨hreread, hreload⟩ := decorators_reloaded {} {} [] sources "t.types"
  have hall : original.declaredTypes.all (fun t => t.decorators.all fun d => quotableArguments d.arguments) = true := by
    subst original sources
    cbv
  have hquotable : ∀ t ∈ original.declaredTypes, ∀ d ∈ t.decorators, TypeEntry.isWritable d = true →
      quotableArguments d.arguments = true :=
    fun t ht d hd _ => List.all_eq_true.1 (List.all_eq_true.1 hall t ht) d hd
  refine ⟨?_, hquotable, hreload hquotable⟩
  have hplain : ((Parse.decorator (Parse.deeperAt defaultDepthLimit)).run' start).any
      (fun d => d.arguments.all fun a => a.value.isPlain) = true := by
    subst start sources
    cbv
  cases hd : Parse.decorator (Parse.deeperAt defaultDepthLimit) start with
  | error e t =>
    rw [EStateM.run', EStateM.run, hd] at hplain
    exact absurd hplain Bool.false_ne_true
  | ok d t =>
    rw [EStateM.run', EStateM.run, hd] at hplain
    obtain ⟨kind, arguments, span⟩ := d
    have harguments : ∀ a ∈ arguments, a ∈ arguments ∧ a.value.isPlain = true :=
      fun a ha => ⟨ha, List.all_eq_true.1 hplain a ha⟩
    have heof : start.eof.kind = .eof := eof_ofSources sources
    have hagain := hreread defaultDepthLimit start t _ List.suffix_rfl heof hd arguments harguments
    exact ⟨⟨kind, arguments, span⟩, t, List.suffix_rfl, heof, rfl, harguments, hagain⟩

/-- A string ends at a quote that is not escaped when it is read back, and the type that it decorates is lost. -/
theorem decorators_reloaded_quote :
    let sources : List SourceFile := [⟨"m.vp", "@class('a\"b')\ntype t: int"⟩]
    let original := ((ofOptions {}).compile sources).1.scope
    let file : SourceFile := ⟨"t.types", original.typeFile⟩
    original.declaredTypes.map (fun t => (t.name, t.decorators.map TypeEntry.isWritable)) = [("t", [true])] ∧
      (read {} [file]).diagnostics.length = 1 ∧ ((ofOptions {}).load file).1 = 0 := by
  intro sources original file
  obtain ⟨hdeclared, htext⟩ : original.declaredTypes.map (fun t => (t.name, t.decorators.map TypeEntry.isWritable)) =
      [("t", [true])] ∧ original.typeFile = "@class(\"a\"b\")\ntype t: int\n" := by
    subst original sources
    cbv
  have hfile : file = ⟨"t.types", "@class(\"a\"b\")\ntype t: int\n"⟩ := congrArg (SourceFile.mk "t.types") htext
  have hscan : TokenStream.scan [file] =
      ⟨[⟨.atSign, "@", "t.types", ⟨1, 1⟩⟩, ⟨.identifier, "class", "t.types", ⟨1, 2⟩⟩,
        ⟨.leftParen, "(", "t.types", ⟨1, 7⟩⟩, ⟨.quote, "\"", "t.types", ⟨1, 8⟩⟩,
        ⟨.string, "a", "t.types", ⟨1, 9⟩⟩, ⟨.quote, "\"", "t.types", ⟨1, 10⟩⟩,
        ⟨.identifier, "b", "t.types", ⟨1, 11⟩⟩, ⟨.quote, "\"", "t.types", ⟨1, 12⟩⟩,
        ⟨.string, ")\ntype t: int\n", "t.types", ⟨1, 13⟩⟩, ⟨.newline, "\n", "t.types", ⟨3, 1⟩⟩,
        .endOfFile "t.types" ⟨3, 1⟩], []⟩ := by
    rw [hfile]
    cbv
  have hparse : ParsedProgram.ofTokens (TokenStream.scan [file]).tokens ({} : Options).maxDepth =
      ⟨⟨[]⟩, [.expectedToken "\x60,\x60 or \x60)\x60 in decorator" .identifier (.point "t.types" ⟨1, 11⟩)]⟩ := by
    rw [hscan]
    cbv
  have hread : (read {} [file]).program = ⟨[]⟩ ∧ (read {} [file]).diagnostics.length = 1 := by
    unfold read
    dsimp only
    rw [hparse, hscan]
    exact ⟨rfl, rfl⟩
  have hnone : (read (ofOptions {}).options [file]).program.typeDeclarations = [] :=
    congrArg Program.typeDeclarations hread.1
  exact ⟨hdeclared, hread.2, (load_of_read rfl hnone (by decide)).1⟩

end Session
end UnionScript
