import UnionScript.Proofs.StatementStages
import UnionScript.Token.Stream
/-!
# Locality — what stands behind a line end plays no part in front of it

Where statements are read without an error up to a line end, they are read so whatever follows that line end, unless it
is an `else`; and what follows is read as if nothing stood in front of it (`ParsedProgram.ofTokens_append_newline`).
-/
namespace UnionScript

/-- The state with nothing but a tail left. -/
def ParseState.behind (s : ParseState) (tail : Tail) : ParseState := { s with rest := tail.rest, eof := tail.eof }

namespace Parse

variable {room : Nat} {s t : ParseState} {newline : Token} {tail : Tail}

/-- **A statement is read for any tail** behind the last line end, which it leaves. -/
theorem statement_retail {st : Statement} (heof : s.eof.kind = .eof) (h : statement (deeperAt room) s = .ok st t)
    (herrors : t.errors = s.errors) (hends : s.Ends newline tail) :
    t.Ends newline tail ∧ t.behind tail = s.behind tail ∧
      statement (deeperAt room) (s.retail tail) = .ok st (t.retail tail) := by
  have hreads : Reads .first (statement (deeperAt room)) fun st => Stage.first.behind st.held :=
    .statement (Reads.deeperAt room)
  have hleads := hreads.ok ⟨heof, trivial⟩ h
  have hne : t.rest ≠ [] := hleads.more hends.endsLine nofun rfl
  refine ⟨hends.suffix hleads.continues.rest hne, ?_, (hreads.keeps ⟨heof, trivial⟩ h herrors hends hne nofun).2⟩
  rw [ParseState.behind, ParseState.behind, herrors, hleads.continues.depth, hleads.fault]

theorem skipped_retail (hends : s.Ends newline tail) (hne : (skipped s).rest ≠ []) :
    skipped (s.retail tail) = (skipped s).retail tail := by
  obtain ⟨front, hrest, hrest'⟩ := hends.exists_rest
  have hdrop : (s.retail tail).rest.dropWhile isSeparator = (s.rest.dropWhile isSeparator).dropLast ++ tail.rest := by
    rw [hrest', hrest]
    refine Reads.dropWhile_retail ?_ (hrest ▸ hne)
    rw [isSeparator, hends.kind]
    rfl
  rw [skipped, hdrop]
  rfl

/-- What is next where separators are skipped is none of them. -/
theorem peek_skipped (hne : (skipped s).rest ≠ []) : (skipped s).peek ∈ s.rest ∧ isSeparator (skipped s).peek = false := by
  cases hdrop : s.rest.dropWhile isSeparator with
  | nil => exact absurd hdrop hne
  | cons t rest =>
    have hpeek : (skipped s).peek = t := by
      rw [ParseState.peek, skipped, hdrop]
      rfl
    have hhead := List.head?_dropWhile_not isSeparator s.rest
    rw [hdrop] at hhead
    rw [hpeek]
    refine ⟨(List.dropWhile_suffix isSeparator).subset (hdrop ▸ List.mem_cons_self), ?_⟩
    simpa using hhead

/-- No statement begins with a closing brace. -/
theorem peek_ne_rightBrace {st : Statement} (h : statement (deeperAt room) s = .ok st t) : s.peek.kind ≠ .rightBrace := by
  intro hkind
  obtain ⟨e, he⟩ := Reads.expressionAt_none .lowest (.inr hkind) room
  have hfails : statement (deeperAt room) s = .error e s := by
    unfold statement
    rw [Steps.bind_ok (rfl : peekKind s = .ok s.peek.kind s), hkind]
    exact Steps.bind_error (Steps.bind_error he)
  exact nomatch hfails.symm.trans h

/-- Where a run of statements goes on with a statement, it does with another tail, inside a block as well. -/
theorem not_stops_retail {st : Statement} (hends : (skipped s).Ends newline tail) (hne : (skipped s).rest ≠ [])
    (hstops : ¬stops false (skipped s)) (h : statement (deeperAt room) (skipped s) = .ok st t) (inBlock : Bool) :
    ¬stops inBlock ((skipped s).retail tail) := by
  have hsame : ((skipped s).retail tail).peek = (skipped s).peek := by
    rcases Reads.peek_retail hends with h | ⟨hnewline, -⟩
    · exact h
    · have hnext := (peek_skipped hne).2
      rw [isSeparator, hnewline] at hnext
      exact absurd hnext (by decide)
  rw [stops, hsame]
  exact fun hstop => hstop.elim (fun heof => hstops (.inl heof)) fun hclose => peek_ne_rightBrace h hclose.2

/-- Where a run of statements stops, nothing but separators is left in front of the tail. -/
theorem statementsFrom_retail_of_stops {taken : List Statement} (hproper : ∀ t ∈ s.rest, t.kind ≠ .eof)
    (hends : s.Ends newline tail) (hstops : stops false (skipped s)) (inBlock : Bool) :
    statementsFrom room inBlock taken (s.retail tail) = statementsFrom room inBlock taken (s.behind tail) := by
  have hnil : s.rest.dropWhile isSeparator = [] := by
    by_contra hne
    rcases hstops with heof | ⟨hblock, -⟩
    · exact hproper _ (peek_skipped hne).1 heof
    · exact nomatch hblock
  obtain ⟨front, hrest, hrest'⟩ := hends.exists_rest
  have hseparators : ∀ t ∈ front, isSeparator t = true := fun t ht =>
    List.dropWhile_eq_nil_iff.1 hnil t (hrest ▸ List.mem_append_left _ ht)
  have hfront : s.retail tail = { s.behind tail with rest := front ++ (s.behind tail).rest } := by
    rw [ParseState.behind, ← hrest']
    rfl
  rw [hfront]
  exact statementsFrom_separators hends.follows.eof taken hseparators

theorem continues_of_statementsFrom {taken result : List Statement} (heof : s.eof.kind = .eof)
    (h : statementsFrom room false taken s = .ok result t) : s.Continues t := by
  obtain ⟨read, u, hu, -, hread⟩ := statementsFrom_ok heof
  cases (hread taken).symm.trans h
  exact hu

/-- **Statements are read for any tail**, which is left for the statements behind them; inside a block they are read as
they are at top level. -/
theorem statementsFrom_retail {taken result : List Statement} {u : ParseState} (heof : s.eof.kind = .eof)
    (hproper : ∀ t ∈ s.rest, t.kind ≠ .eof) (hends : s.Ends newline tail)
    (h : statementsFrom room false taken s = .ok result u) (herrors : u.errors = s.errors) (inBlock : Bool) :
    statementsFrom room inBlock taken (s.retail tail) = statementsFrom room inBlock result (s.behind tail) := by
  induction hn : s.rest.length using Nat.strongRecOn generalizing s taken with
  | ind n ih =>
    rw [statementsFrom_eq heof] at h
    by_cases hstops : stops false (skipped s)
    · rw [if_pos hstops] at h
      cases h
      exact statementsFrom_retail_of_stops hproper hends hstops inBlock
    · have hne := skipped_rest_ne_nil heof hstops
      have hends' : (skipped s).Ends newline tail := hends.suffix (List.dropWhile_suffix _) hne
      have hless : (next room (skipped s)).2.rest.length < s.rest.length :=
        Nat.lt_of_lt_of_le (length_next_lt hne) (length_skipped_le s)
      rw [if_neg hstops] at h
      have horderly : Orderly (statement (deeperAt room)) := orderly_closed.statement (orderly_closed.deeperAt room)
      cases hst : statement (deeperAt room) (skipped s) with
      | error e t =>
        -- An error that is recorded would still be there.
        rw [next_error hst] at h
        have ht := horderly.error hst
        have hle := (continues_of_statementsFrom (ht.eof.symm ▸ heof) h).errors.length_le
        have hle' := ht.errors.length_le
        rw [herrors] at hle
        simp only [resumed, ParseState.record, List.length_cons] at hle
        exact absurd (Nat.le_trans hle hle') (Nat.not_succ_le_self _)
      | ok st t =>
        rw [next_ok hst] at h hless
        have ht := horderly.ok hst
        have heof' : t.eof.kind = .eof := ht.eof.symm ▸ heof
        obtain ⟨hfirst, hsecond⟩ := errors_eq_of_continues ht (continues_of_statementsFrom heof' h) herrors
        rw [statementsFrom_eq (s := s.retail tail) hends.follows.eof, skipped_retail hends hne,
          if_neg (not_stops_retail hends' hne hstops hst inBlock)]
        obtain ⟨hends', hbehind, hretail⟩ := statement_retail (s := skipped s) heof hst hfirst hends'
        have hproper' : ∀ x ∈ t.rest, x.kind ≠ .eof := fun x hx =>
          hproper x ((List.dropWhile_suffix _).subset (ht.rest.subset hx))
        rw [next_ok hretail, ih _ (hn ▸ hless) heof' hproper' hends' h hsecond rfl, hbehind]
        rfl

end Parse

namespace ParsedProgram

open Parse

variable {limit : Nat} {p x : List Token} {newline : Token}

/-- Without ends of files among them, tokens are read to their end. -/
theorem ofTokens_proper {tokens : List Token} (h : ∀ t ∈ tokens, t.kind ≠ .eof) :
    ParseState.ofTokens tokens = { rest := tokens, eof := ParseState.missingEnd tokens } := by
  have hproper : ∀ t ∈ tokens, ParseState.isProper t = true := fun t ht => bne_iff_ne.2 (h t ht)
  rw [ParseState.ofTokens, List.takeWhile_eq_self_iff.2 hproper, List.dropWhile_eq_nil_iff.2 hproper]
  rfl

/-- What a program is read as is what its statements are read as, whatever was read before them. -/
theorem exists_run {tokens : List Token} (limit : Nat) (h : ∀ t ∈ tokens, t.kind ≠ .eof) : ∃ statements s,
    (∀ taken, statementsFrom limit false taken { rest := tokens, eof := ParseState.missingEnd tokens } =
      .ok (taken ++ statements) s) ∧ ofTokens tokens limit = ⟨⟨statements⟩, s.errors.reverse⟩ := by
  let start : ParseState := { rest := tokens, eof := ParseState.missingEnd tokens }
  have heof : start.eof.kind = .eof := ParseState.eof_kind_missingEnd tokens
  obtain ⟨statements, s, -, -, hread⟩ : ∃ read t, start.Continues t ∧ stops false t ∧
      ∀ taken, statementsFrom limit false taken start = .ok (taken ++ read) t := statementsFrom_ok heof
  have hrun : run limit tokens = .ok statements s := by
    rw [run, ofTokens_proper h]
    exact hread []
  exact ⟨statements, s, hread, by rw [ofTokens, hrun]⟩

/-- Where nothing is left, a run of statements ends. -/
theorem statementsFrom_nil (taken : List Statement) {eof : Token} (heof : eof.kind = .eof) :
    statementsFrom limit false taken { rest := [], eof } = .ok taken { rest := [], eof } := by
  have hstops : stops false (skipped { rest := [], eof }) := .inl heof
  rw [statementsFrom_eq heof, if_pos hstops]
  rfl

/-- Clean tokens in front of a line end are read alike, whatever stands in its place. -/
theorem statementsFrom_clean (hp : ∀ t ∈ p, t.kind ≠ .eof) (hnewline : newline.kind = .newline)
    (hclean : (ofTokens (p ++ [newline]) limit).errors = []) {tail : Tail} (htail : tail.Follows newline)
    (hword : ∀ c ∈ tail.rest.head?, c.isComment = false) :
    statementsFrom limit false [] { rest := p ++ tail.rest, eof := tail.eof } =
      statementsFrom limit false (ofTokens (p ++ [newline]) limit).program.statements
        { rest := tail.rest, eof := tail.eof } := by
  have hproper : ∀ t ∈ p ++ [newline], t.kind ≠ .eof := by
    intro t ht
    rcases List.mem_append.1 ht with ht | ht
    · exact hp t ht
    · rw [List.mem_singleton.1 ht, hnewline]
      exact nofun
  obtain ⟨statements, s, hread, hof⟩ := exists_run limit hproper
  rw [hof] at hclean ⊢
  have hends : ParseState.Ends { rest := p ++ [newline], eof := ParseState.missingEnd (p ++ [newline]) } newline tail :=
    ⟨List.getLast?_concat, hnewline, htail, fun c hc hcomment => absurd hcomment (Bool.eq_false_iff.1 (hword c hc))⟩
  have hretail := statementsFrom_retail (ParseState.eof_kind_missingEnd _) hproper hends (hread [])
    (List.reverse_eq_nil_iff.1 hclean) false
  rw [ParseState.retail, List.dropLast_concat] at hretail
  exact hretail

/-- A line end in front plays no part. -/
theorem statementsFrom_newline {taken : List Statement} {rest : List Token} {eof : Token}
    (hnewline : newline.kind = .newline) (heof : eof.kind = .eof) :
    statementsFrom limit false taken { rest := newline :: rest, eof } = statementsFrom limit false taken { rest, eof } := by
  have hseparators : ∀ t ∈ [newline], isSeparator t = true := by
    intro t ht
    rw [List.mem_singleton.1 ht, isSeparator, hnewline]
    rfl
  exact statementsFrom_separators (s := { rest, eof }) heof taken hseparators

theorem elseFollows_eq_false (helse : ∀ t ∈ (x.dropWhile (·.kind == .newline)).head?, t.kind ≠ .keyword .else) :
    elseFollows x = false := by
  unfold elseFollows
  cases hhead : (x.dropWhile (·.kind == .newline)).head? with
  | none => rfl
  | some t => exact beq_false_of_ne (helse t hhead)

/-- **Clean statements in front of a line end and what is behind it are read apart**: they are read as they are without
it, and it is read as it is without them. -/
theorem ofTokens_append_newline (limit : Nat) (p x : List Token) (newline : Token) (hp : ∀ t ∈ p, t.kind ≠ .eof)
    (hx : ∀ t ∈ x, t.kind ≠ .eof) (hnewline : newline.kind = .newline)
    (hclean : (ofTokens (p ++ [newline]) limit).errors = [])
    (helse : ∀ t ∈ (x.dropWhile (·.kind == .newline)).head?, t.kind ≠ .keyword .else) :
    ofTokens (p ++ newline :: x) limit =
      ⟨⟨(ofTokens p limit).program.statements ++ (ofTokens x limit).program.statements⟩, (ofTokens x limit).errors⟩ := by
  obtain ⟨first, s, hfirst, hp'⟩ := exists_run limit hp
  obtain ⟨second, t, hsecond, hx'⟩ := exists_run limit hx
  have hend := ParseState.eof_kind_missingEnd
  -- With nothing in the place of the line end it is the clean part that is read.
  have hfirst' : (ofTokens (p ++ [newline]) limit).program.statements = first := by
    have htail : Tail.Follows ⟨[], ParseState.missingEnd p⟩ newline := ⟨hend p, .inl rfl⟩
    have hclean' := statementsFrom_clean hp hnewline hclean htail nofun
    rw [List.append_nil, hfirst, statementsFrom_nil _ (hend p)] at hclean'
    cases hclean'
    rfl
  have hwhole : ∀ t ∈ p ++ newline :: x, t.kind ≠ .eof := by
    intro t ht
    rcases List.mem_append.1 ht with ht | ht
    · exact hp t ht
    · rcases List.mem_cons.1 ht with rfl | ht
      · rw [hnewline]
        exact nofun
      · exact hx t ht
  have htail : Tail.Follows ⟨newline :: x, ParseState.missingEnd (p ++ newline :: x)⟩ newline :=
    ⟨hend _, .inr (.inl ⟨x, rfl, elseFollows_eq_false helse⟩)⟩
  have hword : ∀ c ∈ (newline :: x).head?, c.isComment = false := by
    rintro _ ⟨⟩
    rw [Token.isComment, hnewline]
    rfl
  obtain ⟨statements, u, hstatements, hof⟩ := exists_run limit hwhole
  have hread := (hstatements []).symm.trans (statementsFrom_clean hp hnewline hclean htail hword)
  rw [hfirst', statementsFrom_newline hnewline (hend _)] at hread
  rw [hof, hp', hx']
  cases x with
  | nil =>
    have hnone := (hsecond []).symm.trans (statementsFrom_nil [] (hend []))
    rw [statementsFrom_nil _ (hend _)] at hread
    cases hnone
    cases hread
    exact congrArg (ParsedProgram.mk ⟨·⟩ []) (List.append_nil _).symm
  | cons y x =>
    have hlast : (p ++ newline :: y :: x).getLast? = (y :: x).getLast? := by
      rw [List.getLast?_append, List.getLast?_cons_cons, List.getLast?_cons, Option.some_or]
    have hmissing : ParseState.missingEnd (p ++ newline :: y :: x) = ParseState.missingEnd (y :: x) := by
      rw [ParseState.missingEnd, ParseState.missingEnd, hlast]
    rw [hmissing, hsecond] at hread
    cases hread
    rfl

/-- A branch with nothing behind it but a line that holds a brace and an `else` too many. -/
theorem ofTokens_append_newline_branch :
    let p : SourceFile := ⟨"p.vp", "if (x) \x7b y \x7d"⟩
    let x : SourceFile := ⟨"x.vp", "\x7d else (z"⟩
    (ofTokens (p.tokens ++ [p.lineEnd]) 8).errors = [] ∧ (ofTokens x.tokens 8).errors ≠ [] ∧
      ofTokens (p.tokens ++ p.lineEnd :: x.tokens) 8 =
        ⟨⟨(ofTokens p.tokens 8).program.statements ++ (ofTokens x.tokens 8).program.statements⟩,
          (ofTokens x.tokens 8).errors⟩ := by
  intro p x
  have hclean : (ofTokens (p.tokens ++ [p.lineEnd]) 8).errors = [] := by
    subst p
    cbv
  have hbroken : (ofTokens x.tokens 8).errors.isEmpty = false := by
    subst x
    cbv
  refine ⟨hclean, List.isEmpty_eq_false_iff.1 hbroken, ?_⟩
  exact ofTokens_append_newline 8 p.tokens x.tokens p.lineEnd (by subst p; decide +kernel) (by subst x; decide +kernel) rfl
    hclean (by subst x; decide +kernel)

end ParsedProgram
end UnionScript
