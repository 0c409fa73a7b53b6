import UnionScript.Proofs.Declarations
import UnionScript.Proofs.Elsewhere
import UnionScript.Proofs.Locality
/-!
# Remarks — comments behind a statement on its line

A comment ends most statements as a line end does: what is read in front of a line end is read so in front of a comment,
and the comment is the next statement, at top level and in blocks (`Parse.statementsFrom_remark`).  A `return` is the
exception.  What stands behind the word is taken for its value unless it is a line end, a semicolon or a closing brace, so
that no reader gets beyond a `return` with a comment behind it (`Parse.Balks`).  So a comment may stand behind all
statements but those that end with the word (`ParsedProgram.ofTokens_remark`).
-/
namespace UnionScript

/-- The statement that a comment is. -/
def Token.remark (c : Token) : Statement := .comment c.text (c.kind == .roxygenComment) c.span

/-- Tokens that a comment may stand behind: none of them is an end of file, and the last one is no `return`. -/
structure TakesRemark (ts : List Token) : Prop where
  proper : ∀ t ∈ ts, t.kind ≠ .eof
  word : ∀ t ∈ ts.getLast?, t.kind ≠ .keyword .return

namespace Parse

variable {limit room : Nat} {inBlock : Bool} {s : ParseState} {c line newline opened close : Token} {ts : List Token}
  {sts taken : List Statement}

/-! ## Behind a comment -/

theorem statement_before_remark (hc : c.isComment = true) :
    statement (deeperAt room) (s.before [c]) = .ok c.remark s := by
  rcases Token.isComment_iff.1 hc with hkind | hkind
  · rw [statement_before_comment false hkind, Token.remark, hkind]
    rfl
  · rw [statement_before_comment true hkind, Token.remark, hkind]
    rfl

/-- A comment is a statement by itself. -/
theorem statementsFrom_comment (hc : c.isComment = true) (heof : s.eof.kind = .eof) (taken : List Statement) :
    statementsFrom room inBlock taken (s.before [c]) = statementsFrom room inBlock (taken ++ [c.remark]) s := by
  have hkind := Token.isComment_iff.1 hc
  have hskipped : skipped (s.before [c]) = s.before [c] := by
    rw [skipped, ParseState.rest_before, List.singleton_append, List.dropWhile_cons_of_neg]
    · rfl
    · rcases hkind with hkind | hkind <;> simp [isSeparator, hkind]
  have hstops : ¬stops inBlock (s.before [c]) := by
    rintro (hstop | ⟨-, hstop⟩) <;> rcases hkind with hkind | hkind <;> cases hkind.symm.trans hstop
  rw [statementsFrom_eq (s := s.before [c]) heof, hskipped, if_neg hstops, next_ok (statement_before_remark hc)]
  rfl

/-- **Clean statements are read in front of a comment as in front of a line end**, wherever they stand. -/
theorem statementsFrom_remark (hts : TakesRemark ts) (hnewline : newline.kind = .newline) (hline : line.kind = .newline)
    (hc : c.isComment = true) (hclean : ParsedProgram.ofTokens (ts ++ [newline]) limit = ⟨⟨sts⟩, []⟩)
    (heof : s.eof.kind = .eof) (taken : List Statement) :
    statementsFrom limit inBlock taken (s.before (ts ++ [c, line])) =
      statementsFrom limit inBlock (taken ++ sts ++ [c.remark]) (s.before [line]) := by
  have hproper : ∀ t ∈ ts ++ [newline], t.kind ≠ .eof := by
    intro t ht
    rcases List.mem_append.1 ht with ht | ht
    · exact hts.proper t ht
    · rw [List.mem_singleton.1 ht, hnewline]
      exact nofun
  obtain ⟨read, u, hread, hof⟩ := ParsedProgram.exists_run limit hproper
  rw [hof] at hclean
  cases congrArg (·.program.statements) hclean
  have herrors : u.errors = [] := List.reverse_eq_nil_iff.1 (congrArg (·.errors) hclean)
  -- The tokens stand elsewhere, with the comment in the place of the line end.
  have hmissing : (ParseState.missingEnd (ts ++ [newline])).kind = .eof := ParseState.eof_kind_missingEnd _
  let start : ParseState := { rest := ts ++ [newline], eof := ParseState.missingEnd (ts ++ [newline]) }
  let here : ParseState := { s with rest := start.rest, eof := start.eof }
  have hfaces : start.Faces here := ⟨rfl, rfl⟩
  let tail : Tail := ⟨c :: line :: s.rest, s.eof⟩
  have hends : here.Ends newline tail := by
    refine ⟨List.getLast?_concat, hnewline, ⟨heof, .inr (.inr ⟨c, line, s.rest, rfl, hc, hline⟩)⟩, fun _ _ _ t ht => ?_⟩
    rw [List.dropLast_concat] at ht
    exact hts.word t ht
  obtain ⟨t, ht, -, ht'⟩ := statementsFrom_elsewhere (hread []) herrors hfaces
  obtain ⟨read', t', -, -, hread'⟩ : ∃ read t, here.Continues t ∧ stops false t ∧
      ∀ taken, statementsFrom limit false taken here = .ok (taken ++ read) t := statementsFrom_ok hmissing
  cases (hread' []).symm.trans ht
  have hretail := statementsFrom_retail hmissing hproper hends (hread' taken) ht' inBlock
  rw [ParseState.retail, List.dropLast_concat] at hretail
  rw [ParseState.before_append, ParseState.before_cons s c]
  exact hretail.trans (statementsFrom_comment (s := s.before [line]) hc heof _)

/-! ## Inside braces -/

/-- At its closing brace a run of statements inside a block ends. -/
theorem statementsFrom_close (hclose : close.kind = .rightBrace) (heof : s.eof.kind = .eof) :
    statementsFrom room true taken (s.before [close]) = .ok taken (s.before [close]) := by
  have hskipped : skipped (s.before [close]) = s.before [close] := by
    rw [skipped, ParseState.rest_before, List.singleton_append, List.dropWhile_cons_of_neg (by simp [isSeparator, hclose])]
    rfl
  rw [statementsFrom_eq (s := s.before [close]) heof, hskipped, if_pos (.inr ⟨rfl, hclose⟩)]

/-- A block whose statements are read up to its closing brace. -/
theorem blockAt_before (hopened : opened.kind = .leftBrace) (hclose : close.kind = .rightBrace) (heof : s.eof.kind = .eof)
    (h : statementsFrom room true [] ((Reads.descend s).before (ts ++ [close])) =
      statementsFrom room true sts ((Reads.descend s).before [close])) :
    blockAt (room + 1) (s.before (opened :: (ts ++ [close]))) = .ok ⟨sts, opened.span.union close.span⟩ s := by
  have hbody : blockBody (deeperAt room) opened ((Reads.descend s).before (ts ++ [close])) =
      .ok ⟨sts, opened.span.union close.span⟩ (Reads.descend s) := by
    have hstatements : statements (deeperAt room) true ((Reads.descend s).before (ts ++ [close])) =
        .ok sts ((Reads.descend s).before [close]) :=
      h.trans (statementsFrom_close (s := Reads.descend s) hclose heof)
    exact (Steps.bind_ok hstatements).trans (Steps.bind_ok (expect_before hclose _))
  have hnested : nested (blockBody (deeperAt room) opened) (s.before (ts ++ [close])) =
      .ok ⟨sts, opened.span.union close.span⟩ (Reads.descend s).ascend := nested_ok hbody
  rw [ParseState.before_cons]
  exact (Steps.bind_ok (expect_before hopened _)).trans hnested

/-! ## Barred tokens -/

/-- A reader that has got beyond a comment found one where it may stand. -/
theorem takesRemark_of_balks {rest left : List Token} (hc : c.isComment = true) (h : Balks (ts ++ c :: rest) left)
    (hleft : left <:+ rest) : TakesRemark ts := by
  have htaken : ∀ more, Barred more → rest.length < more.length → ¬more <:+ ts ++ c :: rest := fun more hbarred hless hmore =>
    Nat.not_le_of_lt hless ((h more hbarred hmore).length_le.trans hleft.length_le)
  constructor
  · intro t ht heof
    obtain ⟨front, behind, rfl⟩ := List.append_of_mem ht
    refine htaken (t :: (behind ++ c :: rest)) (.inl heof) (by simp; omega) ⟨front, ?_⟩
    rw [List.append_assoc, List.cons_append]
  · intro t ht hword
    obtain ⟨front, rfl⟩ := List.getLast?_eq_some_iff.1 ht
    refine htaken (t :: c :: rest) (.inr ⟨hword, c, rfl, hc⟩) (by simp) ⟨front, ?_⟩
    rw [List.append_assoc, List.singleton_append]

end Parse

namespace ParsedProgram

open Parse

variable {limit : Nat} {s : List Token} {sts : List Statement} {newline c line : Token}

/-- Behind an end of file nothing is read. -/
theorem ofTokens_append_of_eof (limit : Nat) {ts : List Token} (more : List Token) (h : ¬∀ t ∈ ts, t.kind ≠ .eof) :
    ofTokens (ts ++ more) limit = ofTokens ts limit := by
  have hdrop : ts.dropWhile ParseState.isProper ≠ [] := fun hnil =>
    h fun t ht => bne_iff_ne.1 (List.dropWhile_eq_nil_iff.1 hnil t ht)
  have htake : (ts.takeWhile ParseState.isProper).length ≠ ts.length := by
    intro hlength
    refine hdrop (List.eq_nil_of_length_eq_zero ?_)
    have hsplit := congrArg List.length (List.takeWhile_append_dropWhile (p := ParseState.isProper) (l := ts))
    rw [List.length_append] at hsplit
    omega
  have hstate : ParseState.ofTokens (ts ++ more) = ParseState.ofTokens ts := by
    have hdrop' : (ts ++ more).dropWhile ParseState.isProper = ts.dropWhile ParseState.isProper ++ more := by
      rw [List.dropWhile_append, if_neg (by simpa using hdrop)]
    obtain ⟨t, rest, hts⟩ := List.exists_cons_of_ne_nil hdrop
    rw [ParseState.ofTokens, ParseState.ofTokens, List.takeWhile_append, if_neg htake, hdrop', hts]
    rfl
  rw [ofTokens, ofTokens, run, run, hstate]

theorem proper_append_remark (hproper : ∀ t ∈ s, t.kind ≠ .eof) (hc : c.isComment = true) (hline : line.kind = .newline) :
    ∀ t ∈ s ++ [c, line], t.kind ≠ .eof := by
  intro t ht
  rcases List.mem_append.1 ht with ht | ht
  · exact hproper t ht
  · rcases List.mem_pair.1 ht with rfl | rfl
    · rcases Token.isComment_iff.1 hc with hkind | hkind <;> rw [hkind] <;> exact nofun
    · rw [hline]
      exact nofun

/-- Where a comment is read behind clean tokens, it may stand there. -/
theorem takesRemark_of_ofTokens (hc : c.isComment = true) (hline : line.kind = .newline)
    (hclean : ofTokens (s ++ [newline]) limit = ⟨⟨sts⟩, []⟩)
    (h : ofTokens (s ++ [c, line]) limit = ⟨⟨sts ++ [c.remark]⟩, []⟩) : TakesRemark s := by
  by_cases hproper : ∀ t ∈ s, t.kind ≠ .eof
  · have hwhole := proper_append_remark hproper hc hline
    obtain ⟨read, u, hread, hof⟩ := exists_run limit hwhole
    let start : ParseState := { rest := s ++ [c, line], eof := ParseState.missingEnd (s ++ [c, line]) }
    have heof : start.eof.kind = .eof := ParseState.eof_kind_missingEnd _
    have herrors : u.errors = start.errors := by
      rw [hof] at h
      exact List.reverse_eq_nil_iff.1 (congrArg (·.errors) h)
    obtain ⟨read', u', hcontinues, hstops, hread'⟩ : ∃ read t, start.Continues t ∧ stops false t ∧
        ∀ taken, statementsFrom limit false taken start = .ok (taken ++ read) t := statementsFrom_ok heof
    cases (hread' []).symm.trans (hread [])
    have hleads : Leads .first start (Stage.first.holding (heldInStatements read)) u :=
      (Reads.statements (Reads.deeperAt limit) false Nat.one_pos fun _ => rfl).ok ⟨heof, trivial⟩ (hread [])
    have hnil : u.rest = [] := by
      refine rest_eq_nil_of_peek (fun t ht => hwhole t (hcontinues.rest.subset ht)) ?_
      exact hstops.resolve_right fun hclose => Bool.false_ne_true hclose.1
    have hbalks : Balks (s ++ c :: [line]) u.rest := hleads.balks herrors
    rw [hnil] at hbalks
    exact takesRemark_of_balks hc hbalks List.nil_suffix
  · -- The comment stands behind the end of file.
    have hsame := (ofTokens_append_of_eof limit [c, line] hproper).trans
      (ofTokens_append_of_eof limit [newline] hproper).symm
    rw [h, hclean] at hsame
    have hlength := congrArg (·.program.statements.length) hsame
    simp at hlength

/-- **A comment may stand behind clean statements exactly if they do not end with the word `return`.**  Tokens that are
read as some statements in front of a line end, without an error, are read as the same statements and a comment in front
of a comment and a line end: at top level, between braces, and, whatever was read before them and whatever follows,
wherever statements are read.  It is so exactly if their last token is not `return`, and no end of file is among them. -/
theorem ofTokens_remark (limit : Nat) (s : List Token) (sts : List Statement) (newline c line : Token)
    (hnewline : newline.kind = .newline) (hc : c.isComment = true) (hline : line.kind = .newline)
    (hclean : ofTokens (s ++ [newline]) limit = ⟨⟨sts⟩, []⟩) :
    (ofTokens (s ++ [c, line]) limit = ⟨⟨sts ++ [c.remark]⟩, []⟩ ↔ TakesRemark s) ∧
      (∀ (around : ParseState) (opened close : Token), around.eof.kind = .eof → opened.kind = .leftBrace →
        close.kind = .rightBrace → (blockAt (limit + 1) (around.before (opened :: (s ++ [c, line] ++ [close]))) =
          .ok ⟨sts ++ [c.remark], opened.span.union close.span⟩ around ↔ TakesRemark s)) ∧
      (TakesRemark s → ∀ (around : ParseState) (inBlock : Bool) (taken : List Statement), around.eof.kind = .eof →
        statementsFrom limit inBlock taken (around.before (s ++ [c, line])) =
          statementsFrom limit inBlock (taken ++ sts ++ [c.remark]) around) := by
  have hrun : TakesRemark s → ∀ (around : ParseState) (inBlock : Bool) (taken : List Statement), around.eof.kind = .eof →
      statementsFrom limit inBlock taken (around.before (s ++ [c, line])) =
        statementsFrom limit inBlock (taken ++ sts ++ [c.remark]) around := by
    intro hs around inBlock taken heof
    have hseparators : ∀ t ∈ [line], isSeparator t = true := by
      intro t ht
      rw [List.mem_singleton.1 ht, isSeparator, hline]
      rfl
    exact (statementsFrom_remark hs hnewline hline hc hclean heof taken).trans
      (statementsFrom_separators heof _ hseparators)
  refine ⟨⟨takesRemark_of_ofTokens hc hline hclean, fun hs => ?_⟩, fun around opened close heof hopened hclose =>
    ⟨fun h => ?_, fun hs => ?_⟩, hrun⟩
  · obtain ⟨read, u, hread, hof⟩ := exists_run limit (proper_append_remark hs.proper hc hline)
    let around : ParseState := { rest := [], eof := ParseState.missingEnd (s ++ [c, line]) }
    have heof : around.eof.kind = .eof := ParseState.eof_kind_missingEnd _
    have hwhole : statementsFrom limit false [] (around.before (s ++ [c, line])) = .ok (sts ++ [c.remark]) around :=
      (hrun hs around false [] heof).trans (statementsFrom_nil _ heof)
    rw [ParseState.before, List.append_nil] at hwhole
    obtain ⟨hread, hu⟩ := EStateM.Result.ok.inj ((hread []).symm.trans hwhole)
    rw [hof, hu, ← hread]
    rfl
  · have hleads : Leads .first (around.before (opened :: (s ++ [c, line] ++ [close]))) (Stage.first.behind _) around :=
      ((Reads.deeperAt (limit + 1)).block .first).ok ⟨heof, trivial⟩ h
    have hbalks : Balks (s ++ c :: line :: close :: around.rest) around.rest := by
      intro more hbarred hmore
      refine hleads.balks rfl more hbarred (hmore.trans ⟨[opened], ?_⟩)
      simp
    exact takesRemark_of_balks hc hbalks ⟨[line, close], rfl⟩
  · refine blockAt_before hopened hclose heof ?_
    rw [ParseState.before_append]
    exact hrun hs ((Reads.descend around).before [close]) true [] heof

/-- A comment behind a binding, at top level and in a block. -/
theorem ofTokens_remark_binding :
    let source : SourceFile := ⟨"m.vp", "let x: int = 1"⟩
    let place (column : Nat) : Span := ⟨"m.vp", ⟨1, column⟩, ⟨1, column⟩⟩
    let st : Statement := .binding false ⟨"x", place 5, .named "int"⟩ (some (.literal (place 14) (.integer "1")))
    let opened : Token := ⟨.leftBrace, "\x7b", "m.vp", ⟨1, 1⟩⟩
    let c : Token := ⟨.comment, "# one", "m.vp", ⟨1, 16⟩⟩
    let close : Token := ⟨.rightBrace, "\x7d", "m.vp", ⟨2, 1⟩⟩
    let around : ParseState := { rest := [], eof := .endOfFile "m.vp" ⟨2, 2⟩ }
    ofTokens (source.tokens ++ [source.lineEnd]) 8 = ⟨⟨[st]⟩, []⟩ ∧
      ofTokens (source.tokens ++ [c, source.lineEnd]) 8 = ⟨⟨[st, c.remark]⟩, []⟩ ∧
      blockAt 9 (around.before (opened :: (source.tokens ++ [c, source.lineEnd] ++ [close]))) =
        .ok ⟨[st, c.remark], opened.span.union close.span⟩ around := by
  intro source place st opened c close around
  have hclean : ofTokens (source.tokens ++ [source.lineEnd]) 8 = ⟨⟨[st]⟩, []⟩ := by
    subst source place st
    cbv
  have htakes : TakesRemark source.tokens := by
    constructor
    all_goals
      subst source
      decide +kernel
  obtain ⟨htop, hblock, -⟩ := ofTokens_remark 8 source.tokens [st] source.lineEnd c source.lineEnd rfl rfl rfl hclean
  exact ⟨hclean, htop.2 htakes, (hblock around opened close rfl rfl rfl).2 htakes⟩

/-- A comment behind a bare `return` is taken for its value. -/
theorem not_ofTokens_remark_return :
    let source : SourceFile := ⟨"m.vp", "return # done"⟩
    ∃ word c, source.tokens = [word, c] ∧ c.isComment = true ∧ source.lineEnd.kind = .newline ∧
      ofTokens [word, source.lineEnd] 8 = ⟨⟨[.return none word.span]⟩, []⟩ ∧
      ofTokens [word, c, source.lineEnd] 8 ≠ ⟨⟨[.return none word.span, c.remark]⟩, []⟩ ∧
      (ofTokens [word, c, source.lineEnd] 8).errors = [.unexpectedToken .comment "# done" c.span] := by
  intro source
  refine ⟨⟨.keyword .return, "return", "m.vp", ⟨1, 1⟩⟩, ⟨.comment, "# done", "m.vp", ⟨1, 8⟩⟩, ?_⟩
  have herrors : (ofTokens [⟨.keyword .return, "return", "m.vp", ⟨1, 1⟩⟩, ⟨.comment, "# done", "m.vp", ⟨1, 8⟩⟩,
      source.lineEnd] 8).errors = [.unexpectedToken .comment "# done" ⟨"m.vp", ⟨1, 8⟩, ⟨1, 13⟩⟩] := by
    subst source
    cbv
  refine ⟨?_, rfl, rfl, ?_, fun h => ?_, herrors⟩
  · subst source
    cbv
  · subst source
    cbv
  · rw [h] at herrors
    cases herrors

end ParsedProgram
end UnionScript
