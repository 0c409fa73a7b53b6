import UnionScript.Session
import UnionScript.Proofs.Declaring
import UnionScript.Proofs.Restoring
/-!
# Sources — what is read from the files of a program

Reading the files of a program never stops before their end (`ofTokens_scan`).  A file in front of others that holds
bare declarations only is read as these declarations, and the others as if it were not there (`read_behind`).  A type
file of declared types is read as declarations of what is restored of each (`restored_typeFile`), which are alike types
(`read_typeFile`).
-/
namespace UnionScript

open Lexeme Grammar Parse

/-! ## Where reading starts -/

namespace SourceFile

/-- The tokens of a file with its line end. -/
def line (source : SourceFile) : List Token := source.tokens ++ [source.lineEnd]

theorem kind_ne_eof_of_line {source : SourceFile} : ∀ t ∈ source.line, t.kind ≠ .eof :=
  List.forall_mem_append.2 ⟨fun _ => kind_ne_eof, List.forall_mem_singleton.2 nofun⟩

theorem nameable_line (source : SourceFile) : Nameable source.line :=
  List.forall_mem_append.2 ⟨fun _ => isName, List.forall_mem_singleton.2 nofun⟩

theorem not_endsInLine (source : SourceFile) : ¬EndsInLine source.line := by
  rintro ⟨init, t, hline, ht⟩
  obtain ⟨-, hlast⟩ := List.append_inj' hline rfl
  exact ht ((List.cons.inj hlast).1 ▸ rfl)

end SourceFile

/-- The state in which reading some files starts. -/
def ParseState.ofSources (sources : List SourceFile) : ParseState :=
  { rest := sources.flatMap SourceFile.line, eof := TokenStream.endOf sources }

theorem eof_ofSources (sources : List SourceFile) : (ParseState.ofSources sources).eof.kind = .eof := by
  show (TokenStream.endOf sources).kind = .eof
  unfold TokenStream.endOf
  split <;> rfl

theorem ofTokens_scan (sources : List SourceFile) :
    ParseState.ofTokens (TokenStream.scan sources).tokens = ParseState.ofSources sources := by
  have hproper : ∀ t ∈ sources.flatMap SourceFile.line, ParseState.isProper t = true := by
    intro t ht
    obtain ⟨source, -, ht⟩ := List.mem_flatMap.1 ht
    exact bne_iff_ne.2 (SourceFile.kind_ne_eof_of_line t ht)
  have hend : ¬ParseState.isProper (TokenStream.endOf sources) = true := by
    rw [ParseState.isProper, show (TokenStream.endOf sources).kind = .eof from eof_ofSources sources]
    decide
  have htokens : (TokenStream.scan sources).tokens =
      sources.flatMap SourceFile.line ++ [TokenStream.endOf sources] := rfl
  unfold ParseState.ofTokens ParseState.ofSources
  rw [htokens, List.takeWhile_append_of_pos hproper, List.dropWhile_append_of_pos hproper,
    List.takeWhile_cons_of_neg hend, List.dropWhile_cons_of_neg hend, List.append_nil]
  rfl

/-- A file in front of others puts its tokens in front of theirs. -/
theorem ofSources_cons (d m : SourceFile) (rest : List SourceFile) :
    ParseState.ofSources (d :: m :: rest) = (ParseState.ofSources (m :: rest)).before d.line := by
  have hend : TokenStream.endOf (d :: m :: rest) = TokenStream.endOf (m :: rest) := by
    unfold TokenStream.endOf
    rw [List.getLast?_cons_cons]
  rw [ParseState.ofSources, hend]
  rfl

/-- Reading the statements of some files answers. -/
theorem exists_statements (sources : List SourceFile) (limit : Nat) :
    ∃ statements s, (ParseState.ofSources sources).Continues s ∧
      ∀ taken, statementsFrom limit false taken (.ofSources sources) = .ok (taken ++ statements) s := by
  obtain ⟨statements, s, hs, -, h⟩ := statementsFrom_ok (eof_ofSources sources)
  exact ⟨statements, s, hs, h⟩

/-- What is read from some files is what their statements are read as. -/
theorem read_of_statementsFrom {options : Options} {sources : List SourceFile} {statements : List Statement}
    {s : ParseState} (h : statementsFrom options.maxDepth false [] (.ofSources sources) = .ok statements s) :
    (Session.read options sources).program = ⟨statements⟩ ∧ (Session.read options sources).diagnostics =
      (sources.flatMap SourceFile.strays).map StrayCharacter.diagnostic ++ s.errors.reverse.map ParseError.diagnostic := by
  have hparsed : ParsedProgram.ofTokens (TokenStream.scan sources).tokens options.maxDepth =
      ⟨⟨statements⟩, s.errors.reverse⟩ := by
    unfold ParsedProgram.ofTokens ParsedProgram.run
    rw [ofTokens_scan, statements_eq, h]
  unfold Session.read
  dsimp only
  rw [hparsed]
  exact ⟨rfl, rfl⟩

/-! ## Files of declarations -/

theorem rest_ofSources_singleton (source : SourceFile) : (ParseState.ofSources [source]).rest = source.line :=
  List.append_nil _

theorem ofSources_singleton (source : SourceFile) :
    ParseState.ofSources [source] = ({ rest := [], eof := TokenStream.endOf [source] } : ParseState).before source.line :=
  rfl

/-- A file that is read without errors as bare declarations comes from their tokens. -/
theorem declarations_of_read {source : SourceFile} {limit : Nat} {statements : List Statement} {s : ParseState}
    (h : statementsFrom limit false [] (.ofSources [source]) = .ok statements s) (herrors : s.errors = [])
    (hbare : ∀ st ∈ statements, st.IsBareDeclaration) : Declarations source.line statements := by
  have hrest := rest_ofSources_singleton source
  have hproper : ∀ t ∈ (ParseState.ofSources [source]).rest, t.kind ≠ .eof := by
    rw [hrest]
    exact SourceFile.kind_ne_eof_of_line
  have hlast : ¬EndsInLine (ParseState.ofSources [source]).rest := by
    rw [hrest]
    exact source.not_endsInLine
  have hnone : s.errors.length = (ParseState.ofSources [source]).errors.length := by
    rw [herrors]
    rfl
  have hread : statementsFrom limit false [] (.ofSources [source]) = .ok ([] ++ statements) s := h
  have hdeclarations := of_statementsFrom (eof_ofSources _) hproper hlast hread hnone hbare
  rwa [hrest] at hdeclarations

/-- The tokens of declarations are read as these, and nothing else is left. -/
theorem read_declarations {source : SourceFile} {statements : List Statement} (h : Declarations source.line statements)
    (limit : Nat) : ∃ s, s.errors = [] ∧
      statementsFrom limit false [] (.ofSources [source]) = .ok statements s := by
  let final : ParseState := { rest := [], eof := TokenStream.endOf [source] }
  have heof : final.eof.kind = .eof := eof_ofSources [source]
  refine ⟨final, rfl, ?_⟩
  rw [ofSources_singleton, statementsFrom_before h heof, List.nil_append, statementsFrom_eq heof,
    if_pos (.inl heof)]
  rfl

/-- **Declarations in front of a file are read as if they stood alone, and so is the file.** -/
theorem read_behind {d m : SourceFile} {statements behind : List Statement} {s : ParseState} {limit : Nat}
    (h : Declarations d.line statements)
    (hm : ∀ taken, statementsFrom limit false taken (.ofSources [m]) = .ok (taken ++ behind) s) :
    statementsFrom limit false [] (.ofSources [d, m]) = .ok (statements ++ behind) s := by
  rw [ofSources_cons, statementsFrom_before h (eof_ofSources [m]), List.nil_append, hm]

/-! ## Type files -/

/-- The words of the declarations of some types, each on lines of its own and with a blank line between them. -/
def fileWords (ds : List TypeDeclaration) : List Word :=
  List.intercalate [(.newline, "\n")] (ds.map fun d => (Check.entryOf d).declarationWords ++ [(.newline, "\n")])

/-- Texts on lines of their own spell their words, and a blank line between them is a line end. -/
theorem spells_file {α : Type} {text : α → String} {words : α → List Word} {as : List α}
    (h : ∀ a ∈ as, Spells (text a).toList (words a ++ [(.newline, "\n")])) :
    Spells ("\n".intercalate (as.map text)).toList
      (List.intercalate [(.newline, "\n")] (as.map fun a => words a ++ [(.newline, "\n")])) := by
  have hsign : Marks "\n".toList [(.newline, "\n")] := marks_newline
  have hdelimits (rest : List Char) : Delimits ("\n".toList ++ rest) := delimits_cons (by decide) _
  exact spells_intercalate hsign hdelimits (forall₂_map h)

theorem spells_typeFile {ds : List TypeDeclaration} (h : ∀ d ∈ ds, (Check.entryOf d).IsNamed) :
    Spells ("\n".intercalate (ds.map fun d => (Check.entryOf d).declaration)).toList (fileWords ds) :=
  spells_file fun d hd => TypeEntry.spells_declaration (h d hd)

/-- Declarations of what is restored of others. -/
def RestoredDeclarations : List TypeDeclaration → List TypeDeclaration → Prop :=
  List.Forall₂ fun d d' => (Check.entryOf d').unplaced = (Check.entryOf d).restored.unplaced

theorem RestoredDeclarations.alike {ds ds' : List TypeDeclaration} (h : RestoredDeclarations ds ds')
    (hany : ∀ d ∈ ds, d.name ≠ "any") : Check.AlikeDeclarations ds ds' := by
  induction h with
  | nil => exact .nil
  | cons hd _ ih =>
    obtain ⟨hfirst, hrest⟩ := List.forall_mem_cons.1 hany
    exact .cons (alike_of_restored hd hfirst) (ih hrest)

/-- Tokens that say some words apart by line ends fall into what says each of them and the line ends behind it. -/
theorem exists_groups {α : Type} {words : α → List Word} : ∀ {as : List α} {ts : List Token},
    ts.map Token.word = List.intercalate [(.newline, "\n")] (as.map fun a => words a ++ [(.newline, "\n")]) →
    ∃ groups : List (List Token × List Token), ts = groups.flatMap (fun g => g.1 ++ g.2) ∧
      List.Forall₂ (fun a g => g.1.map Token.word = words a ∧ g.2 ≠ [] ∧ ∀ t ∈ g.2, t.kind = .newline) as groups
  | [], ts, h => ⟨[], List.map_eq_nil_iff.1 h, .nil⟩
  | a :: as, ts, h => by
    rw [List.map_cons, intercalate_cons, List.append_assoc] at h
    obtain ⟨first, ts, rfl, hfirst, h⟩ := List.map_eq_append_iff.1 h
    obtain ⟨line, ts, rfl, hline, h⟩ := List.map_eq_cons_iff.1 h
    obtain ⟨hline, -⟩ := of_word hline
    cases as with
    | nil =>
      rw [List.map_eq_nil_iff.1 h]
      refine ⟨[(first, [line])], by simp, .cons ⟨hfirst, List.cons_ne_nil _ _, ?_⟩ .nil⟩
      exact List.forall_mem_singleton.2 hline
    | cons b as =>
      rw [List.map_cons, List.flatMap_cons, List.append_assoc] at h
      obtain ⟨blank, ts, rfl, hblank, h⟩ := List.map_eq_cons_iff.1 h
      obtain ⟨hblank, -⟩ := of_word hblank
      have hmore : ts.map Token.word = List.intercalate [(.newline, "\n")]
          ((b :: as).map fun a => words a ++ [(.newline, "\n")]) := by
        rw [List.map_cons, intercalate_cons]
        exact h
      obtain ⟨groups, rfl, hgroups⟩ := exists_groups hmore
      refine ⟨(first, [line, blank]) :: groups, by simp, .cons ⟨hfirst, List.cons_ne_nil _ _, ?_⟩ hgroups⟩
      exact List.forall_mem_cons.2 ⟨hline, List.forall_mem_singleton.2 hblank⟩

/-- Tokens that say the words of some types are declarations of what is restored of these, behind any separators. -/
theorem declarations_of_groups {end_ : Token} (hend : isSeparator end_) {ds : List TypeDeclaration}
    {groups : List (List Token × List Token)}
    (h : List.Forall₂ (fun d g => g.1.map Token.word = (Check.entryOf d).declarationWords ∧ g.2 ≠ [] ∧
      ∀ t ∈ g.2, t.kind = .newline) ds groups) (hnamed : ∀ d ∈ ds, (Check.entryOf d).IsNamed) :
    ∀ {separators : List Token}, (∀ t ∈ separators, isSeparator t) →
    ∃ read, Declarations (separators ++ (groups.flatMap (fun g => g.1 ++ g.2) ++ [end_])) read ∧
      RestoredDeclarations ds (Program.typeDeclarations ⟨read⟩) := by
  induction h with
  | nil =>
    intro separators hseparators
    exact ⟨[], .nil (List.forall_mem_append.2 ⟨hseparators, List.forall_mem_singleton.2 hend⟩), .nil⟩
  | @cons d g ds groups hg _ ih =>
    intro separators hseparators
    obtain ⟨first, lines⟩ := g
    obtain ⟨hfirst, hsome, hlines⟩ :
      first.map Token.word = (Check.entryOf d).declarationWords ∧ lines ≠ [] ∧ ∀ t ∈ lines, t.kind = .newline := hg
    obtain ⟨hd, hds⟩ := List.forall_mem_cons.1 hnamed
    obtain ⟨d', hd', hrestored⟩ := restored_of_declarationWords hd hfirst
    have hbreak : ∀ t ∈ lines, isSeparator t = true ∧ endsDeclaration t = true := by
      intro t ht
      rw [isSeparator, endsDeclaration, hlines t ht]
      exact ⟨rfl, rfl⟩
    obtain ⟨read, hread, hall⟩ := ih hds fun t ht => (hbreak t ht).1
    have hall' : RestoredDeclarations (d :: ds) (d' :: Program.typeDeclarations ⟨read⟩) := .cons hrestored hall
    refine ⟨.typeDeclaration d' :: read, ?_, hall'⟩
    have hstop : (lines ++ (groups.flatMap (fun g => g.1 ++ g.2) ++ [end_])).head?.any endsDeclaration = true := by
      obtain ⟨line, breaks, rfl⟩ := List.exists_cons_of_ne_nil hsome
      exact (hbreak line List.mem_cons_self).2
    have hdeclarations := Declarations.declaration hseparators hd' hstop hread
    simpa only [List.flatMap_cons, List.append_assoc] using hdeclarations

/-- **A type file is read as declarations of what is restored of its types**, and no character of it is left over. -/
theorem restored_typeFile {ds : List TypeDeclaration} (h : ∀ d ∈ ds, (Check.entryOf d).IsNamed)
    {source : SourceFile} (htext : source.text = "\n".intercalate (ds.map fun d => (Check.entryOf d).declaration)) :
    source.strays = [] ∧ ∃ read, Declarations source.line read ∧
      RestoredDeclarations ds (Program.typeDeclarations ⟨read⟩) := by
  have hspells : Spells source.text.toList (fileWords ds) := by
    rw [htext]
    exact spells_typeFile h
  obtain ⟨htokens, hstrays⟩ := SourceFile.of_spells hspells
  obtain ⟨groups, hgroups, hwords⟩ := exists_groups htokens
  have hend : isSeparator source.lineEnd = true := rfl
  have hnone : ∀ t ∈ ([] : List Token), isSeparator t := fun t ht => absurd ht List.not_mem_nil
  obtain ⟨read, hread, hrestored⟩ := declarations_of_groups hend hwords h hnone
  rw [SourceFile.line, hgroups]
  exact ⟨hstrays, read, hread, hrestored⟩

/-- **A type file is read as declarations of types that are alike**, and no character of it is left over. -/
theorem read_typeFile {ds : List TypeDeclaration} (h : ∀ d ∈ ds, (Check.entryOf d).IsNamed ∧ d.name ≠ "any")
    {source : SourceFile} (htext : source.text = "\n".intercalate (ds.map fun d => (Check.entryOf d).declaration)) :
    source.strays = [] ∧ ∃ read, Declarations source.line read ∧
      Check.AlikeDeclarations ds (Program.typeDeclarations ⟨read⟩) := by
  obtain ⟨hstrays, read, hread, hrestored⟩ := restored_typeFile (fun d hd => (h d hd).1) htext
  exact ⟨hstrays, read, hread, hrestored.alike fun d hd => (h d hd).2⟩

/-- The types of declarations are made of the identifiers among their tokens. -/
theorem Grammar.Declarations.isNamed {ts : List Token} {read : List Statement} (h : Declarations ts read)
    (hnames : Nameable ts) : ∀ d ∈ Program.typeDeclarations ⟨read⟩, (Check.entryOf d).IsNamed := by
  induction h with
  | nil => nofun
  | comment _ _ _ ih =>
    obtain ⟨-, hnames⟩ := hnames.of_append
    exact ih hnames.of_append.2
  | declaration _ h _ _ ih =>
    obtain ⟨-, hnames⟩ := hnames.of_append
    exact List.forall_mem_cons.2 ⟨h.isNamed hnames.of_append.1, ih hnames.of_append.2⟩

end UnionScript
