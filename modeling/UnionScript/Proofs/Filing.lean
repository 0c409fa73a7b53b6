import UnionScript.Proofs.Descent
import UnionScript.Proofs.Placing
import UnionScript.Proofs.Runs
import UnionScript.Proofs.Sources
/-!
# Filing — for which expressions a walk files types

A walk that does not report nesting files types exactly once for every occurrence that it does not pass by (`Files`): this
is shown step by step, and by an induction over the tree.  The types are filed by span, so it is as important that no two
expressions of a file share one; since the tokens of a file come one behind the other, what is read from them is laid out
over them, and so it is (`Program.walk_files_once`).
-/
namespace UnionScript

/-- The spans under which types are filed for some occurrences. -/
def Occurrence.filed (os : List Occurrence) : List Span := (inferredOf os).map Occurrence.span

namespace Occurrence

theorem filed_append (os more : List Occurrence) : filed (os ++ more) = filed os ++ filed more := by
  rw [filed, inferredOf_append, List.map_append]
  rfl

theorem filed_lookedInto_false (os : List Occurrence) : filed (lookedInto false os) = [] := by
  rw [filed, inferredOf_lookedInto_false, List.map_nil]

end Occurrence

open Occurrence (filed filed_append filed_lookedInto_false lookedInto lookedInto_true)

namespace Check

variable {α β : Type} {limit : Nat} {spans more : List Span}

/-- A step that never takes a report of nesting back and, unless nesting is reported behind it, files types under some
spans, once under each and never an empty union. -/
def Files (spans : List Span) (step : Check α) : Prop := ∀ s : CheckState,
  (s.ReportsNesting → (step s).2.ReportsNesting) ∧
  (¬(step s).2.ReportsNesting → ∃ entries : List (Span × Union), (step s).2.types = entries ++ s.types ∧
    (entries.map Prod.fst).Perm spans ∧ ∀ t ∈ entries, t.2.isEmpty = false)

namespace Files

/-- One step after the other files what both file. -/
theorem bind {step : Check α} {next : α → Check β} (h : Files spans step) (hnext : ∀ a, Files more (next a)) :
    Files (spans ++ more) (step >>= next) := fun s => by
  obtain ⟨hkeeps, hfiles⟩ := h s
  obtain ⟨hkeeps', hfiles'⟩ := hnext (step s).1 (step s).2
  refine ⟨hkeeps' ∘ hkeeps, fun hquiet => ?_⟩
  obtain ⟨entries, htypes, hperm, hsome⟩ := hfiles (hquiet ∘ hkeeps')
  obtain ⟨entries', htypes', hperm', hsome'⟩ := hfiles' hquiet
  refine ⟨entries' ++ entries, ?_, ?_, fun t ht => (List.mem_append.1 ht).elim (hsome' t) (hsome t)⟩
  · show (next (step s).1 (step s).2).2.types = _
    rw [htypes', htypes, List.append_assoc]
  · rw [List.map_append]
    exact (hperm'.append hperm).trans List.perm_append_comm

theorem perm {step : Check α} (h : Files spans step) (hspans : spans.Perm more) : Files more step := fun s =>
  ⟨(h s).1, fun hquiet => let ⟨entries, htypes, hperm, hsome⟩ := (h s).2 hquiet
    ⟨entries, htypes, hperm.trans hspans, hsome⟩⟩

theorem cast {step : Check α} (h : Files spans step) (hspans : spans = more) : Files more step := hspans ▸ h

/-- A step that files nothing and keeps what is reported of nesting. -/
theorem nothing {step : Check α} (h : ∀ s, (step s).2.types = s.types ∧ (s.ReportsNesting → (step s).2.ReportsNesting)) :
    Files [] step := fun s => ⟨(h s).2, fun _ => ⟨[], (h s).1, .nil, List.forall_mem_nil _⟩⟩

end Files

theorem files_report (finding : Finding) (span : Span) (h : finding.isNesting = false) :
    Files [] (report finding span) := .nothing fun s => ⟨rfl, ((quiet_report finding span h) s).2.2⟩

theorem files_closed : LeafClosed fun {_} step => Files [] step where
  look _ := .nothing fun _ => ⟨rfl, id⟩
  bind := Files.bind
  report finding span h := files_report finding span (finding.isNesting_of_isOfLeaf h)
  package? name := .nothing fun s => ⟨rfl, ((quiet_package? name) s).2.2⟩
  requireDefined types span := .nothing fun s => ⟨rfl, ((quiet_requireDefined types span) s).2.2⟩
  bindVariable _ := .nothing fun _ => ⟨rfl, id⟩
  bindFunction _ := .nothing fun _ => ⟨rfl, id⟩

theorem files_change (c : Environment.Change) : Files [] (change c) := .nothing fun _ => ⟨rfl, id⟩

theorem files_declareType (d : TypeDeclaration) : Files [] (declareType d) :=
  files_closed.environment fun env => by
    split
    · exact files_closed.report _ _ (by split <;> rfl)
    · exact .bind (files_change _) fun _ => .bind (files_closed.requireDefined _ _) fun _ =>
        files_closed.requireAttributes _

namespace Files

/-- A step that files nothing in front plays no part. -/
theorem behind {step : Check α} {next : α → Check β} (h : Files [] step) (hnext : ∀ a, Files spans (next a)) :
    Files spans (step >>= next) := bind h hnext

/-- A step that files nothing and follows plays no part. -/
theorem andNothing {step : Check α} {next : α → Check β} (h : Files spans step) (hnext : ∀ a, Files [] (next a)) :
    Files spans (step >>= next) := (bind h hnext).cast (List.append_nil spans)

theorem andPure {step : Check α} (h : Files spans step) (f : α → β) : Files spans (step >>= fun a => pure (f a)) :=
  h.andNothing fun _ => files_closed.pure _

theorem ite {c : Bool} {step step' : Check α} (h : Files spans step) (h' : Files spans step') :
    Files spans (if c then step else step') := by
  cases c
  · exact h'
  · exact h

theorem within {body : Check Unit} (kind : FrameKind) (h : Files spans body) : Files spans (within kind body) :=
  behind (files_change _) fun _ => h.andNothing fun _ => files_change _

theorem returning {body : Check Unit} (types : Option Union) (h : Files spans body) :
    Files spans (returning types body) := fun s => h ((Act.enter types).apply s)

theorem visit {body : Check Union} (step : Nat) (span : Span) (h : Files spans body) :
    Files (spans ++ [span]) (visit limit step span body) := fun s => by
  rw [visit_eq]
  split
  · have hreports : (report (.nestingTooDeep limit) span s).2.ReportsNesting := ⟨_, List.mem_cons_self, rfl⟩
    exact ⟨fun _ => hreports, fun hquiet => absurd hreports hquiet⟩
  · obtain ⟨hkeeps, hfiles⟩ := h ((Act.descend step).apply s)
    refine ⟨hkeeps, fun hquiet => ?_⟩
    obtain ⟨entries, htypes, hperm, hsome⟩ := hfiles hquiet
    refine ⟨_ :: entries, congrArg (_ :: ·) htypes, ?_, List.forall_mem_cons.2 ⟨?_, hsome⟩⟩
    · exact (List.Perm.cons span hperm).trans (List.perm_append_singleton span spans).symm
    · show Union.isEmpty (if _ then Union.any else _) = false
      split
      · rfl
      · rename_i hempty
        exact Bool.eq_false_iff.2 hempty

end Files

/-! ## The walk -/

/-- Files what is filed for all that is inside of an expression, and the expression itself behind it. -/
theorem files_expression {e : Expression} {body : Check Union} (step : Nat) (h : Files (filed e.inside) body) :
    Files (filed e.occurrences) (visit limit step e.span body) := by
  refine (h.visit step e.span).cast ?_
  have haside : filed e.aside = [] := by
    cases e with
    | function span f =>
      obtain ⟨_, _, _, _, _, _, decorators⟩ := f
      rw [Expression.aside, FunctionLiteral.occurrencesAside, filed_lookedInto_false]
    | _ => rfl
  rw [Expression.occurrences_eq, filed_append, filed_append, haside]
  rfl

mutual

theorem files_infer (limit step : Nat) : ∀ e : Expression, Files (filed e.occurrences) (infer limit step e)
  | .identifier span name => by
    rw [infer]
    exact files_expression step (files_closed.typeOfName span name)
  | .literal span value => by
    rw [infer]
    exact files_expression step (files_closed.pure _)
  | .vector span elements => by
    rw [infer]
    exact files_expression step ((files_inferAll limit elements).andPure _)
  | .unary span operator operand => by
    rw [infer]
    exact files_expression step (files_infer limit 1 operand)
  | .binary span operator left right => by
    have hleft := files_infer limit 0 left
    have hright := files_infer limit 1 right
    unfold infer
    refine files_expression (e := .binary span operator left right) step ?_
    rw [Expression.inside, filed_append]
    cases operator with
    | assign | leftAssign | increment | decrement =>
      -- The value is looked at before its target, which is not looked into if it is a name.
      refine Files.perm (hright.bind fun value => ?_) List.perm_append_comm
      cases left with
      | identifier targetSpan name =>
        exact (files_closed.assignTo _ _ _ value).cast (filed_lookedInto_false _).symm
      | _ => exact hleft.andPure _
    | dollar | slot =>
      exact hleft.bind fun object => (files_closed.typeOfAttribute object right).cast (filed_lookedInto_false _).symm
    | namespaceAccess | internalAccess =>
      refine Files.cast (files_closed.bind (files_closed.checkExport left right) fun _ => files_closed.pure _) ?_
      show [] = filed (lookedInto false _) ++ filed (lookedInto false _)
      rw [filed_lookedInto_false, filed_lookedInto_false]
      rfl
    | pipe | magrittrPipe => exact hleft.bind fun _ => hright
    | _ => exact hleft.bind fun types => hright.andPure _
  | .conditional span condition consequence none => by
    rw [infer]
    refine files_expression (e := .conditional span condition consequence none) step ?_
    rw [Expression.inside, filed_append, filed_append]
    exact (files_infer limit 1 condition).bind fun _ =>
      (files_walkBlock limit .branch consequence).bind fun _ => files_closed.pure _
  | .conditional span condition consequence (some alternative) => by
    rw [infer]
    refine files_expression (e := .conditional span condition consequence (some alternative)) step ?_
    rw [Expression.inside, filed_append, filed_append, occurrencesOfElse]
    exact (files_infer limit 1 condition).bind fun _ =>
      (files_walkBlock limit .branch consequence).bind fun _ => (files_walkBlock limit .branch alternative).andPure _
  | .forLoop span loopVariable iterable ⟨statements, blockSpan⟩ => by
    rw [infer]
    refine files_expression (e := .forLoop span loopVariable iterable ⟨statements, blockSpan⟩) step ?_
    rw [Expression.inside, filed_append, Block.occurrences]
    exact (files_infer limit 1 iterable).bind fun types =>
      .behind (files_closed.requireLoopVariable loopVariable types) fun _ =>
        (Files.within .loop (.behind (files_change _) fun _ => files_walkStatements limit statements)).andPure _
  | .whileLoop span condition body => by
    rw [infer]
    refine files_expression (e := .whileLoop span condition body) step ?_
    rw [Expression.inside, filed_append]
    exact (files_infer limit 1 condition).bind fun _ => (files_walkBlock limit .loop body).andPure _
  | .repeatLoop span body => by
    rw [infer]
    exact files_expression (e := .repeatLoop span body) step ((files_walkBlock limit .loop body).andPure _)
  | .function span literal => by
    rw [infer]
    exact files_expression (e := .function span literal) step ((files_walkFunction limit literal).andPure _)
  | .call span callee arguments => by
    have hcallee := files_infer limit 0 callee
    have harguments := files_inferArguments limit arguments
    unfold infer
    refine files_expression (e := .call span callee arguments) step ?_
    rw [Expression.inside, filed_append]
    cases callee with
    | identifier nameSpan name =>
      refine Files.cast (Files.behind (files_closed.look fun env _ => env) fun env => harguments.andNothing fun types =>
        files_closed.finishCall _ _ _) ?_
      show _ = filed (lookedInto false _) ++ _
      rw [filed_lookedInto_false]
      rfl
    | _ => exact hcallee.bind fun _ => harguments.andPure _
  | .index span object arguments double => by
    rw [infer]
    refine files_expression (e := .index span object arguments double) step ?_
    rw [Expression.inside, filed_append]
    exact (files_infer limit 0 object).bind fun _ => (files_inferArguments limit arguments).andPure _

theorem files_inferAll (limit : Nat) : ∀ es : List Expression,
    Files (filed (occurrencesOfElements es)) (inferAll limit es)
  | [] => by
    rw [occurrencesOfElements]
    exact files_closed.pure _
  | e :: rest => by
    rw [inferAll, occurrencesOfElements, filed_append]
    exact (files_infer limit 1 e).bind fun _ => (files_inferAll limit rest).andPure _

theorem files_inferArguments (limit : Nat) : ∀ arguments : List Argument,
    Files (filed (occurrencesOfArguments arguments)) (inferArguments limit arguments)
  | [] => by
    rw [occurrencesOfArguments]
    exact files_closed.pure _
  | ⟨name, value⟩ :: rest => by
    rw [inferArguments, occurrencesOfArguments, filed_append]
    exact (files_infer limit 1 value).bind fun _ => (files_inferArguments limit rest).andPure _

theorem files_walkParameters (limit : Nat) : ∀ parameters : List Parameter,
    Files (filed (occurrencesOfParameters parameters)) (walkParameters limit parameters)
  | [] => by
    rw [occurrencesOfParameters]
    exact files_closed.pure _
  | ⟨name, span, types, none⟩ :: rest => by
    rw [walkParameters, occurrencesOfParameters]
    exact .behind (files_closed.requireSignature types span) fun _ =>
      .ite (files_walkParameters limit rest) (.behind (files_change _) fun _ => files_walkParameters limit rest)
  | ⟨name, span, types, some value⟩ :: rest => by
    rw [walkParameters, occurrencesOfParameters, filed_append]
    exact .behind (files_closed.requireSignature types span) fun _ => (files_infer limit 1 value).bind fun actual =>
      .behind (files_closed.requireMatch _ _ _ _) fun _ =>
        .ite (files_walkParameters limit rest) (.behind (files_change _) fun _ => files_walkParameters limit rest)

theorem files_walkFunction (limit : Nat) : ∀ f : FunctionLiteral, Files (filed f.occurrences) (walkFunction limit f)
  | ⟨name, nameSpan, receiver, parameters, returnTypes, ⟨statements, blockSpan⟩, decorators⟩ => by
    rw [walkFunction, FunctionLiteral.occurrences, filed_append, Block.occurrences]
    exact .behind (files_closed.declareFunction _) fun _ => .behind (files_closed.requireSignature _ _) fun _ =>
      .within .function (.behind (files_closed.declareReceiver receiver) fun _ =>
        (files_walkParameters limit parameters).bind fun _ =>
          .returning returnTypes (files_walkStatements limit statements))

theorem files_walkBlock (limit : Nat) (kind : FrameKind) : ∀ b : Block,
    Files (filed b.occurrences) (walkBlock limit kind b)
  | ⟨statements, span⟩ => by
    rw [walkBlock, Block.occurrences]
    exact .within kind (files_walkStatements limit statements)

theorem files_walkStatements (limit : Nat) : ∀ statements : List Statement,
    Files (filed (occurrencesOfStatements statements)) (walkStatements limit statements)
  | [] => by
    rw [occurrencesOfStatements]
    exact files_closed.pure _
  | s :: rest => by
    rw [walkStatements, occurrencesOfStatements, filed_append]
    exact (files_walkStatement limit s).bind fun _ => files_walkStatements limit rest

theorem files_walkStatement (limit : Nat) : ∀ s : Statement, Files (filed s.occurrences) (walkStatement limit s)
  | .binding constant target (some value) => by
    rw [walkStatement, Statement.occurrences]
    exact (files_infer limit 1 value).andNothing fun _ => files_closed.declareBinding _ _ _
  | .binding constant target none => by
    rw [walkStatement, Statement.occurrences]
    exact files_closed.declareBinding _ _ _
  | .typeDeclaration ⟨name, span, list, kind, types, attributes, decorators⟩ => by
    rw [walkStatement, Statement.occurrences, TypeDeclaration.occurrences, filed_lookedInto_false]
    exact files_declareType _
  | .return (some value) span => by
    rw [walkStatement, Statement.occurrences]
    exact (files_infer limit 1 value).andNothing fun _ => files_closed.checkReturn (fun _ => files_report _ _ rfl) _ _
  | .return none span => by
    rw [walkStatement, Statement.occurrences]
    exact files_closed.checkReturn (fun _ => files_report _ _ rfl) _ _
  | .defer e span => by
    rw [walkStatement, Statement.occurrences]
    have hrest : Files (filed e.occurrences) (infer limit 1 e >>= fun _ => pure ()) := (files_infer limit 1 e).andPure _
    exact .behind (files_closed.look fun env _ => env) fun env => .ite hrest (.behind (files_report _ _ rfl) fun _ => hrest)
  | .jump kind span => by
    rw [walkStatement, Statement.occurrences]
    exact files_closed.environment fun env => .ite (files_closed.pure _) (files_report _ _ rfl)
  | .block block => by
    rw [walkStatement, Statement.occurrences]
    exact files_walkBlock limit .block block
  | .comment text roxygen span => by
    rw [walkStatement, Statement.occurrences]
    exact files_closed.pure _
  | .expression e => by
    rw [walkStatement, Statement.occurrences]
    exact (files_infer limit 1 e).andPure _

end

end Check

/-! ## Files -/

/-- The tokens of a file name it. -/
theorem SourceFile.file_of_mem_line {source : SourceFile} {t : Token} (h : t ∈ source.line) : t.file = source.name := by
  rcases List.mem_append.1 h with h | h
  · obtain ⟨⟨p, ⟨role, run⟩⟩, -, htoken⟩ := List.mem_filterMap.1 h
    cases role with
    | token kind =>
      obtain rfl := Option.some.inj htoken
      rfl
    | blank | stray => cases htoken
  · obtain rfl := List.mem_singleton.1 h
    rfl

namespace AnnotatedProgram

/-- Where no two entries have one span, all of them are kept. -/
theorem firstOfRuns_of_nodup {entries : List (Span × Union)} (h : (entries.map Prod.fst).Nodup) :
    firstOfRuns entries = entries := by
  induction entries using firstOfRuns.induct with
  | case1 a b rest hsame ih =>
    exact absurd hsame fun heq => (List.nodup_cons.1 h).1 (heq ▸ List.mem_cons_self)
  | case2 a b rest hother ih => rw [firstOfRuns, if_neg hother, ih (List.nodup_cons.1 h).2]
  | case3 short hshort => rw [firstOfRuns.eq_2 short hshort]

/-- Where no two types are filed under one span, all of them are listed. -/
theorem listing_perm {a : AnnotatedProgram} (h : (a.types.map Prod.fst).Nodup) : a.listing.Perm a.types := by
  have hsorted := List.mergeSort_perm a.types fun s t => (s.1.compare t.1).isLE
  rw [listing, firstOfRuns_of_nodup ((hsorted.map Prod.fst).nodup_iff.2 h)]
  exact hsorted

end AnnotatedProgram

namespace Program

/-- **Every expression of a file has a span of its own, under which a walk files its types once.**  Whatever the text of
the file is, the spans of any two expressions in it are apart or one is inside the other, an expression's is around those
of its parts, and no two are the same.  So if a walk reports no nesting, then of the expressions it does not pass by each
has one entry in the list of types, never an empty union, and there are no other entries. -/
theorem walk_files_once (options : Options) (source : SourceFile) :
    let program := (Session.read options [source]).program
    let os := occurrencesOfStatements program.statements
    ((∀ o ∈ os, o.span.file = source.name ∧ o.span.first ≤ o.span.last) ∧
      os.Pairwise (fun o p => o.span.IsClear p.span) ∧
      (∀ o ∈ os, ∀ p ∈ o.expression.inside, p.span.IsWithin o.span) ∧ (os.map Occurrence.span).Nodup) ∧
    ∀ (environment : Environment) (packages : Option PackageCache) (limit : Nat),
      let out := program.walk environment packages limit
      (∀ r ∈ out.reports, r.finding.isNesting = false) →
        let listing := (program.annotate out).listing
        (listing.map Prod.fst).Perm ((os.filter Occurrence.inferred).map Occurrence.span) ∧
          (listing.map Prod.fst).Nodup ∧ ∀ entry ∈ listing, entry.2.isEmpty = false := by
  intro program os
  obtain ⟨run, hrun, hlaid⟩ := Parse.laid_ofTokens (TokenStream.scan [source]).tokens options.maxDepth
  rw [ofTokens_scan, rest_ofSources_singleton] at hrun
  have hplaced : Placed run := source.placed_tokens.ofInfix hrun.isInfix
  have hnodup : (os.map Occurrence.span).Nodup := hlaid.nodup hplaced
  refine ⟨⟨fun o ho => ?_, hlaid.clear hplaced, hlaid.inside hplaced, hnodup⟩, fun environment packages limit => ?_⟩
  · obtain ⟨part, hpart, hspan⟩ := hlaid.covered o ho
    obtain ⟨t, ht, hfile⟩ := hspan.file (hplaced.ofInfix hpart)
    exact ⟨hfile.trans (SourceFile.file_of_mem_line (hrun.subset (hpart.subset ht))),
      hspan.first_le_last (hplaced.ofInfix hpart)⟩
  · intro out hquiet listing
    obtain ⟨entries, htypes, hperm, hsome⟩ :=
      (Check.files_walkStatements limit program.statements { environment, packages }).2 (Program.not_reportsNesting hquiet)
    have hentries : out.types = entries := htypes.trans (List.append_nil entries)
    have hkeys : (out.types.map Prod.fst).Perm (filed os) := hentries ▸ hperm
    have honce : (out.types.map Prod.fst).Nodup :=
      hkeys.nodup_iff.2 (hnodup.sublist (List.filter_sublist.map _))
    have hlisting : listing.Perm out.types := AnnotatedProgram.listing_perm honce
    exact ⟨(hlisting.map _).trans hkeys, (hlisting.map _).nodup_iff.2 honce,
      fun entry hentry => hsome entry (hentries ▸ hlisting.subset hentry)⟩

/-- In `f(-1)` the call, `-1` and `1` have types, and the name in front of the call has none. -/
theorem walk_files_once_call :
    let program := (Session.read {} [⟨"m.vp", "f(-1)"⟩]).program
    let out := program.walk .initial none 4
    let span (first last : Nat) : Span := ⟨"m.vp", ⟨1, first⟩, ⟨1, last⟩⟩
    (∀ r ∈ out.reports, r.finding.isNesting = false) ∧
      ((program.annotate out).listing.map Prod.fst).Perm [span 4 4, span 3 4, span 1 5] := by
  intro program out span
  have hreports : out.reports = [] := by
    subst out program
    cbv
  have hquiet : ∀ r ∈ out.reports, r.finding.isNesting = false := by
    rw [hreports]
    exact List.forall_mem_nil _
  have hspans : ((occurrencesOfStatements program.statements).filter Occurrence.inferred).map Occurrence.span =
      [span 4 4, span 3 4, span 1 5] := by
    subst program span
    cbv
  refine ⟨hquiet, ?_⟩
  rw [← hspans]
  exact ((walk_files_once {} ⟨"m.vp", "f(-1)"⟩).2 .initial none 4 hquiet).1

end Program
end UnionScript
