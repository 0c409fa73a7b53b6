import Mathlib
import UnionScript.Check.Annotated
import UnionScript.Proofs.Leaves
import UnionScript.Proofs.Levels
import UnionScript.Token.Stream
/-!
# Descent — how deep a walk goes

A walk reports that expressions nest too deep exactly if there are more levels below the place it is at than the limit
leaves, whatever is in scope (`Descends`).  For a whole program that is read under the limit it is walked under, this
says which programs are read without complaint and yet reported: those in which a branch behind an `else`, or the default
of a decorated function's parameter, takes the walk a level further than the grammar went.
-/
namespace UnionScript

/-- Whether it was reported that expressions nest too deep. -/
def CheckState.ReportsNesting (s : CheckState) : Prop := ∃ r ∈ s.reports, r.finding.isNesting = true

theorem Program.not_reportsNesting {program : Program} {environment : Environment} {packages : Option PackageCache}
    {limit : Nat} (h : ∀ r ∈ (program.walk environment packages limit).reports, r.finding.isNesting = false) :
    ¬(Check.walkStatements limit program.statements { environment, packages }).2.ReportsNesting :=
  fun ⟨r, hr, hnesting⟩ => Bool.false_ne_true ((h r (List.mem_reverse.2 hr)).symm.trans hnesting)

namespace Check

variable {α β : Type} {limit n m : Nat}

/-- A step that stays at its depth and reports nothing about it. -/
def Quiet (step : Check α) : Prop :=
  ∀ s, (step s).2.depth = s.depth ∧ ((step s).2.ReportsNesting ↔ s.ReportsNesting)

/-- A step that goes so many levels down and comes back, and reports that exactly if it is beyond the limit. -/
def Descends (limit n : Nat) (step : Check α) : Prop :=
  ∀ s, s.depth ≤ limit →
    (step s).2.depth = s.depth ∧ ((step s).2.ReportsNesting ↔ s.ReportsNesting ∨ limit < s.depth + n)

/-! ## Steps that stay where they are -/

theorem reportsNesting_report {s : CheckState} {rs : List Report} (h : ∀ r ∈ rs, r.finding.isNesting = false) :
    ((Act.report rs).apply s).ReportsNesting ↔ s.ReportsNesting := by
  constructor
  · rintro ⟨r, hr, hnesting⟩
    rcases List.mem_append.1 hr with hr | hr
    · exact absurd hnesting (Bool.eq_false_iff.1 (h r hr))
    · exact ⟨r, hr, hnesting⟩
  · rintro ⟨r, hr, hnesting⟩
    exact ⟨r, List.mem_append_right _ hr, hnesting⟩

theorem quiet_bind {step : Check α} {next : α → Check β} (h : Quiet step) (hnext : ∀ a, Quiet (next a)) :
    Quiet (step >>= next) := fun s =>
  have hrest := hnext (step s).1 (step s).2
  ⟨hrest.1.trans (h s).1, hrest.2.trans (h s).2⟩

theorem quiet_change (c : Environment.Change) : Quiet (change c) := fun _ => ⟨rfl, Iff.rfl⟩

theorem quiet_requireDefined (types : Union) (span : Span) : Quiet (requireDefined types span) := fun s => by
  refine ⟨rfl, reportsNesting_report fun r hr => ?_⟩
  obtain ⟨t, -, rfl⟩ := List.mem_map.1 (List.mem_reverse.1 hr)
  rfl

theorem quiet_package? (name : String) : Quiet (package? name) := fun _ => ⟨rfl, Iff.rfl⟩

theorem quiet_report (finding : Finding) (span : Span) (h : finding.isNesting = false) : Quiet (report finding span) :=
  fun _ =>
    have hone : ∀ r ∈ [(⟨finding, span⟩ : Report)], r.finding.isNesting = false := List.forall_mem_singleton.2 h
    ⟨rfl, reportsNesting_report hone⟩

theorem quiet_closed : LeafClosed fun {_} step => Quiet step where
  look _ _ := ⟨rfl, Iff.rfl⟩
  bind := quiet_bind
  report finding span h := quiet_report finding span (finding.isNesting_of_isOfLeaf h)
  package? := quiet_package?
  requireDefined := quiet_requireDefined
  bindVariable _ := quiet_change _
  bindFunction _ := quiet_change _

theorem quiet_declareType (d : TypeDeclaration) : Quiet (declareType d) :=
  quiet_closed.environment fun env => by
    split
    · exact quiet_closed.report _ _ (by split <;> rfl)
    · exact quiet_bind (quiet_change _) fun _ => quiet_bind (quiet_requireDefined _ _) fun _ =>
        quiet_closed.requireAttributes _

/-! ## Steps that go down -/

namespace Descends

theorem ofQuiet {step : Check α} (h : Quiet step) : Descends limit 0 step := fun s hs => by
  refine ⟨(h s).1, (h s).2.trans ⟨Or.inl, ?_⟩⟩
  rintro (hbefore | hbeyond)
  · exact hbefore
  · omega

/-- One step after the other goes as far down as the one that goes further. -/
theorem bind {step : Check α} {next : α → Check β} (h : Descends limit n step)
    (hnext : ∀ a, Descends limit m (next a)) : Descends limit (max n m) (step >>= next) := fun s hs => by
  obtain ⟨hdepth, hreports⟩ := h s hs
  obtain ⟨hdepth', hreports'⟩ := hnext (step s).1 (step s).2 (hdepth ▸ hs)
  refine ⟨hdepth'.trans hdepth, hreports'.trans ?_⟩
  rw [hreports, hdepth, or_assoc]
  refine or_congr Iff.rfl ?_
  omega

theorem cast {step : Check α} (h : Descends limit n step) (hn : n = m) : Descends limit m step := hn ▸ h

/-- A quiet step in front plays no part. -/
theorem behind {step : Check α} {next : α → Check β} (h : Quiet step) (hnext : ∀ a, Descends limit m (next a)) :
    Descends limit m (step >>= next) := (bind (ofQuiet h) hnext).cast (Nat.zero_max m)

/-- A quiet step that follows plays no part. -/
theorem andQuiet {step : Check α} {next : α → Check β} (h : Descends limit n step) (hnext : ∀ a, Quiet (next a)) :
    Descends limit n (step >>= next) := (bind h fun a => ofQuiet (hnext a)).cast (Nat.max_zero n)

theorem andPure {step : Check α} (h : Descends limit n step) (f : α → β) :
    Descends limit n (step >>= fun a => pure (f a)) := h.andQuiet fun _ => quiet_closed.pure _

theorem visit {body : Check Union} (step : Nat) (span : Span) (h : Descends limit n body) :
    Descends limit (step + n) (visit limit step span body) := fun s hs => by
  rw [visit_eq]
  split
  · rename_i hbeyond
    refine ⟨rfl, iff_of_true ⟨_, List.mem_cons_self, rfl⟩ (.inr (by omega))⟩
  · rename_i hwithin
    let deeper : CheckState := (Act.descend step).apply s
    obtain ⟨hdepth, hreports⟩ := h deeper (Nat.le_of_not_lt hwithin)
    refine ⟨?_, hreports.trans (or_congr Iff.rfl ?_)⟩
    · show (body deeper).2.depth - step = s.depth
      rw [hdepth]
      exact Nat.add_sub_cancel s.depth step
    · show limit < s.depth + step + n ↔ _
      rw [Nat.add_assoc]

theorem ite {c : Bool} {step step' : Check α} (h : Descends limit n step) (h' : Descends limit n step') :
    Descends limit n (if c then step else step') := by
  cases c
  · exact h'
  · exact h

theorem within {body : Check Unit} (kind : FrameKind) (h : Descends limit n body) :
    Descends limit n (within kind body) :=
  behind (quiet_change _) fun _ => h.andQuiet fun _ => quiet_change _

theorem returning {body : Check Unit} (types : Option Union) (h : Descends limit n body) :
    Descends limit n (returning types body) :=
  fun s hs => h ((Act.enter types).apply s) hs

end Descends

/-! ## The walk -/

/-- For the walk what stands behind an `else` is a block like any other. -/
theorem heightOfElse_one (b : Block) : heightOfElse 1 (some b) = b.height 1 := by
  obtain ⟨statements, span⟩ := b
  unfold heightOfElse
  split
  · rename_i h
    exact nomatch h
  · rename_i e _ h
    cases h
    rw [Block.height, heightOfStatements, heightOfStatements, Statement.height, Nat.max_zero, ite_self]
  · rename_i h
    cases h
    rw [Block.height]

mutual

theorem descends_infer (limit step : Nat) : ∀ e : Expression, Descends limit (step + e.height 1) (infer limit step e)
  | .identifier span name => by
    rw [infer]
    exact .visit step span (.ofQuiet (quiet_closed.typeOfName span name))
  | .literal span value => by
    rw [infer]
    exact .visit step span (.ofQuiet (quiet_closed.pure _))
  | .vector span elements => by
    rw [infer]
    exact .visit step span ((descends_inferAll limit elements).andPure _)
  | .unary span operator operand => by
    rw [infer]
    exact .visit step span (descends_infer limit 1 operand)
  | .binary span operator left right => by
    have hright := descends_infer limit 1 right
    have hleft := (descends_infer limit 0 left).cast (Nat.zero_add _)
    unfold infer
    refine .visit step span ?_
    cases operator with
    | assign | leftAssign | increment | decrement =>
      -- The value is looked at before its target, which is not looked into if it is a name.
      refine (hright.bind fun value => ?_).cast (Nat.max_comm _ _)
      split
      · exact .ofQuiet (quiet_closed.assignTo _ _ _ value)
      · exact hleft.andPure _
    | dollar | slot => exact hleft.andQuiet fun object => quiet_closed.typeOfAttribute object right
    | namespaceAccess | internalAccess =>
      exact .ofQuiet (quiet_bind (quiet_closed.checkExport left right) fun _ => quiet_closed.pure _)
    | pipe | magrittrPipe => exact hleft.bind fun _ => hright
    | _ => exact hleft.bind fun types => hright.andPure _
  | .conditional span condition consequence none => by
    rw [infer]
    exact .visit step span ((descends_infer limit 1 condition).bind fun _ =>
      (descends_walkBlock limit .branch consequence).bind fun _ => .ofQuiet (quiet_closed.pure _))
  | .conditional span condition consequence (some alternative) => by
    rw [infer]
    have halternative := (descends_walkBlock limit .branch alternative).cast (heightOfElse_one alternative).symm
    exact .visit step span ((descends_infer limit 1 condition).bind fun _ =>
      (descends_walkBlock limit .branch consequence).bind fun _ => halternative.andPure _)
  | .forLoop span loopVariable iterable ⟨statements, blockSpan⟩ => by
    rw [infer]
    exact .visit step span ((descends_infer limit 1 iterable).bind fun types =>
      .behind (quiet_closed.requireLoopVariable loopVariable types) fun _ =>
        (Descends.within .loop (.behind (quiet_change _) fun _ =>
          descends_walkStatements limit statements)).andPure _)
  | .whileLoop span condition body => by
    rw [infer]
    exact .visit step span ((descends_infer limit 1 condition).bind fun _ =>
      (descends_walkBlock limit .loop body).andPure _)
  | .repeatLoop span body => by
    rw [infer]
    exact .visit step span ((descends_walkBlock limit .loop body).andPure _)
  | .function span literal => by
    rw [infer]
    exact .visit step span ((descends_walkFunction limit literal).andPure _)
  | .call span callee arguments => by
    have hcallee := (descends_infer limit 0 callee).cast (Nat.zero_add _)
    have harguments := descends_inferArguments limit arguments
    unfold infer
    refine .visit step span ?_
    split
    · exact (Descends.behind (quiet_closed.look fun env _ => env) fun env => harguments.andQuiet fun types =>
        quiet_closed.finishCall _ _ _).cast (Nat.zero_max _).symm
    · exact hcallee.bind fun _ => harguments.andPure _
  | .index span object arguments double => by
    rw [infer]
    exact .visit step span (((descends_infer limit 0 object).cast (Nat.zero_add _)).bind fun _ =>
      (descends_inferArguments limit arguments).andPure _)

theorem descends_inferAll (limit : Nat) : ∀ es : List Expression,
    Descends limit (heightOfAll 1 es) (inferAll limit es)
  | [] => .ofQuiet (quiet_closed.pure _)
  | e :: rest => by
    rw [inferAll]
    exact (descends_infer limit 1 e).bind fun _ => (descends_inferAll limit rest).andPure _

theorem descends_inferArguments (limit : Nat) : ∀ arguments : List Argument,
    Descends limit (heightOfArguments 1 arguments) (inferArguments limit arguments)
  | [] => .ofQuiet (quiet_closed.pure _)
  | ⟨name, value⟩ :: rest => by
    rw [inferArguments]
    exact (descends_infer limit 1 value).bind fun _ => (descends_inferArguments limit rest).andPure _

theorem descends_walkParameters (limit : Nat) : ∀ parameters : List Parameter,
    Descends limit (heightOfParameters 1 1 parameters) (walkParameters limit parameters)
  | [] => .ofQuiet (quiet_closed.pure _)
  | ⟨name, span, types, none⟩ :: rest => by
    rw [walkParameters]
    refine .behind (quiet_closed.requireSignature types span) fun _ => ?_
    exact .ite (descends_walkParameters limit rest)
      (.behind (quiet_change _) fun _ => descends_walkParameters limit rest)
  | ⟨name, span, types, some value⟩ :: rest => by
    rw [walkParameters]
    refine .behind (quiet_closed.requireSignature types span) fun _ => (descends_infer limit 1 value).bind fun actual =>
      .behind (quiet_closed.requireMatch _ _ _ _) fun _ => ?_
    exact .ite (descends_walkParameters limit rest)
      (.behind (quiet_change _) fun _ => descends_walkParameters limit rest)

theorem descends_walkFunction (limit : Nat) : ∀ f : FunctionLiteral,
    Descends limit (f.height 1) (walkFunction limit f)
  | ⟨name, nameSpan, receiver, parameters, returnTypes, ⟨statements, blockSpan⟩, decorators⟩ => by
    rw [walkFunction, FunctionLiteral.height, ite_self]
    exact .behind (quiet_closed.declareFunction _) fun _ => .behind (quiet_closed.requireSignature _ _) fun _ =>
      .within .function (.behind (quiet_closed.declareReceiver receiver) fun _ =>
        (descends_walkParameters limit parameters).bind fun _ =>
          .returning returnTypes (descends_walkStatements limit statements))

theorem descends_walkBlock (limit : Nat) (kind : FrameKind) : ∀ b : Block,
    Descends limit (b.height 1) (walkBlock limit kind b)
  | ⟨statements, span⟩ => by
    rw [walkBlock]
    exact .within kind (descends_walkStatements limit statements)

theorem descends_walkStatements (limit : Nat) : ∀ statements : List Statement,
    Descends limit (heightOfStatements 1 statements) (walkStatements limit statements)
  | [] => .ofQuiet (quiet_closed.pure _)
  | s :: rest => by
    rw [walkStatements]
    exact (descends_walkStatement limit s).bind fun _ => descends_walkStatements limit rest

theorem descends_walkStatement (limit : Nat) : ∀ s : Statement,
    Descends limit (s.height 1) (walkStatement limit s)
  | .binding constant target (some value) => by
    rw [walkStatement]
    exact (descends_infer limit 1 value).andQuiet fun _ => quiet_closed.declareBinding _ _ _
  | .binding constant target none => by
    rw [walkStatement]
    exact .ofQuiet (quiet_closed.declareBinding _ _ _)
  | .typeDeclaration d => by
    rw [walkStatement]
    exact .ofQuiet (quiet_declareType d)
  | .return (some value) span => by
    rw [walkStatement]
    exact (descends_infer limit 1 value).andQuiet fun _ => quiet_closed.checkReturn (fun _ => quiet_report _ _ rfl) _ _
  | .return none span => by
    rw [walkStatement]
    exact .ofQuiet (quiet_closed.checkReturn (fun _ => quiet_report _ _ rfl) _ _)
  | .defer e span => by
    rw [walkStatement]
    have hrest : Descends limit (1 + e.height 1) (infer limit 1 e >>= fun _ => pure ()) :=
      (descends_infer limit 1 e).andPure _
    exact .behind (quiet_closed.look fun env _ => env) fun env => .ite hrest (.behind (quiet_report _ _ rfl) fun _ => hrest)
  | .jump kind span => by
    rw [walkStatement]
    exact .ofQuiet (quiet_closed.environment fun env => AskClosed.ite (quiet_closed.pure _) (quiet_report _ _ rfl))
  | .block block => by
    rw [walkStatement]
    exact descends_walkBlock limit .block block
  | .comment text roxygen span => by
    rw [walkStatement]
    exact .ofQuiet (quiet_closed.pure _)
  | .expression e => by
    rw [walkStatement]
    exact (descends_infer limit 1 e).andPure _

end

end Check

namespace Program

/-- **How deep a walk goes, and how deep the grammar went.**  Whatever tokens are read under a limit, the program they
are read as has no more levels than the limit allows, as the grammar counts them; and walking it under the same limit,
from any scopes, reports nesting exactly if it has more, as the walk counts them. -/
theorem walk_reports_nesting_iff (tokens : List Token) (limit : Nat) (environment : Environment)
    (packages : Option PackageCache) :
    let program := (ParsedProgram.ofTokens tokens limit).program
    heightOfStatements 0 program.statements ≤ limit ∧
      ((∃ r ∈ (program.walk environment packages limit).reports, r.finding.isNesting = true) ↔
        limit < heightOfStatements 1 program.statements) := by
  intro program
  refine ⟨Parse.height_ofTokens tokens limit, ?_⟩
  have hreports := (Check.descends_walkStatements limit program.statements { environment, packages } (Nat.zero_le _)).2
  have hnone : ¬({ environment, packages } : CheckState).ReportsNesting := fun ⟨r, hr, _⟩ => List.not_mem_nil hr
  rw [or_iff_right hnone, Nat.zero_add] at hreports
  exact Iff.trans (exists_congr fun r => and_congr_left' List.mem_reverse) hreports

/-- A chain of two branches, read under a limit of two levels without an error: the condition of the second branch is the
third level of the walk. -/
theorem walk_reports_nesting_of_elseIf :
    let source : SourceFile := ⟨"m.vp", "if (TRUE) \x7b\n\x7d else if (TRUE) \x7b\n\x7d\n"⟩
    let parsed := ParsedProgram.ofTokens source.tokens 2
    parsed.errors = [] ∧
      (parsed.program.walk .initial none 2).reports.map Report.finding = [.nestingTooDeep 2] := by
  intro source parsed
  subst source parsed
  cbv

end Program
end UnionScript
