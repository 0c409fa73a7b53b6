import UnionScript.Check.Inference
/-!
# Walk — one induction over what the checker walks

Expressions hold blocks and blocks hold statements, so whatever is to be shown of every walk takes an induction over
all of them at once.  It is made here once, and for two walks at a time, under one limit on nesting and another: a
relation that the leaves of a walk bear to themselves, and that passes from parts to what is put together of them
(`WalkRelated`), is one between the walks of the same thing (`WalkRelated.infer`, `WalkRelated.walkStatement`).  A
property of steps is such a relation that looks at one of the two only (`WalkClosed`).  What is walked plays a part in
it, because an expression may declare less in the innermost frame than a statement, and a statement less than what
stands in a frame that was just opened (`Extent`).
-/
namespace UnionScript
namespace Check

/-- What is walked, which limits what may be declared in the innermost frame: an expression declares functions only, a
statement variables and types as well, and the body of a frame parameters and loop variables on top of that. -/
inductive Extent where
  | expression
  | statement
  | body
  deriving DecidableEq

/-- Whether a function is around. -/
def inFunction : Check Bool := fun s => (s.environment.inFunction, s)

/-- Whether a loop is around. -/
def inLoop : Check Bool := fun s => (s.environment.inLoop, s)

/-- Calls what a name means before the arguments are inferred. -/
def callNamed (name : String) (arguments : List Argument) (inferred : Check (List Union)) : Check Union := do
  let called := calleeOf (← environment) name
  let types ← inferred
  finishCall arguments types called

/-- What a visit does: it reports an expression beyond the limit, and looks into any other one a level deeper and files
what it inferred. -/
theorem visit_eq (limit step : Nat) (span : Span) (body : Check Union) (s : CheckState) :
    visit limit step span body s =
      if limit < s.depth + step then (Union.any, (report (.nestingTooDeep limit) span s).2)
      else
        let out := body ((Act.descend step).apply s)
        let types := if out.1.isEmpty then Union.any else out.1
        (types, (Act.file step span types).apply out.2) := by
  by_cases hlimit : limit < s.depth + step
  · simp only [visit, bind, StateT.bind, get, getThe, MonadStateOf.get, StateT.get, pure, gt_iff_lt, hlimit, ↓reduceIte]
    rfl
  · simp only [visit, bind, StateT.bind, get, getThe, MonadStateOf.get, StateT.get, pure, gt_iff_lt, hlimit, ↓reduceIte]
    rfl

/-- A relation of steps under two limits that the leaves of a walk bear to themselves and that passes from parts to the
whole. -/
structure WalkRelated (limit limit' : Nat) (R : Extent → {α : Type} → Check α → Check α → Prop) : Prop where
  pure {x : Extent} {α : Type} (a : α) : R x (pure a : Check α) (pure a)
  bind {x : Extent} {α β : Type} {step step' : Check α} {next next' : α → Check β} :
    R x step step' → (∀ a, R x (next a) (next' a)) → R x (step >>= next) (step' >>= next')
  ofExpression {x : Extent} {α : Type} {step step' : Check α} : R .expression step step' → R x step step'
  ofStatement {α : Type} {step step' : Check α} : R .statement step step' → R .body step step'
  report {x : Extent} (finding : Finding) (span : Span) : R x (report finding span) (report finding span)
  package? {x : Extent} (name : String) : R x (package? name) (package? name)
  inFunction {x : Extent} : R x inFunction inFunction
  inLoop {x : Extent} : R x inLoop inLoop
  requireDefined {x : Extent} (types : Union) (span : Span) :
    R x (requireDefined types span) (requireDefined types span)
  requireMatch {x : Extent} (actual expected : Union) (span : Span) (subject : Subject) :
    R x (requireMatch actual expected span subject) (requireMatch actual expected span subject)
  typeOfName {x : Extent} (span : Span) (name : String) : R x (typeOfName span name) (typeOfName span name)
  typeOfAttribute {x : Extent} (object : Union) (access : Expression) :
    R x (typeOfAttribute object access) (typeOfAttribute object access)
  assignTo {x : Extent} (span targetSpan : Span) (name : String) (value : Union) :
    R x (assignTo span targetSpan name value) (assignTo span targetSpan name value)
  callNamed {x : Extent} (name : String) (arguments : List Argument) {inferred inferred' : Check (List Union)} :
    R x inferred inferred' → R x (callNamed name arguments inferred) (callNamed name arguments inferred')
  declareType (d : TypeDeclaration) : R .statement (declareType d) (declareType d)
  declareBinding (constant : Bool) (target : TypedName) (actual : Option Union) :
    R .statement (declareBinding constant target actual) (declareBinding constant target actual)
  declareFunction {x : Extent} (f : FunctionLiteral) : R x (declareFunction f) (declareFunction f)
  declareLocal (name : String) (types : Union) (span : Span) :
    R .body (declareLocal name types span) (declareLocal name types span)
  checkReturn {x : Extent} (actual : Union) (span : Span) : R x (checkReturn actual span) (checkReturn actual span)
  visit {x : Extent} {body body' : Check Union} (step : Nat) (span : Span) :
    R .expression body body' → R x (visit limit step span body) (visit limit' step span body')
  within {x : Extent} {body body' : Check Unit} (kind : FrameKind) :
    R .body body body' → R x (within kind body) (within kind body')
  returning {body body' : Check Unit} (types : Option Union) :
    R .body body body' → R .body (returning types body) (returning types body')

/-- The walks of an expression under two limits are visits whose bodies are related. -/
def Visits (limit limit' : Nat) (R : Extent → {α : Type} → Check α → Check α → Prop) (step : Nat) (e : Expression) :
    Prop :=
  ∃ body body' : Check Union, infer limit step e = visit limit step e.span body ∧
    infer limit' step e = visit limit' step e.span body' ∧ R .expression body body'

theorem Visits.of {limit limit' : Nat} {R : Extent → {α : Type} → Check α → Check α → Prop} {step : Nat}
    {e : Expression} {body body' : Check Union} (h : R .expression body body')
    (hbody : infer limit step e = visit limit step e.span body := by rw [infer]; rfl)
    (hbody' : infer limit' step e = visit limit' step e.span body' := by rw [infer]; rfl) :
    Visits limit limit' R step e := ⟨body, body', hbody, hbody', h⟩

/-- A property of steps that the leaves of a walk have and that passes from parts to the whole. -/
abbrev WalkClosed (limit : Nat) (P : Extent → {α : Type} → Check α → Prop) : Prop :=
  WalkRelated limit limit fun x {_} step _ => P x step

namespace WalkRelated

variable {limit limit' : Nat} {R : Extent → {α : Type} → Check α → Check α → Prop} (h : WalkRelated limit limit' R)
  {x : Extent}

/-! ## Parts put together of leaves -/

theorem ite {α : Type} {c : Bool} {step step' other other' : Check α} (hstep : R x step step')
    (hother : R x other other') : R x (if c then step else other) (if c then step' else other') := by
  cases c
  · exact hother
  · exact hstep

include h

theorem checkExport (left right : Expression) : R x (checkExport left right) (checkExport left right) := by
  unfold Check.checkExport
  split
  · refine h.bind (h.package? _) fun found => ?_
    split
    · exact ite (h.pure _) (h.report _ _)
    · exact h.pure _
  · exact h.pure _

theorem requireSignature (types : Option Union) (span : Span) :
    R x (requireSignature types span) (requireSignature types span) := by
  unfold Check.requireSignature
  split
  · exact h.bind (h.requireDefined _ _) fun _ => h.pure _
  · exact h.pure _

theorem declareReceiver (receiver : Option TypedName) :
    R .body (declareReceiver receiver) (declareReceiver receiver) := by
  cases receiver with
  | some r => exact h.declareLocal _ _ _
  | none => exact h.pure _

theorem requireLoopVariable (loopVariable : TypedName) (iterable : Union) :
    R x (requireLoopVariable loopVariable iterable) (requireLoopVariable loopVariable iterable) :=
  h.bind (h.requireDefined _ _) fun _ => ite (h.requireMatch _ _ _ _) (h.pure _)

theorem ofVisits {step : Nat} {e : Expression} :
    Visits limit limit' R step e → R x (Check.infer limit step e) (Check.infer limit' step e)
  | ⟨_, _, hbody, hbody', hrelated⟩ => by
    rw [hbody, hbody']
    exact h.visit step e.span hrelated

/-! ## The walk -/

mutual

theorem visits (step : Nat) : ∀ e : Expression, Visits limit limit' R step e
  | .identifier span name => .of (h.typeOfName span name)
  | .literal _ _ => .of (h.pure _)
  | .vector _ elements => .of (h.bind (inferAll elements _) fun _ => h.pure _)
  | .unary _ _ operand => .of (h.ofVisits (visits 1 operand))
  | .binary span operator left right => by
    have hright : R .expression _ _ := h.ofVisits (visits 1 right)
    have hleft : R .expression _ _ := h.ofVisits (visits 0 left)
    refine .of ?_ (by unfold Check.infer; rfl) (by unfold Check.infer; rfl)
    cases operator with
    | assign | leftAssign | increment | decrement =>
      refine h.bind hright fun value => ?_
      split
      · exact h.assignTo _ _ _ _
      · exact h.bind hleft fun _ => h.pure _
    | dollar | slot => exact h.bind hleft fun object => h.typeOfAttribute object right
    | namespaceAccess | internalAccess => exact h.bind (h.checkExport left right) fun _ => h.pure _
    | pipe | magrittrPipe => exact h.bind hleft fun _ => hright
    | _ => exact h.bind hleft fun _ => h.bind hright fun _ => h.pure _
  | .conditional _ condition consequence none =>
    .of (h.bind (h.ofVisits (visits 1 condition)) fun _ =>
      h.bind (walkBlock .branch consequence _) fun _ => h.pure _)
  | .conditional _ condition consequence (some alternative) =>
    .of (h.bind (h.ofVisits (visits 1 condition)) fun _ => h.bind (walkBlock .branch consequence _) fun _ =>
      h.bind (walkBlock .branch alternative _) fun _ => h.pure _)
  | .forLoop _ loopVariable iterable ⟨statements, _⟩ =>
    .of (h.bind (h.ofVisits (visits 1 iterable)) fun types =>
      h.bind (h.requireLoopVariable loopVariable types) fun _ =>
        h.bind (h.within .loop (h.bind (h.declareLocal _ _ _) fun _ =>
          h.ofStatement (walkStatements statements))) fun _ => h.pure _)
  | .whileLoop _ condition body =>
    .of (h.bind (h.ofVisits (visits 1 condition)) fun _ => h.bind (walkBlock .loop body _) fun _ => h.pure _)
  | .repeatLoop _ body => .of (h.bind (walkBlock .loop body _) fun _ => h.pure _)
  | .function _ literal => .of (h.bind (walkFunction literal) fun _ => h.pure _)
  | .call _ callee arguments => by
    have hcallee : R .expression _ _ := h.ofVisits (visits 0 callee)
    have harguments := inferArguments arguments .expression
    refine .of ?_ (by unfold Check.infer; rfl) (by unfold Check.infer; rfl)
    split
    · exact h.callNamed _ _ harguments
    · exact h.bind hcallee fun _ => h.bind harguments fun _ => h.pure _
  | .index _ object arguments _ =>
    .of (h.bind (h.ofVisits (visits 0 object)) fun _ => h.bind (inferArguments arguments _) fun _ => h.pure _)

theorem inferAll : ∀ es : List Expression, ∀ x, R x (Check.inferAll limit es) (Check.inferAll limit' es)
  | [], _ => h.pure _
  | e :: rest, _ => by
    rw [Check.inferAll]
    exact h.bind (h.ofVisits (visits 1 e)) fun _ => h.bind (inferAll rest _) fun _ => h.pure _

theorem inferArguments : ∀ arguments : List Argument, ∀ x,
    R x (Check.inferArguments limit arguments) (Check.inferArguments limit' arguments)
  | [], _ => h.pure _
  | ⟨name, value⟩ :: rest, _ => by
    rw [Check.inferArguments]
    exact h.bind (h.ofVisits (visits 1 value)) fun _ => h.bind (inferArguments rest _) fun _ => h.pure _

theorem walkParameters : ∀ parameters : List Parameter,
    R .body (Check.walkParameters limit parameters) (Check.walkParameters limit' parameters)
  | [] => h.pure _
  | ⟨name, span, types, none⟩ :: rest => by
    rw [Check.walkParameters]
    refine h.bind (h.requireSignature types span) fun _ => ?_
    exact ite (walkParameters rest)
      (h.bind (h.declareLocal _ _ _) fun _ => walkParameters rest)
  | ⟨name, span, types, some value⟩ :: rest => by
    rw [Check.walkParameters]
    refine h.bind (h.requireSignature types span) fun _ => h.bind (h.ofVisits (visits 1 value)) fun _ =>
      h.bind (h.requireMatch _ _ _ _) fun _ => ?_
    exact ite (walkParameters rest)
      (h.bind (h.declareLocal _ _ _) fun _ => walkParameters rest)

theorem walkFunction : ∀ f : FunctionLiteral,
    R .expression (Check.walkFunction limit f) (Check.walkFunction limit' f)
  | ⟨name, nameSpan, receiver, parameters, returnTypes, ⟨statements, blockSpan⟩, decorators⟩ => by
    rw [Check.walkFunction]
    refine h.bind (h.declareFunction _) fun _ => h.bind (h.requireSignature _ _) fun _ =>
      h.within .function ?_
    exact h.bind (h.declareReceiver receiver) fun _ => h.bind (walkParameters parameters) fun _ =>
      h.returning returnTypes (h.ofStatement (walkStatements statements))

theorem walkBlock (kind : FrameKind) : ∀ block : Block, ∀ x,
    R x (Check.walkBlock limit kind block) (Check.walkBlock limit' kind block)
  | ⟨statements, blockSpan⟩, _ => by
    rw [Check.walkBlock]
    exact h.within kind (h.ofStatement (walkStatements statements))

theorem walkStatements : ∀ statements : List Statement,
    R .statement (Check.walkStatements limit statements) (Check.walkStatements limit' statements)
  | [] => h.pure _
  | s :: rest => by
    rw [Check.walkStatements]
    exact h.bind (walkStatement s) fun _ => walkStatements rest

theorem walkStatement : ∀ s : Statement,
    R .statement (Check.walkStatement limit s) (Check.walkStatement limit' s)
  | .binding constant target (some value) => by
    rw [Check.walkStatement]
    exact h.bind (h.ofVisits (visits 1 value)) fun _ => h.declareBinding _ _ _
  | .binding constant target none => by
    rw [Check.walkStatement]
    exact h.declareBinding _ _ _
  | .typeDeclaration d => by
    rw [Check.walkStatement]
    exact h.declareType d
  | .return (some value) span => by
    rw [Check.walkStatement]
    exact h.bind (h.ofVisits (visits 1 value)) fun _ => h.checkReturn _ _
  | .return none span => by
    rw [Check.walkStatement]
    exact h.checkReturn _ _
  | .defer e span => by
    rw [Check.walkStatement]
    have hrest : R .statement (Check.infer limit 1 e >>= fun _ => Pure.pure ())
        (Check.infer limit' 1 e >>= fun _ => Pure.pure ()) :=
      h.bind (h.ofVisits (visits 1 e)) fun _ => h.pure ()
    show R .statement (Check.inFunction >>= fun inside => if inside then _ else _ >>= fun _ => _)
      (Check.inFunction >>= fun inside => if inside then _ else _ >>= fun _ => _)
    exact h.bind h.inFunction fun _ => ite hrest (h.bind (h.report _ _) fun _ => hrest)
  | .jump kind span => by
    rw [Check.walkStatement]
    show R .statement (Check.inLoop >>= fun inside => if inside then _ else _)
      (Check.inLoop >>= fun inside => if inside then _ else _)
    exact h.bind h.inLoop fun _ => ite (h.pure _) (h.report _ _)
  | .block block => by
    rw [Check.walkStatement]
    exact walkBlock .block block _
  | .comment _ _ _ => by
    rw [Check.walkStatement]
    exact h.pure _
  | .expression e => by
    rw [Check.walkStatement]
    exact h.bind (h.ofVisits (visits 1 e)) fun _ => h.pure _

end

theorem infer (step : Nat) (e : Expression) (x : Extent) : R x (Check.infer limit step e) (Check.infer limit' step e) :=
  h.ofVisits (h.visits step e)

end WalkRelated

/-! ## Properties -/

namespace WalkClosed

variable {limit : Nat} {P : Extent → {α : Type} → Check α → Prop} (h : WalkClosed limit P)

include h

theorem bind {x : Extent} {α β : Type} {step : Check α} {next : α → Check β} (hstep : P x step)
    (hnext : ∀ a, P x (next a)) : P x (step >>= next) :=
  @WalkRelated.bind limit limit _ h x α β step step next next hstep hnext

omit h in
theorem ite {x : Extent} {α : Type} {c : Bool} {step other : Check α} (hstep : P x step) (hother : P x other) :
    P x (if c then step else other) :=
  @WalkRelated.ite (fun x _ step _ => P x step) x α c step step other other hstep hother

theorem ofStatement {α : Type} {step : Check α} (hstep : P .statement step) : P .body step :=
  @WalkRelated.ofStatement limit limit _ h α step step hstep

theorem within {x : Extent} {body : Check Unit} (kind : FrameKind) (hbody : P .body body) : P x (within kind body) :=
  @WalkRelated.within limit limit _ h x body body kind hbody

theorem returning {body : Check Unit} (types : Option Union) (hbody : P .body body) : P .body (returning types body) :=
  @WalkRelated.returning limit limit _ h body body types hbody

end WalkClosed

end Check
end UnionScript
