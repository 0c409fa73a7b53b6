import UnionScript.Proofs.Effect
/-!
# Leaves — one proof for the steps a walk is put together of

Between the expressions and statements it walks, the checker asks, reports and declares by steps that walk nothing
themselves.  A property of steps that the primitive ones have and that passes on to what follows (`LeafClosed`) is one of
all of these, so an induction over a walk (`WalkClosed`) is left with declarations of types, visits and frames.
-/
namespace UnionScript

/-- Whether a finding is about nesting. -/
def Finding.isNesting : Finding → Bool
  | .nestingTooDeep _ => true
  | _ => false

/-- Whether a finding is about where a statement stands that does not return. -/
def Finding.isMisplacement : Finding → Bool
  | .deferOutsideFunction | .jumpOutsideLoop _ => true
  | _ => false

/-- Whether a finding is about a `return` that is in no body. -/
def Finding.isStray : Finding → Bool
  | .returnOutsideFunction => true
  | _ => false

/-- Whether a finding is about where a statement stands. -/
def Finding.isOfPlace (finding : Finding) : Bool := finding.isMisplacement || finding.isStray

/-- Whether a finding is reported by a step that walks nothing itself, wherever it stands. -/
def Finding.isOfLeaf (finding : Finding) : Bool := !finding.isNesting && !finding.isOfPlace

theorem Finding.isNesting_of_isOfLeaf (finding : Finding) (h : finding.isOfLeaf = true) : finding.isNesting = false :=
  Bool.not_eq_true' _ ▸ (Bool.and_eq_true_iff.1 h).1

theorem Finding.isOfPlace_of_isOfLeaf (finding : Finding) (h : finding.isOfLeaf = true) :
    finding.isOfPlace = false := Bool.not_eq_true' _ ▸ (Bool.and_eq_true_iff.1 h).2

namespace Check

/-- Judges what is returned by what the functions around it return, the innermost first. -/
def judgeBy (returns : List (Option Union)) (actual : Union) (span : Span) : Check Unit :=
  match returns with
  | [] => report .returnOutsideFunction span
  | some expected :: _ => requireMatch actual expected span .returnValue
  | none :: _ => pure ()

theorem checkReturn_eq_judgeBy (actual : Union) (span : Span) :
    checkReturn actual span = ((fun s => (s.returns, s)) >>= fun returns => judgeBy returns actual span) := rfl

/-- A property of steps that the primitive ones have which leave the scopes as they are, but for reports about nesting and
about where a statement stands.  Of a state they look at the scopes and the return types, and ask for packages. -/
structure AskClosed (P : {α : Type} → Check α → Prop) : Prop where
  look {α : Type} (f : Environment → List (Option Union) → α) : P (fun s => (f s.environment s.returns, s))
  bind {α β : Type} {step : Check α} {next : α → Check β} : P step → (∀ a, P (next a)) → P (step >>= next)
  report (finding : Finding) (span : Span) : finding.isOfLeaf = true → P (report finding span)
  package? (name : String) : P (package? name)
  requireDefined (types : Union) (span : Span) : P (requireDefined types span)

/-- A property of steps that those have as well which declare variables and functions. -/
structure LeafClosed (P : {α : Type} → Check α → Prop) : Prop extends AskClosed P where
  bindVariable (v : Variable) : P (change (.variable v))
  bindFunction (g : FunctionSignature) : P (change (.function g))

namespace AskClosed

variable {P : {α : Type} → Check α → Prop} (h : AskClosed P) {α : Type}

theorem ite {c : Bool} {step step' : Check α} (hstep : P step) (hstep' : P step') :
    P (if c then step else step') := by
  cases c
  · exact hstep'
  · exact hstep

include h

theorem pure (a : α) : P (pure a : Check α) := h.look fun _ _ => a

/-- A step that looks at the scopes first. -/
theorem environment {next : Environment → Check α} (hnext : ∀ env, P (next env)) : P (environment >>= next) :=
  h.bind (h.look fun env _ => env) hnext

theorem requireMatch (actual expected : Union) (span : Span) (subject : Subject) :
    P (requireMatch actual expected span subject) :=
  h.environment fun env => by
    split
    · exact h.pure _
    · exact h.report _ _ rfl

theorem typeOfName (span : Span) (name : String) : P (typeOfName span name) :=
  h.environment fun env => by
    split
    · exact h.pure _
    · exact h.pure _
    · exact h.pure _
    · exact h.bind (h.report _ _ rfl) fun _ => h.pure _

theorem typeOfAttribute (object : Union) (access : Expression) : P (typeOfAttribute object access) :=
  h.environment fun env => by
    split
    · exact ite (h.pure _) (h.pure _)
    · exact h.pure _

theorem assignTo (span targetSpan : Span) (name : String) (value : Union) : P (assignTo span targetSpan name value) :=
  h.environment fun env => by
    split
    · exact h.bind (h.report _ _ rfl) fun _ => h.pure _
    · exact ite (h.bind (h.report _ _ rfl) fun _ => h.pure _) (h.bind (h.requireMatch _ _ _ _) fun _ => h.pure _)

/-! ### Calls -/

theorem checkConstructor (t : TypeEntry) : ∀ arguments : List (Argument × Union), P (checkConstructor t arguments)
  | [] => h.pure _
  | (argument, actual) :: rest => by
    rw [Check.checkConstructor]
    have hrest : P (Check.checkConstructor t rest) := checkConstructor t rest
    split
    · exact hrest
    · split
      · exact h.bind (h.requireMatch _ _ _ _) fun _ => hrest
      · exact h.bind (h.report _ _ rfl) fun _ => hrest

theorem checkArgument (f : FunctionSignature) (argument : Argument) (actual : Union)
    (bound : Option ParameterSignature) : P (checkArgument f argument actual bound) := by
  unfold Check.checkArgument
  split
  · exact h.requireMatch _ _ _ _
  · split
    · exact ite (h.pure _) (h.report _ _ rfl)
    · exact h.pure _

theorem checkArguments (f : FunctionSignature) : ∀ (arguments : List (Argument × Union))
    (bound : List (Option ParameterSignature)), P (checkArguments f arguments bound)
  | (argument, actual) :: rest, bound :: more => by
    rw [Check.checkArguments]
    exact h.bind (h.checkArgument f argument actual bound) fun _ => checkArguments f rest more
  | [], _ => h.pure _
  | _ :: _, [] => h.pure _

theorem finishCall (arguments : List Argument) (actuals : List Union) (callee : Callee) :
    P (finishCall arguments actuals callee) := by
  cases callee with
  | value => exact h.pure _
  | constructor t => exact ite (h.bind (h.checkConstructor t _) fun _ => h.pure _) (h.pure _)
  | function f => exact h.bind (h.checkArguments f _ _) fun _ => h.pure _
  | host => exact h.pure _

theorem checkExport (left right : Expression) : P (checkExport left right) := by
  unfold Check.checkExport
  split
  · refine h.bind (h.package? _) fun found => ?_
    split
    · exact ite (h.pure _) (h.report _ _ rfl)
    · exact h.pure _
  · exact h.pure _

/-! ### Requirements -/

theorem requireAttributes : ∀ attributes : List TypedName, P (requireAttributes attributes)
  | [] => h.pure _
  | _ :: rest => h.bind (h.requireDefined _ _) fun _ => requireAttributes rest

theorem requireSignature (types : Option Union) (span : Span) : P (requireSignature types span) := by
  unfold Check.requireSignature
  split
  · exact h.bind (h.requireDefined _ _) fun _ => h.pure _
  · exact h.pure _

theorem requireLoopVariable (loopVariable : TypedName) (iterable : Union) :
    P (requireLoopVariable loopVariable iterable) :=
  h.bind (h.requireDefined _ _) fun _ => ite (h.requireMatch _ _ _ _) (h.pure _)

theorem judgeBy (stray : ∀ span, P (Check.report .returnOutsideFunction span)) (returns : List (Option Union))
    (actual : Union) (span : Span) : P (judgeBy returns actual span) := by
  unfold Check.judgeBy
  split
  · exact stray span
  · exact h.requireMatch _ _ _ _
  · exact h.pure _

theorem checkReturn (stray : ∀ span, P (Check.report .returnOutsideFunction span)) (actual : Union) (span : Span) :
    P (checkReturn actual span) := by
  rw [checkReturn_eq_judgeBy]
  exact h.bind (h.look fun _ returns => returns) fun returns => h.judgeBy stray returns actual span

end AskClosed

namespace LeafClosed

variable {P : {α : Type} → Check α → Prop} (h : LeafClosed P)

/-! ### Declarations -/

include h

theorem declareBinding (constant : Bool) (target : TypedName) (actual : Option Union) :
    P (declareBinding constant target actual) :=
  h.environment fun env => by
    split
    · exact h.report _ _ rfl
    · refine h.bind (h.requireDefined _ _) fun defined => ?_
      split
      · exact h.bind (h.requireMatch _ _ _ _) fun _ => h.bindVariable _
      · exact h.bindVariable _

theorem declareFunction (f : FunctionLiteral) : P (declareFunction f) := by
  unfold Check.declareFunction
  split
  · exact h.bind (h.requireDefined _ _) fun _ => h.pure _
  · exact h.environment fun env => AskClosed.ite (h.report _ _ rfl) (h.bindFunction _)
  · exact h.pure _

theorem declareReceiver (receiver : Option TypedName) : P (declareReceiver receiver) := by
  cases receiver with
  | some r => exact h.bindVariable _
  | none => exact h.pure _

/-! ## Walks -/

omit h in
/-- A relation that every step with what the leaves share bears to itself, and that passes through visits and frames,
is one between walks. -/
theorem walkRelated {limit limit' : Nat} {R : {α : Type} → Check α → Check α → Prop} (h : LeafClosed P)
    (leaf : ∀ {α : Type} {step : Check α}, P step → R step step)
    (bind : ∀ {α β : Type} {step step' : Check α} {next next' : α → Check β}, R step step' →
      (∀ a, R (next a) (next' a)) → R (step >>= next) (step' >>= next'))
    (report : ∀ finding span, P (Check.report finding span)) (declareType : ∀ d, P (declareType d))
    (visit : ∀ {body body' : Check Union} (step : Nat) (span : Span), R body body' →
      R (visit limit step span body) (visit limit' step span body'))
    (within : ∀ {body body' : Check Unit} (kind : FrameKind), R body body' → R (within kind body) (within kind body'))
    (returning : ∀ {body body' : Check Unit} (types : Option Union), R body body' →
      R (returning types body) (returning types body')) :
    WalkRelated limit limit' fun _ {_} step step' => R step step' where
  pure a := leaf (h.pure a)
  bind := bind
  ofExpression := id
  ofStatement := id
  report finding span := leaf (report finding span)
  package? name := leaf (h.package? name)
  inFunction := leaf (h.look fun env _ => env.inFunction)
  inLoop := leaf (h.look fun env _ => env.inLoop)
  requireDefined types span := leaf (h.requireDefined types span)
  requireMatch actual expected span subject := leaf (h.requireMatch actual expected span subject)
  typeOfName span name := leaf (h.typeOfName span name)
  typeOfAttribute object access := leaf (h.typeOfAttribute object access)
  assignTo span targetSpan name value := leaf (h.assignTo span targetSpan name value)
  callNamed _ arguments _ _ hinferred := bind (leaf (h.look fun env _ => env)) fun _ =>
    bind hinferred fun _ => leaf (h.finishCall arguments _ _)
  declareType d := leaf (declareType d)
  declareBinding constant target actual := leaf (h.declareBinding constant target actual)
  declareFunction f := leaf (h.declareFunction f)
  declareLocal _ _ _ := leaf (h.bindVariable _)
  checkReturn actual span := leaf (h.checkReturn (report .returnOutsideFunction) actual span)
  visit := visit
  within := within
  returning := returning

omit h in
/-- What passes through visits and frames as well, and is shared by declarations of types, is shared by every walk. -/
theorem walkClosed {limit : Nat} (h : LeafClosed P)
    (report : ∀ finding span, P (Check.report finding span)) (declareType : ∀ d, P (declareType d))
    (visit : ∀ {body : Check Union} (step : Nat) (span : Span), P body → P (visit limit step span body))
    (within : ∀ {body : Check Unit} (kind : FrameKind), P body → P (within kind body))
    (returning : ∀ {body : Check Unit} (types : Option Union), P body → P (returning types body)) :
    WalkClosed limit fun _ {_} step => P step :=
  @walkRelated P limit limit (fun step _ => P step) h id h.bind report declareType visit within returning

end LeafClosed
end Check
end UnionScript
