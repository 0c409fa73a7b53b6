import UnionScript.Proofs.Reach
import UnionScript.Proofs.Walk
/-!
# Agreement — what is checked in alike scopes comes out the same

The checker asks its scopes what a name means and whether a union fits, and both answers are the same in alike scopes.
So a walk that starts from two states which differ in alike types only (`CheckState.Alike`) reports the same, infers the
same and ends in two such states (`agree_closed`).
-/
namespace UnionScript

/-! ## States and steps -/

/-- Two states that differ in alike types, and in what was logged and done. -/
structure CheckState.Alike (s s' : CheckState) : Prop where
  environment : s.environment.Alike s'.environment
  packages : s.packages = s'.packages
  reports : s.reports = s'.reports
  types : s.types = s'.types
  returns : s.returns = s'.returns
  depth : s.depth = s'.depth

/-- An act keeps states alike. -/
theorem CheckState.Alike.apply {s s' : CheckState} (h : s.Alike s') : ∀ a : Act, (a.apply s).Alike (a.apply s')
  | .report rs => { h with reports := congrArg (rs ++ ·) h.reports }
  | .ask _ => { h with packages := congrArg (Option.map _) h.packages }
  | .change c => { h with environment := h.environment.apply (.same c) }
  | .descend step => { h with depth := congrArg (· + step) h.depth }
  | .file step _ _ => { h with types := congrArg (_ :: ·) h.types, depth := congrArg (· - step) h.depth }
  | .enter types => { h with returns := congrArg (types :: ·) h.returns }
  | .leave => { h with returns := congrArg List.tail h.returns }

namespace Check

/-- Two steps that answer the same in alike states and leave alike states. -/
def Agree {α : Type} (step step' : Check α) : Prop :=
  ∀ s s', s.Alike s' → (step s).1 = (step' s').1 ∧ (step s).2.Alike (step' s').2

section Steps

variable {α β : Type}

theorem agree_pure (a : α) : Agree (pure a) (pure a) := fun _ _ hs => ⟨rfl, hs⟩

theorem agree_bind {step step' : Check α} {next next' : α → Check β} (h : Agree step step')
    (hnext : ∀ a, Agree (next a) (next' a)) : Agree (step >>= next) (step' >>= next') := by
  intro s s' hs
  obtain ⟨hvalue, hstate⟩ := h s s' hs
  show (next (step s).1 (step s).2).1 = (next' (step' s').1 (step' s').2).1 ∧
    (next (step s).1 (step s).2).2.Alike (next' (step' s').1 (step' s').2).2
  rw [hvalue]
  exact hnext _ _ _ hstate

/-- Steps that look at the scopes first. -/
theorem agree_environment {next next' : Environment → Check α}
    (h : ∀ env env', env.Alike env' → Agree (next env) (next' env')) :
    Agree (environment >>= next) (environment >>= next') :=
  fun s s' hs => h _ _ hs.environment s s' hs

theorem agree_ite {c : Bool} {step step' other other' : Check α} (h : Agree step step') (hother : Agree other other') :
    Agree (if c then step else other) (if c then step' else other') := by
  cases c
  · exact hother
  · exact h

theorem agree_perform (a : Act) : Agree (perform a) (perform a) := fun _ _ hs => ⟨rfl, hs.apply a⟩

theorem agree_report (finding : Finding) (span : Span) : Agree (report finding span) (report finding span) :=
  agree_perform _

theorem agree_change (c : Environment.Change) : Agree (change c) (change c) := agree_perform _

theorem agree_package? (name : String) : Agree (package? name) (package? name) := by
  intro s s' hs
  refine ⟨?_, hs.apply _⟩
  rw [package?, package?, hs.packages]

theorem agree_requireDefined (types : Union) (span : Span) :
    Agree (requireDefined types span) (requireDefined types span) := by
  intro s s' hs
  have hdefined : s.environment.isDefined = s'.environment.isDefined := funext hs.environment.isDefined
  unfold requireDefined
  rw [hdefined]
  exact ⟨rfl, hs.apply _⟩

/-- Alike environments find the same alternatives that do not fit. -/
theorem agree_requireMatch (actual expected : Union) (span : Span) (subject : Subject) :
    Agree (requireMatch actual expected span subject) (requireMatch actual expected span subject) :=
  agree_environment fun env env' henv => by
    rw [Environment.unmatched_alike henv actual fun _ => Iff.rfl]
    split
    · exact agree_pure _
    · exact agree_report _ _

theorem agree_visit {limit : Nat} {body body' : Check Union} (step : Nat) (span : Span) (h : Agree body body') :
    Agree (visit limit step span body) (visit limit step span body') := by
  intro s s' hs
  rw [visit_eq, visit_eq, ← hs.depth]
  split
  · exact ⟨rfl, hs.apply _⟩
  · obtain ⟨hvalue, hstate⟩ := h _ _ (hs.apply (.descend step))
    dsimp only
    rw [hvalue]
    exact ⟨rfl, hstate.apply _⟩

theorem agree_within {body body' : Check Unit} (kind : FrameKind) (h : Agree body body') :
    Agree (within kind body) (within kind body') :=
  agree_bind (agree_change _) fun _ => agree_bind h fun _ => agree_change _

theorem agree_returning {body body' : Check Unit} (types : Option Union) (h : Agree body body') :
    Agree (returning types body) (returning types body') :=
  agree_bind (agree_perform _) fun _ => agree_bind h fun _ => agree_perform _

end Steps

/-! ## The leaves of a walk -/

theorem agree_typeOfName (span : Span) (name : String) : Agree (typeOfName span name) (typeOfName span name) :=
  agree_environment fun env env' henv => by
    rw [henv.findVariable? name, henv.findFunction? name]
    generalize env.findType? name = found, env'.findType? name = found', henv.findType? name = hfound
    cases hfound with
    | some ht =>
      cases env'.findVariable? name with
      | some v => exact agree_pure _
      | none => exact agree_pure _
    | none =>
      cases env'.findVariable? name with
      | some v => exact agree_pure _
      | none =>
        cases env'.findFunction? name with
        | some f => exact agree_pure _
        | none => exact agree_bind (agree_report _ _) fun _ => agree_pure _

/-- Alike environments have the same types for an attribute of a type. -/
theorem attribute?_alike {env env' : Environment} (henv : env.Alike env') (type name : String) :
    ((env.findType? type).bind fun entry => entry.attribute? name).map TypedName.types =
      ((env'.findType? type).bind fun entry => entry.attribute? name).map TypedName.types := by
  generalize env.findType? type = found, env'.findType? type = found', henv.findType? type = hfound
  cases hfound with
  | none => rfl
  | some ht => exact ht.attribute? name

theorem agree_typeOfAttribute (object : Union) (access : Expression) :
    Agree (typeOfAttribute object access) (typeOfAttribute object access) :=
  agree_environment fun env env' henv => by
    split
    · rename_i name t _ _
      rw [attribute?_alike henv t.name name]
      exact agree_ite (agree_pure _) (agree_pure _)
    · exact agree_pure _

theorem agree_assignTo (span targetSpan : Span) (name : String) (value : Union) :
    Agree (assignTo span targetSpan name value) (assignTo span targetSpan name value) :=
  agree_environment fun env env' henv => by
    rw [henv.findVariable? name]
    split
    · exact agree_bind (agree_report _ _) fun _ => agree_pure _
    · exact agree_ite (agree_bind (agree_report _ _) fun _ => agree_pure _)
        (agree_bind (agree_requireMatch _ _ _ _) fun _ => agree_pure _)

/-! ### Calls -/

theorem agree_checkConstructor {t t' : TypeEntry} (ht : t.Alike t') : ∀ arguments : List (Argument × Union),
    Agree (checkConstructor t arguments) (checkConstructor t' arguments)
  | [] => agree_pure _
  | (argument, actual) :: rest => by
    have hrest := agree_checkConstructor ht rest
    rw [checkConstructor, checkConstructor, ht.name]
    split
    · exact hrest
    · rename_i name nameSpan _
      have hattribute := ht.attribute? name
      revert hattribute
      cases t.attribute? name <;> cases t'.attribute? name <;> intro hattribute
      · exact agree_bind (agree_report _ _) fun _ => hrest
      · exact nomatch hattribute
      · exact nomatch hattribute
      · rename_i known known'
        have htypes : known.types = known'.types := Option.some.inj hattribute
        dsimp only
        rw [htypes]
        exact agree_bind (agree_requireMatch _ _ _ _) fun _ => hrest

theorem agree_checkArgument (f : FunctionSignature) (argument : Argument) (actual : Union)
    (bound : Option ParameterSignature) :
    Agree (checkArgument f argument actual bound) (checkArgument f argument actual bound) := by
  unfold checkArgument
  split
  · exact agree_requireMatch _ _ _ _
  · split
    · exact agree_ite (agree_pure _) (agree_report _ _)
    · exact agree_pure _

theorem agree_checkArguments (f : FunctionSignature) : ∀ (arguments : List (Argument × Union))
    (bound : List (Option ParameterSignature)), Agree (checkArguments f arguments bound) (checkArguments f arguments bound)
  | (argument, actual) :: rest, bound :: more => by
    rw [checkArguments]
    exact agree_bind (agree_checkArgument f argument actual bound) fun _ => agree_checkArguments f rest more
  | [], _ => agree_pure _
  | _ :: _, [] => agree_pure _

/-- Two callees that are the same, but for alike types. -/
inductive Callee.Alike : Callee → Callee → Prop
  | same (c : Callee) : Alike c c
  | constructor {t t' : TypeEntry} (h : t.Alike t') : Alike (.constructor t) (.constructor t')

theorem calleeOf_alike {env env' : Environment} (henv : env.Alike env') (name : String) :
    (calleeOf env name).Alike (calleeOf env' name) := by
  unfold calleeOf
  rw [henv.findVariable? name, henv.findFunction? name]
  generalize env.findType? name = found, env'.findType? name = found', henv.findType? name = hfound
  cases hfound with
  | none => exact .same _
  | some ht =>
    cases env'.findVariable? name with
    | some v => exact .same _
    | none => exact .constructor ht

theorem agree_finishCall (arguments : List Argument) (actuals : List Union) {c c' : Callee} (h : c.Alike c') :
    Agree (finishCall arguments actuals c) (finishCall arguments actuals c') := by
  cases h with
  | constructor ht =>
    unfold finishCall
    dsimp only
    rw [ht.kind, ht.name]
    exact agree_ite (agree_bind (agree_checkConstructor ht _) fun _ => agree_pure _) (agree_pure _)
  | same =>
    cases c with
    | value => exact agree_pure _
    | constructor t =>
      exact agree_ite (agree_bind (agree_checkConstructor (.refl t) _) fun _ => agree_pure _) (agree_pure _)
    | function f => exact agree_bind (agree_checkArguments f _ _) fun _ => agree_pure _
    | host => exact agree_pure _

theorem agree_callNamed (name : String) (arguments : List Argument) {inferred inferred' : Check (List Union)}
    (h : Agree inferred inferred') : Agree (callNamed name arguments inferred) (callNamed name arguments inferred') :=
  agree_environment fun _ _ henv =>
    agree_bind h fun _ => agree_finishCall arguments _ (calleeOf_alike henv name)

/-! ### Declarations -/

theorem agree_requireAttributes : ∀ attributes : List TypedName,
    Agree (requireAttributes attributes) (requireAttributes attributes)
  | [] => agree_pure _
  | _ :: rest => agree_bind (agree_requireDefined _ _) fun _ => agree_requireAttributes rest

theorem agree_declareType (d : TypeDeclaration) : Agree (declareType d) (declareType d) :=
  agree_environment fun env env' henv => by
    generalize env.findType? d.name = found, env'.findType? d.name = found', henv.findType? d.name = hfound
    cases hfound with
    | none =>
      exact agree_bind (agree_change _) fun _ => agree_bind (agree_requireDefined _ _) fun _ =>
        agree_requireAttributes _
    | some ht =>
      dsimp only
      rw [ht.builtin]
      exact agree_report _ _

theorem agree_declareBinding (constant : Bool) (target : TypedName) (actual : Option Union) :
    Agree (declareBinding constant target actual) (declareBinding constant target actual) :=
  agree_environment fun env env' henv => by
    rw [henv.findVariable? target.name]
    split
    · exact agree_report _ _
    · refine agree_bind (agree_requireDefined _ _) fun _ => ?_
      split
      · exact agree_bind (agree_requireMatch _ _ _ _) fun _ => agree_change _
      · exact agree_change _

theorem agree_declareFunction (f : FunctionLiteral) : Agree (declareFunction f) (declareFunction f) := by
  unfold declareFunction
  split
  · exact agree_bind (agree_requireDefined _ _) fun _ => agree_pure _
  · refine agree_environment fun env env' henv => ?_
    rw [henv.declaresFunctionHere]
    exact agree_ite (agree_report _ _) (agree_change _)
  · exact agree_pure _

theorem checkReturn_eq (actual : Union) (span : Span) (s : CheckState) :
    checkReturn actual span s =
      (match s.returns with
        | [] => report .returnOutsideFunction span
        | some expected :: _ => requireMatch actual expected span .returnValue
        | none :: _ => pure () : Check Unit) s := rfl

theorem agree_checkReturn (actual : Union) (span : Span) : Agree (checkReturn actual span) (checkReturn actual span) := by
  intro s s' hs
  rw [checkReturn_eq, checkReturn_eq, ← hs.returns]
  cases s.returns with
  | nil => exact agree_report _ _ s s' hs
  | cons types rest =>
    cases types with
    | none => exact agree_pure _ s s' hs
    | some expected => exact agree_requireMatch _ _ _ _ s s' hs

/-! ## The walk -/

/-- **A walk comes out the same in alike scopes.** -/
theorem agree_closed (limit : Nat) : WalkRelated limit limit fun _ {_} step step' => Agree step step' where
  pure := agree_pure
  bind := agree_bind
  ofExpression := id
  ofStatement := id
  report := agree_report
  package? := agree_package?
  inFunction := fun _ _ hs => ⟨hs.environment.inFunction, hs⟩
  inLoop := fun _ _ hs => ⟨hs.environment.inLoop, hs⟩
  requireDefined := agree_requireDefined
  requireMatch := agree_requireMatch
  typeOfName := agree_typeOfName
  typeOfAttribute := agree_typeOfAttribute
  assignTo := agree_assignTo
  callNamed := agree_callNamed
  declareType := agree_declareType
  declareBinding := agree_declareBinding
  declareFunction := agree_declareFunction
  declareLocal := fun _ _ _ => agree_change _
  checkReturn := agree_checkReturn
  visit := agree_visit
  within := agree_within
  returning := agree_returning

end Check
end UnionScript
