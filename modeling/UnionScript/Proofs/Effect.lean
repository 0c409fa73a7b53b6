import UnionScript.Proofs.Walk
/-!
# Effect — what checking can do to the checker's state

Walking an expression or a statement takes the checker from one state to another by effects of few kinds: it reports,
asks for packages, files types, declares functions, variables and types under names that are free, and opens frames
that it closes again (`Effect`).  Every walk is such an effect (`does_closed`), so what all effects keep, every walk
keeps.
-/
namespace UnionScript
namespace Check

/-! ## Effects -/

/-- What a walk can do: single effects, and effects inside a deeper expression, a frame or a function. -/
inductive Effect (limit : Nat) : Extent → CheckState → CheckState → Prop
  | nothing {x : Extent} (s : CheckState) : Effect limit x s s
  | andThen {x : Extent} {s t u : CheckState} (first : Effect limit x s t) (second : Effect limit x t u) :
    Effect limit x s u
  | report {x : Extent} (s : CheckState) (rs : List Report) : Effect limit x s ((Act.report rs).apply s)
  | ask {x : Extent} (s : CheckState) (name : String) : Effect limit x s (package? name s).2
  | function {x : Extent} (s : CheckState) (g : FunctionSignature)
    (hfree : s.environment.declaresFunctionHere g.name = false) : Effect limit x s (change (.function g) s).2
  | variable {x : Extent} (s : CheckState) (v : Variable) (hx : x ≠ .expression)
    (hfree : s.environment.findVariable? v.name = none) : Effect limit x s (change (.variable v) s).2
  | type {x : Extent} (s : CheckState) (t : TypeEntry) (hx : x ≠ .expression)
    (hfree : s.environment.findType? t.name = none) : Effect limit x s (change (.type t) s).2
  | local (s : CheckState) (v : Variable) : Effect limit .body s (change (.variable v) s).2
  | deeper {x : Extent} {s t : CheckState} (step : Nat) (span : Span) (types : Union)
    (hlimit : s.depth + step ≤ limit) (inside : Effect limit .expression ((Act.descend step).apply s) t) :
    Effect limit x s ((Act.file step span types).apply t)
  | within {x : Extent} {s t : CheckState} (kind : FrameKind)
    (inside : Effect limit .body (change (.push kind) s).2 t) : Effect limit x s (change .pop t).2
  | returning {s t : CheckState} (types : Option Union)
    (inside : Effect limit .body ((Act.enter types).apply s) t) : Effect limit .body s (Act.leave.apply t)

/-- Whatever the innermost frame may gain from an expression it may gain from a statement, and so on. -/
theorem Effect.ofExpression {limit : Nat} {x y : Extent} {s t : CheckState} (h : Effect limit y s t)
    (hy : y = .expression) : Effect limit x s t := by
  induction h with
  | nothing s => exact .nothing s
  | andThen _ _ ih ih' => exact .andThen (ih hy) (ih' hy)
  | report s rs => exact .report s rs
  | ask s name => exact .ask s name
  | function s g hfree => exact .function s g hfree
  | «variable» s v hx => exact absurd hy hx
  | type s t hx => exact absurd hy hx
  | «local» => cases hy
  | deeper step span types hlimit inside => exact .deeper step span types hlimit inside
  | within kind inside => exact .within kind inside
  | returning => cases hy

theorem Effect.ofStatement {limit : Nat} {y : Extent} {s t : CheckState} (h : Effect limit y s t)
    (hy : y = .statement) : Effect limit .body s t := by
  induction h with
  | nothing s => exact .nothing s
  | andThen _ _ ih ih' => exact .andThen (ih hy) (ih' hy)
  | report s rs => exact .report s rs
  | ask s name => exact .ask s name
  | function s g hfree => exact .function s g hfree
  | «variable» s v _ hfree => exact .variable s v (by decide) hfree
  | type s t _ hfree => exact .type s t (by decide) hfree
  | «local» => cases hy
  | deeper step span types hlimit inside => exact .deeper step span types hlimit inside
  | within kind inside => exact .within kind inside
  | returning => cases hy

/-! ## Reports -/

end Check

/-- A state in which some more was reported, one report after the other, and nothing else done. -/
def CheckState.reporting (s : CheckState) (rs : List Report) : CheckState :=
  { s with reports := rs.reverse ++ s.reports, course := (rs.map fun r => Act.report [r]).reverse ++ s.course }

theorem CheckState.reporting_append (s : CheckState) (rs more : List Report) :
    (s.reporting rs).reporting more = s.reporting (rs ++ more) := by
  simp [reporting]

namespace Check

/-! ## Steps -/

/-- A step of the checker has effects of an extent only. -/
def Does (limit : Nat) (x : Extent) {α : Type} (step : Check α) : Prop :=
  ∀ s, Effect limit x s (step s).2

section Steps

variable {limit : Nat} {x : Extent} {α β : Type}

theorem does_pure (a : α) : Does limit x (pure a : Check α) := fun s => .nothing s

theorem does_bind {step : Check α} {next : α → Check β} (h : Does limit x step) (hnext : ∀ a, Does limit x (next a)) :
    Does limit x (step >>= next) :=
  fun s => .andThen (h s) (hnext (step s).1 (step s).2)

theorem does_environment : Does limit x environment := fun s => .nothing s

theorem does_get : Does limit x (get : Check CheckState) := fun s => .nothing s

theorem does_report (finding : Finding) (span : Span) : Does limit x (report finding span) :=
  fun s => .report s [⟨finding, span⟩]

theorem does_package? (name : String) : Does limit x (package? name) := fun s => .ask s name

theorem does_ofExpression {step : Check α} (h : Does limit .expression step) : Does limit x step :=
  fun s => (h s).ofExpression rfl

theorem does_ofStatement {step : Check α} (h : Does limit .statement step) : Does limit .body step :=
  fun s => (h s).ofStatement rfl

theorem does_ite {c : Bool} {step step' : Check α} (h : Does limit x step) (h' : Does limit x step') :
    Does limit x (if c then step else step') := by
  cases c
  · exact h'
  · exact h

theorem does_requireDefined (types : Union) (span : Span) : Does limit x (requireDefined types span) :=
  fun s => .report s _

theorem does_requireMatch (actual expected : Union) (span : Span) (subject : Subject) :
    Does limit x (requireMatch actual expected span subject) :=
  does_bind does_environment fun env => by
    split
    · exact does_pure _
    · exact does_report _ _

theorem does_visit {body : Check Union} (step : Nat) (span : Span) (h : Does limit .expression body) :
    Does limit x (visit limit step span body) := by
  intro s
  rw [visit_eq]
  split
  · exact .report s _
  · rename_i hlimit
    exact .deeper step span _ (Nat.le_of_not_lt hlimit) (h _)

theorem does_within {body : Check Unit} (kind : FrameKind) (h : Does limit .body body) :
    Does limit x (within kind body) :=
  fun s => .within kind (h (change (.push kind) s).2)

theorem does_returning {body : Check Unit} (types : Option Union) (h : Does limit .body body) :
    Does limit .body (returning types body) :=
  fun s => .returning types (h ((Act.enter types).apply s))

/-- A step that looks at the scopes first. -/
theorem does_of_environment {next : Environment → Check α}
    (h : ∀ s, Effect limit x s (next s.environment s).2) : Does limit x (environment >>= next) := h

end Steps

/-! ## The parts of a walk -/

section Parts

variable {limit : Nat} {x : Extent}

theorem does_typeOfName (span : Span) (name : String) : Does limit x (typeOfName span name) :=
  does_bind does_environment fun env => by
    split
    · exact does_pure _
    · exact does_pure _
    · exact does_pure _
    · exact does_bind (does_report _ _) fun _ => does_pure _

theorem does_typeOfAttribute (object : Union) (access : Expression) : Does limit x (typeOfAttribute object access) :=
  does_bind does_environment fun env => by
    split
    · exact does_ite (does_pure _) (does_pure _)
    · exact does_pure _

theorem does_assignTo (span targetSpan : Span) (name : String) (value : Union) :
    Does limit x (assignTo span targetSpan name value) :=
  does_bind does_environment fun env => by
    split
    · exact does_bind (does_report _ _) fun _ => does_pure _
    · exact does_ite (does_bind (does_report _ _) fun _ => does_pure _)
        (does_bind (does_requireMatch _ _ _ _) fun _ => does_pure _)

/-! ### Calls -/

theorem does_checkConstructor (t : TypeEntry) : ∀ arguments : List (Argument × Union),
    Does limit x (checkConstructor t arguments)
  | [] => does_pure _
  | (argument, actual) :: rest => by
    rw [checkConstructor]
    have hrest : Does limit x (checkConstructor t rest) := does_checkConstructor t rest
    split
    · exact hrest
    · split
      · exact does_bind (does_requireMatch _ _ _ _) fun _ => hrest
      · exact does_bind (does_report _ _) fun _ => hrest

theorem does_checkArgument (f : FunctionSignature) (argument : Argument) (actual : Union)
    (bound : Option ParameterSignature) : Does limit x (checkArgument f argument actual bound) := by
  unfold checkArgument
  split
  · exact does_requireMatch _ _ _ _
  · split
    · exact does_ite (does_pure _) (does_report _ _)
    · exact does_pure _

theorem does_checkArguments (f : FunctionSignature) : ∀ (arguments : List (Argument × Union))
    (bound : List (Option ParameterSignature)), Does limit x (checkArguments f arguments bound)
  | (argument, actual) :: rest, bound :: more => by
    rw [checkArguments]
    exact does_bind (does_checkArgument f argument actual bound) fun _ => does_checkArguments f rest more
  | [], _ => does_pure _
  | _ :: _, [] => does_pure _

theorem does_finishCall (arguments : List Argument) (actuals : List Union) (callee : Callee) :
    Does limit x (finishCall arguments actuals callee) := by
  cases callee with
  | value => exact does_pure _
  | constructor t =>
    exact does_ite (does_bind (does_checkConstructor t _) fun _ => does_pure _) (does_pure _)
  | function f => exact does_bind (does_checkArguments f _ _) fun _ => does_pure _
  | host => exact does_pure _

/-! ### Declarations -/

theorem does_requireAttributes : ∀ attributes : List TypedName, Does limit x (requireAttributes attributes)
  | [] => does_pure _
  | _ :: rest => does_bind (does_requireDefined _ _) fun _ => does_requireAttributes rest

/-- A type is declared only where its name is free. -/
theorem does_declareType (d : TypeDeclaration) : Does limit .statement (declareType d) := by
  refine does_of_environment fun s => ?_
  cases hfree : s.environment.findType? d.name with
  | some existing => exact .report s _
  | none =>
    refine .andThen (.type s (entryOf d) (by decide) hfree) ?_
    exact does_bind (does_requireDefined _ _) (fun _ => does_requireAttributes d.attributes) _

theorem requireMatch_eq (actual expected : Union) (span : Span) (subject : Subject) (s : CheckState) :
    requireMatch actual expected span subject s = (match s.environment.unmatched actual expected with
      | [] => pure ()
      | t :: rest => report (.mismatch subject expected (.ofList (t :: rest))) span : Check Unit) s := rfl

theorem requireMatch_environment (actual expected : Union) (span : Span) (subject : Subject) (s : CheckState) :
    (requireMatch actual expected span subject s).2.environment = s.environment := by
  rw [requireMatch_eq]
  cases s.environment.unmatched actual expected <;> rfl

/-- A step that has effects of an extent only when the scopes are some given ones. -/
def DoesIn (limit : Nat) (x : Extent) (env : Environment) {α : Type} (step : Check α) : Prop :=
  ∀ s, s.environment = env → Effect limit x s (step s).2

theorem doesIn_bind {env : Environment} {α β : Type} {step : Check α} {next : α → Check β} (h : Does limit x step)
    (hkeeps : ∀ s, (step s).2.environment = s.environment) (hnext : ∀ a, DoesIn limit x env (next a)) :
    DoesIn limit x env (step >>= next) :=
  fun s hs => .andThen (h s) (hnext _ _ ((hkeeps s).trans hs))

/-- A variable is declared only where its name is free; nothing is declared between the question and the declaration. -/
theorem does_declareBinding (constant : Bool) (target : TypedName) (actual : Option Union) :
    Does limit .statement (declareBinding constant target actual) := by
  refine does_of_environment fun s => ?_
  cases hfree : s.environment.findVariable? target.name with
  | some _ => exact .report s _
  | none =>
    have hdeclare : DoesIn limit .statement s.environment
        (change (.variable { name := target.name, types := target.types, constant, span := target.span })) :=
      fun t ht => .variable t _ (by decide) (ht ▸ hfree)
    refine doesIn_bind (does_requireDefined target.types target.span) (fun _ => rfl) (fun defined => ?_) s rfl
    split
    · exact doesIn_bind (does_requireMatch _ _ _ _) (requireMatch_environment _ _ _ _) fun _ => hdeclare
    · exact hdeclare

theorem does_declareFunction (f : FunctionLiteral) : Does limit x (declareFunction f) := by
  unfold declareFunction
  split
  · exact does_bind (does_requireDefined _ _) fun _ => does_pure _
  · rename_i name _ _
    refine does_of_environment fun s => ?_
    cases hfree : s.environment.declaresFunctionHere name with
    | true => exact .report s _
    | false => exact .function s _ hfree
  · exact does_pure _

theorem does_declareLocal (name : String) (types : Union) (span : Span) :
    Does limit .body (declareLocal name types span) :=
  fun s => .local s _

theorem does_checkReturn (actual : Union) (span : Span) : Does limit x (checkReturn actual span) :=
  does_bind does_get fun s => by
    split
    · exact does_report _ _
    · exact does_requireMatch _ _ _ _
    · exact does_pure _

end Parts

/-! ## The walk -/

/-- **Every walk has effects of its extent only.** -/
theorem does_closed (limit : Nat) : WalkClosed limit fun x {_} step => Does limit x step where
  pure := does_pure
  bind := does_bind
  ofExpression := does_ofExpression
  ofStatement := does_ofStatement
  report := does_report
  package? := does_package?
  inFunction := fun s => .nothing s
  inLoop := fun s => .nothing s
  requireDefined := does_requireDefined
  requireMatch := does_requireMatch
  typeOfName := does_typeOfName
  typeOfAttribute := does_typeOfAttribute
  assignTo := does_assignTo
  callNamed := fun _ _ _ _ h => does_bind does_environment fun _ => does_bind h fun _ => does_finishCall _ _ _
  declareType := does_declareType
  declareBinding := does_declareBinding
  declareFunction := does_declareFunction
  declareLocal := does_declareLocal
  checkReturn := does_checkReturn
  visit := does_visit
  within := does_within
  returning := does_returning

end Check
end UnionScript
