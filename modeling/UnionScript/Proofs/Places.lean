import UnionScript.Proofs.Balance
import UnionScript.Proofs.Descent
import UnionScript.Proofs.Upholding
/-!
# Places — where in a program a walk comes by

A walk looks into the parts of what it walks, one after the other (`Node.Part`); some of them stand in a frame that is
opened for them (`Enclosure`).  So every expression or statement it comes by stands at a place: behind a list of what is
open around it (`Stands`).  Unless nesting is reported the walk of a program passes every such place (`passes_stands`), in a
state that is told by the place alone as far as the open frames and the expected return types go.
-/
namespace UnionScript

/-! ## Parts -/

def Expression.isIdentifier : Expression → Bool
  | .identifier .. => true
  | _ => false

/-- Whether the walk infers the types of an operator's left operand: not those of the two package accesses, and not a name
that is given a value. -/
def BinaryOperator.infersLeft (operator : BinaryOperator) (left : Expression) : Bool :=
  match operator with
  | .namespaceAccess | .internalAccess => false
  | _ => !(operator.isAssignment && left.isIdentifier)

/-- What is walked: an expression, some levels deeper than what is around it, or a statement. -/
inductive Node where
  | expression (step : Nat) (e : Expression)
  | statement (s : Statement)

namespace Node

/-- An expression is walked for its types, a statement for nothing. -/
def Answer : Node → Type
  | .expression .. => Union
  | .statement _ => Unit

def walk (limit : Nat) : (n : Node) → Check n.Answer
  | .expression step e => Check.infer limit step e
  | .statement s => Check.walkStatement limit s

end Node

/-- What opens a frame around a place; the parameters of a function and its body are in one frame. -/
inductive Enclosure where
  | parameters (f : FunctionLiteral)
  | body (f : FunctionLiteral)
  | loop
  | branch
  | block

namespace Enclosure

def kind : Enclosure → FrameKind
  | parameters _ | body _ => .function
  | loop => .loop
  | branch => .branch
  | block => .block

/-- The function whose body it is. -/
def body? : Enclosure → Option FunctionLiteral
  | body f => some f
  | _ => none

end Enclosure

/-- One node is a part of another that the walk of the latter looks into, perhaps inside a frame that it opens. -/
inductive Node.Part : Node → Option Enclosure → Node → Prop
  | element {step span elements e} (h : e ∈ elements) :
    Part (.expression step (.vector span elements)) none (.expression 1 e)
  | operand {step span operator e} : Part (.expression step (.unary span operator e)) none (.expression 1 e)
  | left {step span operator left right} (h : operator.infersLeft left) :
    Part (.expression step (.binary span operator left right)) none (.expression 0 left)
  | right {step span operator left right} (h : !operator.isAccess) :
    Part (.expression step (.binary span operator left right)) none (.expression 1 right)
  | branchCondition {step span e consequence alternative} :
    Part (.expression step (.conditional span e consequence alternative)) none (.expression 1 e)
  | consequence {step span e block alternative s} (h : s ∈ block.statements) :
    Part (.expression step (.conditional span e block alternative)) (some .branch) (.statement s)
  | alternative {step span e consequence block s} (h : s ∈ block.statements) :
    Part (.expression step (.conditional span e consequence (some block))) (some .branch) (.statement s)
  | iterable {step span loopVariable e body} :
    Part (.expression step (.forLoop span loopVariable e body)) none (.expression 1 e)
  | forBody {step span loopVariable e body s} (h : s ∈ body.statements) :
    Part (.expression step (.forLoop span loopVariable e body)) (some .loop) (.statement s)
  | loopCondition {step span e body} : Part (.expression step (.whileLoop span e body)) none (.expression 1 e)
  | whileBody {step span e body s} (h : s ∈ body.statements) :
    Part (.expression step (.whileLoop span e body)) (some .loop) (.statement s)
  | repeatBody {step span body s} (h : s ∈ body.statements) :
    Part (.expression step (.repeatLoop span body)) (some .loop) (.statement s)
  | default {step span f p e} (h : p ∈ f.parameters) (hdefault : p.default = some e) :
    Part (.expression step (.function span f)) (some (.parameters f)) (.expression 1 e)
  | functionBody {step span f s} (h : s ∈ f.body.statements) :
    Part (.expression step (.function span f)) (some (.body f)) (.statement s)
  | callee {step span e arguments} (h : !e.isIdentifier) :
    Part (.expression step (.call span e arguments)) none (.expression 0 e)
  | argument {step span callee arguments a} (h : a ∈ arguments) :
    Part (.expression step (.call span callee arguments)) none (.expression 1 a.value)
  | object {step span e arguments double} :
    Part (.expression step (.index span e arguments double)) none (.expression 0 e)
  | position {step span object arguments double a} (h : a ∈ arguments) :
    Part (.expression step (.index span object arguments double)) none (.expression 1 a.value)
  | bound {constant target e} : Part (.statement (.binding constant target (some e))) none (.expression 1 e)
  | returned {e span} : Part (.statement (.return (some e) span)) none (.expression 1 e)
  | deferred {e span} : Part (.statement (.defer e span)) none (.expression 1 e)
  | inBlock {block s} (h : s ∈ block.statements) : Part (.statement (.block block)) (some .block) (.statement s)
  | expression {e} : Part (.statement (.expression e)) none (.expression 1 e)

/-- A node stands among some statements or in what they are made of, where the walk comes by, behind what is open around
it, the innermost first. -/
inductive Stands (statements : List Statement) : List Enclosure → Node → Prop
  | among {s} (h : s ∈ statements) : Stands statements [] (.statement s)
  | within {around opened n m} (h : Stands statements around n) (hpart : n.Part opened m) :
    Stands statements (opened.toList ++ around) m

/-! ## Passing a place -/

/-- A state is at a place in a program that is walked from some scopes: the frames behind those of the scopes are those of
the place, and what is expected to be returned is what the functions around it declare in whose bodies it is. -/
structure CheckState.IsAt (t : CheckState) (environment : Environment) (around : List Enclosure) : Prop where
  kinds : t.environment.frames.map Frame.kind = around.map Enclosure.kind ++ environment.frames.map Frame.kind
  returns : t.returns = (around.filterMap Enclosure.body?).map FunctionLiteral.returnTypes

/-- The frames and expected returns of a state are those of another one behind some more. -/
structure CheckState.IsInside (s : CheckState) (kinds : List FrameKind) (returns : List (Option Union))
    (t : CheckState) : Prop where
  kinds : t.environment.frames.map Frame.kind = kinds ++ s.environment.frames.map Frame.kind
  returns : t.returns = returns ++ s.returns

namespace CheckState

variable {s t u : CheckState} {kinds kinds' : List FrameKind} {returns returns' : List (Option Union)}

theorem IsInside.trans (h : s.IsInside kinds returns t) (h' : t.IsInside kinds' returns' u) :
    s.IsInside (kinds' ++ kinds) (returns' ++ returns) u where
  kinds := by rw [h'.kinds, h.kinds, List.append_assoc]
  returns := by rw [h'.returns, h.returns, List.append_assoc]

theorem Continues.isInside {x : Check.Extent} (h : s.Continues x t) : s.IsInside [] [] t where
  kinds := by
    have hcurrent : t.environment.current.kind = s.environment.current.kind := by
      cases x with
      | body => exact h.current
      | _ => exact h.current.1
    rw [Environment.frames_eq, Environment.frames_eq s.environment, h.below, List.map_cons, List.map_cons, hcurrent]
    rfl
  returns := h.returns

end CheckState

namespace Check

/-- What two relations of steps pass on, both of them together do. -/
theorem WalkRelated.and {limit limit' : Nat} {R R' : Extent → {α : Type} → Check α → Check α → Prop}
    (h : WalkRelated limit limit' R) (h' : WalkRelated limit limit' R') :
    WalkRelated limit limit' fun x {_} step step' => R x step step' ∧ R' x step step' where
  pure a := ⟨h.pure a, h'.pure a⟩
  bind hstep hnext := ⟨h.bind hstep.1 fun a => (hnext a).1, h'.bind hstep.2 fun a => (hnext a).2⟩
  ofExpression hstep := ⟨h.ofExpression hstep.1, h'.ofExpression hstep.2⟩
  ofStatement hstep := ⟨h.ofStatement hstep.1, h'.ofStatement hstep.2⟩
  report finding span := ⟨h.report finding span, h'.report finding span⟩
  package? name := ⟨h.package? name, h'.package? name⟩
  inFunction := ⟨h.inFunction, h'.inFunction⟩
  inLoop := ⟨h.inLoop, h'.inLoop⟩
  requireDefined types span := ⟨h.requireDefined types span, h'.requireDefined types span⟩
  requireMatch actual expected span subject :=
    ⟨h.requireMatch actual expected span subject, h'.requireMatch actual expected span subject⟩
  typeOfName span name := ⟨h.typeOfName span name, h'.typeOfName span name⟩
  typeOfAttribute object access := ⟨h.typeOfAttribute object access, h'.typeOfAttribute object access⟩
  assignTo span targetSpan name value := ⟨h.assignTo span targetSpan name value, h'.assignTo span targetSpan name value⟩
  callNamed := fun name arguments _ _ hinferred =>
    ⟨h.callNamed name arguments hinferred.1, h'.callNamed name arguments hinferred.2⟩
  declareType d := ⟨h.declareType d, h'.declareType d⟩
  declareBinding constant target actual :=
    ⟨h.declareBinding constant target actual, h'.declareBinding constant target actual⟩
  declareFunction f := ⟨h.declareFunction f, h'.declareFunction f⟩
  declareLocal name types span := ⟨h.declareLocal name types span, h'.declareLocal name types span⟩
  checkReturn actual span := ⟨h.checkReturn actual span, h'.checkReturn actual span⟩
  visit step span hbody := ⟨h.visit step span hbody.1, h'.visit step span hbody.2⟩
  within kind hbody := ⟨h.within kind hbody.1, h'.within kind hbody.2⟩
  returning types hbody := ⟨h.returning types hbody.1, h'.returning types hbody.2⟩

/-- A step that performs acts and gives back the scopes and the expected returns. -/
def Settles (limit : Nat) (x : Extent) {α : Type} (step : Check α) : Prop := Proceeds step ∧ Does limit x step

theorem settles (limit : Nat) : WalkClosed limit fun x {_} step => Settles limit x step :=
  WalkRelated.and (proceeds_walk limit) (does_closed limit)

theorem settles_environment (limit : Nat) : Settles limit .body environment := ⟨proceeds_look _, does_environment⟩

section Passes

variable {limit : Nat} {α β γ : Type} {x : Extent} {s : CheckState} {kinds kinds' : List FrameKind}
  {returns returns' : List (Option Union)} {inner : Check γ}

theorem Performs.reportsNesting {step : Check α} {acts : List Act} (h : Performs step s acts)
    (hnesting : s.ReportsNesting) : (step s).2.ReportsNesting :=
  let ⟨r, hr, hfinding⟩ := hnesting
  ⟨r, h.after_eq ▸ CheckState.reports_subset_after acts s hr, hfinding⟩

/-- The acts of a visit that is not beyond the limit are those of its body between going down and coming back. -/
theorem performs_visit {body : Check Union} {acts : List Act} (step : Nat) (span : Span)
    (hwithin : ¬limit < s.depth + step) (h : Performs body ((Act.descend step).apply s) acts) :
    let inferred := (body ((Act.descend step).apply s)).1
    let types := if inferred.isEmpty then Union.any else inferred
    Performs (visit limit step span body) s (.descend step :: (acts ++ [.file step span types])) := by
  intro inferred types
  show Performs (visit limit step span body) s ([] ++ ([.descend step] ++ (acts ++ ([.file step span types] ++ []))))
  refine .bind (.look id s) ?_
  have hlook : ¬((get : Check CheckState) s).1.depth + step > limit := hwithin
  rw [if_neg hlook]
  refine .bind (.perform (.descend step) s) (h.bind ?_)
  exact .bind (.perform (.file step span types) _) (.look (fun _ => types) _)

/-- A visit that is beyond the limit is one report. -/
theorem performs_visit_beyond (body : Check Union) (step : Nat) (span : Span) (hbeyond : limit < s.depth + step) :
    Performs (visit limit step span body) s [.report [⟨.nestingTooDeep limit, span⟩]] := by
  show Performs (visit limit step span body) s ([] ++ ([.report [⟨.nestingTooDeep limit, span⟩]] ++ []))
  refine .bind (.look id s) ?_
  have hlook : ((get : Check CheckState) s).1.depth + step > limit := hbeyond
  rw [if_pos hlook]
  exact .bind (.perform (.report [⟨.nestingTooDeep limit, span⟩]) s) (.look (fun _ => Union.any) _)

/-- **An expression files what it answers.**  Unless it reports nesting its walk goes down, looks at its parts, and comes
back filing the types it answers under its span. -/
theorem performs_infer (limit step : Nat) (e : Expression) (hquiet : ¬(infer limit step e s).2.ReportsNesting) :
    ∃ inside, Performs (infer limit step e) s
      (.descend step :: (inside ++ [.file step e.span (infer limit step e s).1])) := by
  obtain ⟨body, -, hvisit, -, hbody⟩ := (proceeds_walk limit).visits step e
  rw [hvisit] at hquiet ⊢
  by_cases hbeyond : limit < s.depth + step
  · rw [visit_eq, if_pos hbeyond] at hquiet
    exact absurd ⟨_, List.mem_cons_self, rfl⟩ hquiet
  · obtain ⟨inside, hinside, -⟩ := hbody ((Act.descend step).apply s)
    rw [visit_eq, if_neg hbeyond]
    exact ⟨inside, performs_visit step e.span hbeyond hinside⟩

/-- The acts of a frame are those of its body between entering and leaving it. -/
theorem performs_within {body : Check Unit} {acts : List Act} (kind : FrameKind)
    (h : Performs body (change (.push kind) s).2 acts) :
    Performs (within kind body) s (.change (.push kind) :: (acts ++ [.change .pop])) := by
  show Performs (within kind body) s ([.change (.push kind)] ++ (acts ++ [.change .pop]))
  exact .bind (.perform (.change (.push kind)) s) (h.bind (.perform (.change .pop) _))

/-- The acts of a function's body are between entering and leaving the function. -/
theorem performs_returning {body : Check Unit} {acts : List Act} (types : Option Union)
    (h : Performs body ((Act.enter types).apply s) acts) :
    Performs (returning types body) s (.enter types :: (acts ++ [.leave])) := by
  show Performs (returning types body) s ([.enter types] ++ (acts ++ [.leave]))
  exact .bind (.perform (.enter types) s) (h.bind (.perform .leave _))

/-- A step passes another one: unless nesting is reported, it takes the other one on its way, inside some frames and
functions. -/
def Passes (step : Check α) (kinds : List FrameKind) (returns : List (Option Union)) (inner : Check γ) : Prop :=
  ∀ s, ¬(step s).2.ReportsNesting → ∃ pre post, s.IsInside kinds returns (s.after pre) ∧
    ∀ mid, Performs inner (s.after pre) mid → Performs step s (pre ++ (mid ++ post))

namespace Passes

theorem self : Passes inner [] [] inner := fun s _ =>
  ⟨[], [], ⟨rfl, rfl⟩, fun mid hmid => by rwa [List.nil_append, List.append_nil]⟩

/-- What is passed by the first of two steps. -/
theorem ahead {step : Check α} {next : α → Check β} (h : Passes step kinds returns inner)
    (hnext : ∀ a, Settles limit .body (next a)) : Passes (step >>= next) kinds returns inner := fun s hquiet => by
  obtain ⟨more, hmore, -⟩ := (hnext (step s).1).1 (step s).2
  obtain ⟨pre, post, hinside, hacts⟩ := h s fun hnesting => hquiet (hmore.reportsNesting hnesting)
  refine ⟨pre, post ++ more, hinside, fun mid hmid => ?_⟩
  have := (hacts mid hmid).bind hmore
  rwa [List.append_assoc, List.append_assoc] at this

/-- What is passed by the second of two steps. -/
theorem behind {step : Check α} {next : α → Check β} (h : Settles limit .body step)
    (hnext : ∀ a, Passes (next a) kinds returns inner) : Passes (step >>= next) kinds returns inner :=
  fun s hquiet => by
    obtain ⟨acts, hacts, -⟩ := h.1 s
    obtain ⟨pre, post, hinside, hmore⟩ := hnext (step s).1 (step s).2 hquiet
    have hafter : s.after (acts ++ pre) = (step s).2.after pre := by rw [CheckState.after_append, hacts.after_eq]
    have hkeeps : s.IsInside [] [] (step s).2 := (CheckState.Continues.ofEffect (h.2 s)).isInside
    have hinside' := hkeeps.trans hinside
    rw [List.append_nil, List.append_nil, ← hafter] at hinside'
    refine ⟨acts ++ pre, post, hinside', fun mid hmid => ?_⟩
    rw [List.append_assoc]
    exact hacts.bind (hmore mid (hafter ▸ hmid))

/-- What a step on the way passes is passed. -/
theorem trans {step : Check α} {onTheWay : Check β} (h : Passes step kinds returns onTheWay)
    (hproceeds : Proceeds onTheWay) (h' : Passes onTheWay kinds' returns' inner) :
    Passes step (kinds' ++ kinds) (returns' ++ returns) inner := fun s hquiet => by
  obtain ⟨pre, post, hinside, hacts⟩ := h s hquiet
  obtain ⟨mid, hmid, -⟩ := hproceeds (s.after pre)
  have hend : (step s).2 = (onTheWay (s.after pre)).2.after post := (hacts mid hmid).inside hmid
  obtain ⟨pre', post', hinside', hacts'⟩ := h' (s.after pre) fun ⟨r, hr, hfinding⟩ =>
    hquiet ⟨r, hend ▸ CheckState.reports_subset_after post _ hr, hfinding⟩
  refine ⟨pre ++ pre', post' ++ post, ?_, fun acts hinner => ?_⟩
  · rw [CheckState.after_append]
    exact hinside.trans hinside'
  · rw [CheckState.after_append] at hinner
    have := hacts _ (hacts' acts hinner)
    simpa only [List.append_assoc] using this

/-- An expression that is not beyond the limit is looked into. -/
theorem visit {body : Check Union} (step : Nat) (span : Span) (h : Passes body kinds returns inner) :
    Passes (visit limit step span body) kinds returns inner := fun s hquiet => by
  rw [visit_eq] at hquiet
  split at hquiet
  · exact absurd ⟨_, List.mem_cons_self, rfl⟩ hquiet
  · rename_i hwithin
    let deeper : CheckState := (Act.descend step).apply s
    have hdeeper : s.IsInside [] [] deeper := ⟨rfl, rfl⟩
    obtain ⟨pre, post, hinside, hacts⟩ := h deeper hquiet
    have hinside' := hdeeper.trans hinside
    rw [List.append_nil, List.append_nil] at hinside'
    let inferred := (body deeper).1
    let types := if inferred.isEmpty then Union.any else inferred
    refine ⟨.descend step :: pre, post ++ [.file step span types], hinside', fun mid hmid => ?_⟩
    have hstep : Performs _ s (.descend step :: (pre ++ (mid ++ post) ++ [.file step span types])) :=
      performs_visit step span hwithin (hacts mid hmid)
    rwa [List.append_assoc, List.append_assoc] at hstep

/-- What is passed inside a frame. -/
theorem within {body : Check Unit} (kind : FrameKind) (h : Passes body kinds returns inner) :
    Passes (within kind body) (kinds ++ [kind]) returns inner := fun s hquiet => by
  have hopened : s.IsInside [kind] [] (change (.push kind) s).2 := ⟨rfl, rfl⟩
  obtain ⟨pre, post, hinside, hacts⟩ := h (change (.push kind) s).2 hquiet
  have hinside' := hopened.trans hinside
  rw [List.append_nil] at hinside'
  refine ⟨.change (.push kind) :: pre, post ++ [.change .pop], hinside', fun mid hmid => ?_⟩
  have hstep := performs_within kind (hacts mid hmid)
  rwa [List.append_assoc, List.append_assoc] at hstep

/-- What is passed inside a function. -/
theorem returning {body : Check Unit} (types : Option Union) (h : Passes body kinds returns inner) :
    Passes (returning types body) kinds (returns ++ [types]) inner := fun s hquiet => by
  have hentered : s.IsInside [] [types] ((Act.enter types).apply s) := ⟨rfl, rfl⟩
  obtain ⟨pre, post, hinside, hacts⟩ := h ((Act.enter types).apply s) hquiet
  have hinside' := hentered.trans hinside
  rw [List.append_nil] at hinside'
  refine ⟨.enter types :: pre, post ++ [.leave], hinside', fun mid hmid => ?_⟩
  have hstep := performs_returning types (hacts mid hmid)
  rwa [List.append_assoc, List.append_assoc] at hstep

end Passes

/-! ## The places of a program -/

theorem passes_statement {st : Statement} : ∀ {statements : List Statement}, st ∈ statements →
    Passes (walkStatements limit statements) [] [] (walkStatement limit st)
  | first :: rest, h => by
    rw [walkStatements]
    rcases List.mem_cons.1 h with rfl | h
    · exact Passes.self.ahead fun _ => (settles limit).ofStatement ((settles limit).walkStatements rest)
    · exact .behind ((settles limit).ofStatement ((settles limit).walkStatement first)) fun _ => passes_statement h

theorem passes_block {st : Statement} (kind : FrameKind) : ∀ {block : Block}, st ∈ block.statements →
    Passes (walkBlock limit kind block) [kind] [] (walkStatement limit st)
  | ⟨statements, span⟩, h => by
    rw [walkBlock]
    exact .within kind (passes_statement h)

theorem passes_element {e : Expression} : ∀ {elements : List Expression}, e ∈ elements →
    Passes (inferAll limit elements) [] [] (infer limit 1 e)
  | first :: rest, h => by
    rw [inferAll]
    rcases List.mem_cons.1 h with rfl | h
    · exact Passes.self.ahead fun _ => (settles limit).bind ((settles limit).inferAll rest _) fun _ => (settles limit).pure _
    · exact .behind ((settles limit).infer 1 first _) fun _ => (passes_element h).ahead fun _ => (settles limit).pure _

theorem passes_argument {a : Argument} : ∀ {arguments : List Argument}, a ∈ arguments →
    Passes (inferArguments limit arguments) [] [] (infer limit 1 a.value)
  | ⟨name, value⟩ :: rest, h => by
    rw [inferArguments]
    rcases List.mem_cons.1 h with rfl | h
    · exact Passes.self.ahead fun _ =>
        (settles limit).bind ((settles limit).inferArguments rest _) fun _ => (settles limit).pure _
    · exact .behind ((settles limit).infer 1 value _) fun _ =>
        (passes_argument h).ahead fun _ => (settles limit).pure _

theorem passes_default {p : Parameter} {e : Expression} (hdefault : p.default = some e) :
    ∀ {parameters : List Parameter}, p ∈ parameters → Passes (walkParameters limit parameters) [] [] (infer limit 1 e)
  | ⟨name, span, types, default⟩ :: rest, h => by
    have hlocal : Settles limit .body (declareLocal name (types.getD .any) span) := (settles limit).declareLocal _ _ _
    rw [walkParameters]
    refine .behind ((settles limit).requireSignature types span) fun _ => ?_
    rcases List.mem_cons.1 h with rfl | h
    · cases hdefault
      exact Passes.self.ahead fun actual => (settles limit).bind ((settles limit).requireMatch _ _ _ _) fun _ =>
        WalkClosed.ite ((settles limit).walkParameters rest)
          ((settles limit).bind hlocal fun _ => (settles limit).walkParameters rest)
    · have hrest : Passes (if name == ellipsisName then walkParameters limit rest else
          declareLocal name (types.getD .any) span >>= fun _ => walkParameters limit rest) [] [] (infer limit 1 e) := by
        split
        · exact passes_default hdefault h
        · exact .behind hlocal fun _ => passes_default hdefault h
      cases default with
      | none => exact hrest
      | some value =>
        exact .behind ((settles limit).infer 1 value _) fun _ => .behind ((settles limit).requireMatch _ _ _ _) fun _ => hrest

/-- The walk of a function passes what is in its parameters before any return types are expected. -/
theorem passes_parameters (f : FunctionLiteral) (h : Passes (walkParameters limit f.parameters) [] [] inner) :
    Passes (walkFunction limit f) [.function] [] inner := by
  obtain ⟨name, nameSpan, receiver, parameters, returnTypes, ⟨statements, blockSpan⟩, decorators⟩ := f
  have hbody : Settles limit .body (returning returnTypes (walkStatements limit statements)) :=
    (settles limit).returning returnTypes ((settles limit).ofStatement ((settles limit).walkStatements statements))
  rw [walkFunction]
  refine .behind ((settles limit).declareFunction _) fun _ => .behind ((settles limit).requireSignature _ _) fun _ => ?_
  exact .within .function (.behind ((settles limit).declareReceiver receiver) fun _ => h.ahead fun _ => hbody)

theorem passes_body (f : FunctionLiteral) {st : Statement} (h : st ∈ f.body.statements) :
    Passes (walkFunction limit f) [.function] [f.returnTypes] (walkStatement limit st) := by
  obtain ⟨name, nameSpan, receiver, parameters, returnTypes, ⟨statements, blockSpan⟩, decorators⟩ := f
  have hbody : Passes (returning returnTypes (walkStatements limit statements)) [] [returnTypes]
      (walkStatement limit st) := .returning returnTypes (passes_statement h)
  rw [walkFunction]
  refine .behind ((settles limit).declareFunction _) fun _ => .behind ((settles limit).requireSignature _ _) fun _ => ?_
  exact .within .function (.behind ((settles limit).declareReceiver receiver) fun _ =>
    .behind ((settles limit).walkParameters parameters) fun _ => hbody)

end Passes

/-! ### Expressions with several parts -/

section Expressions

variable {limit : Nat} {γ : Type} {inner : Check γ} (step : Nat) (span : Span)

theorem passes_left (operator : BinaryOperator) (left right : Expression) (h : operator.infersLeft left = true)
    (hleft : Passes (infer limit 0 left) [] [] inner) :
    Passes (infer limit step (.binary span operator left right)) [] [] inner := by
  have hright := (settles limit).infer 1 right .body
  unfold infer
  refine .visit step span ?_
  cases operator with
  | assign | leftAssign | increment | decrement =>
    refine .behind hright fun value => ?_
    split
    · cases h
    · exact hleft.ahead fun _ => (settles limit).pure _
  | dollar | slot => exact hleft.ahead fun object => (settles limit).typeOfAttribute object right
  | namespaceAccess | internalAccess => cases h
  | pipe | magrittrPipe => exact hleft.ahead fun _ => hright
  | _ => exact hleft.ahead fun _ => (settles limit).bind hright fun _ => (settles limit).pure _

theorem passes_right (operator : BinaryOperator) (left right : Expression) (h : (!operator.isAccess) = true)
    (hright : Passes (infer limit 1 right) [] [] inner) :
    Passes (infer limit step (.binary span operator left right)) [] [] inner := by
  have hleft := (settles limit).infer 0 left .body
  unfold infer
  refine .visit step span ?_
  cases operator with
  | assign | leftAssign | increment | decrement =>
    have hassigned (value : Union) : Settles limit .body (match left with
        | .identifier targetSpan name => assignTo span targetSpan name value
        | _ => do
          let _ ← infer limit 0 left
          return value) := by
      split
      · exact (settles limit).assignTo _ _ _ _
      · exact (settles limit).bind hleft fun _ => (settles limit).pure _
    exact hright.ahead hassigned
  | dollar | slot | namespaceAccess | internalAccess => cases h
  | pipe | magrittrPipe => exact .behind hleft fun _ => hright
  | _ => exact .behind hleft fun _ => hright.ahead fun _ => (settles limit).pure _

theorem passes_branch (condition : Expression) (consequence : Block) (alternative : Option Block) {kinds : List FrameKind}
    (h : Passes (infer limit 1 condition) kinds [] inner ∨ Passes (walkBlock limit .branch consequence) kinds [] inner ∨
      ∃ block ∈ alternative, Passes (walkBlock limit .branch block) kinds [] inner) :
    Passes (infer limit step (.conditional span condition consequence alternative)) kinds [] inner := by
  have hcondition := (settles limit).infer 1 condition .body
  have hconsequence := (settles limit).walkBlock .branch consequence .body
  cases alternative with
  | none =>
    rw [infer]
    refine .visit step span ?_
    obtain h | h | ⟨block, hblock, h⟩ := h
    · exact h.ahead fun _ => (settles limit).bind hconsequence fun _ => (settles limit).pure _
    · exact .behind hcondition fun _ => h.ahead fun _ => (settles limit).pure _
    · cases hblock
  | some block =>
    have hblock := (settles limit).walkBlock .branch block .body
    rw [infer]
    refine .visit step span ?_
    obtain h | h | ⟨_, ⟨⟩, h⟩ := h
    · exact h.ahead fun _ => (settles limit).bind hconsequence fun _ =>
        (settles limit).bind hblock fun _ => (settles limit).pure _
    · exact .behind hcondition fun _ => h.ahead fun _ => (settles limit).bind hblock fun _ => (settles limit).pure _
    · exact .behind hcondition fun _ => .behind hconsequence fun _ => h.ahead fun _ => (settles limit).pure _

theorem passes_call (callee : Expression) (arguments : List Argument)
    (h : (callee.isIdentifier = false ∧ Passes (infer limit 0 callee) [] [] inner) ∨
      Passes (inferArguments limit arguments) [] [] inner) :
    Passes (infer limit step (.call span callee arguments)) [] [] inner := by
  have hcallee := (settles limit).infer 0 callee .body
  have harguments := (settles limit).inferArguments arguments .body
  have hfinish (called : Callee) (types : List Union) : Settles limit .body (finishCall arguments types called) :=
    ⟨proceeds_closed.finishCall _ _ _, does_finishCall _ _ _⟩
  unfold infer
  refine .visit step span ?_
  split
  · obtain ⟨hcalled, -⟩ | h := h
    · cases hcalled
    · exact .behind (settles_environment limit) fun env => h.ahead (hfinish _)
  · obtain ⟨-, h⟩ | h := h
    · exact h.ahead fun _ => (settles limit).bind harguments fun _ => (settles limit).pure _
    · exact .behind hcallee fun _ => h.ahead fun _ => (settles limit).pure _

end Expressions

/-! ### Nodes -/

variable {limit : Nat}

/-- **The walk of a node passes its parts.** -/
theorem passes_part {n m : Node} {opened : Option Enclosure} (h : n.Part opened m) :
    Passes (n.walk limit) (opened.toList.map Enclosure.kind)
      ((opened.toList.filterMap Enclosure.body?).map FunctionLiteral.returnTypes) (m.walk limit) := by
  cases h with
  | @element step span elements e h =>
    rw [Node.walk, infer]
    exact .visit step span ((passes_element h).ahead fun _ => (settles limit).pure _)
  | @operand step span =>
    rw [Node.walk, infer]
    exact .visit step span .self
  | @left step span operator left right h =>
    have hself : Passes (infer limit 0 left) [] [] (infer limit 0 left) := .self
    exact passes_left step span operator left right h hself
  | @right step span operator left right h =>
    have hself : Passes (infer limit 1 right) [] [] (infer limit 1 right) := .self
    exact passes_right step span operator left right h hself
  | @branchCondition step span e consequence alternative =>
    have hself : Passes (infer limit 1 e) [] [] (infer limit 1 e) := .self
    exact passes_branch step span e consequence alternative (.inl hself)
  | @consequence step span e block alternative st h =>
    exact passes_branch step span e block alternative (.inr (.inl (passes_block .branch h)))
  | @alternative step span e consequence block st h =>
    exact passes_branch step span e consequence (some block) (.inr (.inr ⟨block, rfl, passes_block .branch h⟩))
  | @iterable step span loopVariable e body =>
    obtain ⟨statements, blockSpan⟩ := body
    have hbody : Settles limit .body (within .loop do
        declareLocal loopVariable.name loopVariable.types loopVariable.span
        walkStatements limit statements) :=
      (settles limit).within .loop ((settles limit).bind ((settles limit).declareLocal _ _ _) fun _ =>
        (settles limit).ofStatement ((settles limit).walkStatements statements))
    rw [Node.walk, infer]
    exact .visit step span (Passes.self.ahead fun types =>
      (settles limit).bind ((settles limit).requireLoopVariable _ _) fun _ =>
        (settles limit).bind hbody fun _ => (settles limit).pure _)
  | @forBody step span loopVariable e body st h =>
    obtain ⟨statements, blockSpan⟩ := body
    have hbody : Passes (within .loop do
        declareLocal loopVariable.name loopVariable.types loopVariable.span
        walkStatements limit statements) [.loop] [] (walkStatement limit st) :=
      .within .loop (.behind ((settles limit).declareLocal _ _ _) fun _ => passes_statement h)
    rw [Node.walk, infer]
    exact .visit step span (.behind ((settles limit).infer 1 e _) fun types =>
      .behind ((settles limit).requireLoopVariable _ _) fun _ => hbody.ahead fun _ => (settles limit).pure _)
  | @loopCondition step span e body =>
    rw [Node.walk, infer]
    exact .visit step span (Passes.self.ahead fun _ =>
      (settles limit).bind ((settles limit).walkBlock .loop body _) fun _ => (settles limit).pure _)
  | @whileBody step span e body st h =>
    rw [Node.walk, infer]
    exact .visit step span (.behind ((settles limit).infer 1 e _) fun _ =>
      (passes_block .loop h).ahead fun _ => (settles limit).pure _)
  | @repeatBody step span body st h =>
    rw [Node.walk, infer]
    exact .visit step span ((passes_block .loop h).ahead fun _ => (settles limit).pure _)
  | @default step span f p e h hdefault =>
    rw [Node.walk, infer]
    exact .visit step span ((passes_parameters f (passes_default hdefault h)).ahead fun _ => (settles limit).pure _)
  | @functionBody step span f st h =>
    rw [Node.walk, infer]
    exact .visit step span ((passes_body f h).ahead fun _ => (settles limit).pure _)
  | @callee step span e arguments h =>
    have hself : Passes (infer limit 0 e) [] [] (infer limit 0 e) := .self
    exact passes_call step span e arguments (.inl ⟨by simpa using h, hself⟩)
  | @argument step span callee arguments a h =>
    exact passes_call step span callee arguments (.inr (passes_argument h))
  | @object step span e arguments =>
    rw [Node.walk, infer]
    exact .visit step span (Passes.self.ahead fun _ =>
      (settles limit).bind ((settles limit).inferArguments arguments _) fun _ => (settles limit).pure _)
  | @position step span object arguments _ a h =>
    rw [Node.walk, infer]
    exact .visit step span (.behind ((settles limit).infer 0 object _) fun _ =>
      (passes_argument h).ahead fun _ => (settles limit).pure _)
  | @bound constant target e =>
    show Passes (walkStatement limit (.binding constant target (some e))) [] [] (infer limit 1 e)
    rw [walkStatement]
    exact Passes.self.ahead fun _ => (settles limit).ofStatement ((settles limit).declareBinding _ _ _)
  | @returned e span =>
    show Passes (walkStatement limit (.return (some e) span)) [] [] (infer limit 1 e)
    rw [walkStatement]
    exact Passes.self.ahead fun _ => (settles limit).checkReturn _ _
  | @deferred e span =>
    have hrest : Passes (infer limit 1 e >>= fun _ => pure ()) [] [] (infer limit 1 e) :=
      Passes.self.ahead fun _ => (settles limit).pure _
    show Passes (walkStatement limit (.defer e span)) [] [] (infer limit 1 e)
    rw [walkStatement]
    refine .behind (settles_environment limit) fun env => ?_
    split
    · exact hrest
    · exact .behind ((settles limit).report _ _) fun _ => hrest
  | @inBlock block st h =>
    show Passes (walkStatement limit (.block block)) [.block] [] (walkStatement limit st)
    rw [walkStatement]
    exact passes_block .block h
  | @expression e =>
    show Passes (walkStatement limit (.expression e)) [] [] (infer limit 1 e)
    rw [walkStatement]
    exact Passes.self.ahead fun _ => (settles limit).pure _

theorem proceeds_node (limit : Nat) : ∀ n : Node, Proceeds (n.walk limit)
  | .expression step e => ((settles limit).infer step e .body).1
  | .statement st => ((settles limit).walkStatement st).1

/-- **A walk passes every place**: unless it reports nesting it comes by each node where it stands, inside the frames that
are open there and in the functions in whose bodies it is. -/
theorem passes_stands {statements : List Statement} {around : List Enclosure} {n : Node}
    (h : Stands statements around n) :
    Passes (walkStatements limit statements) (around.map Enclosure.kind)
      ((around.filterMap Enclosure.body?).map FunctionLiteral.returnTypes) (n.walk limit) := by
  induction h with
  | among h => exact passes_statement h
  | @within around opened n m h hpart ih =>
    rw [List.map_append, List.filterMap_append, List.map_append]
    exact ih.trans (proceeds_node limit n) (passes_part hpart)

end Check
end UnionScript
