import UnionScript.Proofs.Building
/-!
# Annotations — unions that are written down are not empty

An annotation has an alternative at least, and a type that is declared by attributes alone stands for itself.  So no
union that a program which was read declares anything with is empty (`Parse.annotated_ofTokens`).  The arguments of
decorators play no part, since nothing is declared by them.
-/
namespace UnionScript

mutual

/-- Whether no union written in an expression is empty. -/
def Expression.Annotated : Expression → Prop
  | .identifier _ _ | .literal _ _ => True
  | .vector _ elements => AnnotatedElements elements
  | .unary _ _ operand => operand.Annotated
  | .binary _ _ left right => left.Annotated ∧ right.Annotated
  | .conditional _ condition consequence alternative =>
    condition.Annotated ∧ consequence.Annotated ∧ AnnotatedElse alternative
  | .forLoop _ loopVariable iterable body =>
    loopVariable.types.isEmpty = false ∧ iterable.Annotated ∧ body.Annotated
  | .whileLoop _ condition body => condition.Annotated ∧ body.Annotated
  | .repeatLoop _ body => body.Annotated
  | .function _ literal => literal.Annotated
  | .call _ callee arguments => callee.Annotated ∧ AnnotatedArguments arguments
  | .index _ object arguments _ => object.Annotated ∧ AnnotatedArguments arguments

def AnnotatedElements : List Expression → Prop
  | [] => True
  | e :: es => e.Annotated ∧ AnnotatedElements es

def AnnotatedArguments : List Argument → Prop
  | [] => True
  | ⟨_, value⟩ :: rest => value.Annotated ∧ AnnotatedArguments rest

def AnnotatedParameters : List Parameter → Prop
  | [] => True
  | ⟨_, _, types, some value⟩ :: rest =>
    (∀ u ∈ types, u.isEmpty = false) ∧ value.Annotated ∧ AnnotatedParameters rest
  | ⟨_, _, types, none⟩ :: rest => (∀ u ∈ types, u.isEmpty = false) ∧ AnnotatedParameters rest

def FunctionLiteral.Annotated : FunctionLiteral → Prop
  | ⟨_, _, receiver, parameters, returnTypes, body, _⟩ =>
    (∀ r ∈ receiver, r.types.isEmpty = false) ∧ AnnotatedParameters parameters ∧
      (∀ u ∈ returnTypes, u.isEmpty = false) ∧ body.Annotated

def Block.Annotated : Block → Prop
  | ⟨statements, _⟩ => AnnotatedStatements statements

def AnnotatedElse : Option Block → Prop
  | none => True
  | some b => b.Annotated

def AnnotatedStatements : List Statement → Prop
  | [] => True
  | s :: rest => s.Annotated ∧ AnnotatedStatements rest

/-- Whether no union written in a statement is empty. -/
def Statement.Annotated : Statement → Prop
  | .binding _ target none => target.types.isEmpty = false
  | .binding _ target (some value) => target.types.isEmpty = false ∧ value.Annotated
  | .return none _ | .comment _ _ _ | .jump _ _ => True
  | .return (some value) _ => value.Annotated
  | .typeDeclaration d => d.types.isEmpty = false ∧ ∀ a ∈ d.attributes, a.types.isEmpty = false
  | .defer e _ | .expression e => e.Annotated
  | .block block => block.Annotated

end

/-! ## What is listed -/

theorem annotatedElements_iff : ∀ {es : List Expression}, AnnotatedElements es ↔ ∀ e ∈ es, e.Annotated
  | [] => by simp [AnnotatedElements]
  | e :: es => by rw [AnnotatedElements, annotatedElements_iff, List.forall_mem_cons]

theorem annotatedArguments_iff : ∀ {arguments : List Argument},
    AnnotatedArguments arguments ↔ ∀ a ∈ arguments, a.value.Annotated
  | [] => by simp [AnnotatedArguments]
  | ⟨_, _⟩ :: rest => by rw [AnnotatedArguments, annotatedArguments_iff, List.forall_mem_cons]

theorem annotatedParameters_iff : ∀ {parameters : List Parameter}, AnnotatedParameters parameters ↔
    ∀ p ∈ parameters, (∀ u ∈ p.types, u.isEmpty = false) ∧ ∀ e ∈ p.default, e.Annotated
  | [] => by simp [AnnotatedParameters]
  | ⟨_, _, _, none⟩ :: rest => by
    rw [AnnotatedParameters, annotatedParameters_iff, List.forall_mem_cons]
    simp
  | ⟨_, _, _, some _⟩ :: rest => by
    rw [AnnotatedParameters, annotatedParameters_iff, List.forall_mem_cons]
    simp [and_assoc]

theorem annotatedStatements_iff : ∀ {statements : List Statement},
    AnnotatedStatements statements ↔ ∀ s ∈ statements, s.Annotated
  | [] => by simp [AnnotatedStatements]
  | s :: rest => by rw [AnnotatedStatements, annotatedStatements_iff, List.forall_mem_cons]

theorem FunctionLiteral.annotated_iff : ∀ {f : FunctionLiteral}, f.Annotated ↔
    (∀ r ∈ f.receiver, r.types.isEmpty = false) ∧ AnnotatedParameters f.parameters ∧
      (∀ u ∈ f.returnTypes, u.isEmpty = false) ∧ f.body.Annotated
  | ⟨_, _, _, _, _, _, _⟩ => by rw [FunctionLiteral.Annotated]

theorem Block.annotated_iff : ∀ {b : Block}, b.Annotated ↔ ∀ s ∈ b.statements, s.Annotated
  | ⟨_, _⟩ => by rw [Block.Annotated, annotatedStatements_iff]

/-! ## What is read -/

namespace Parse

/-- Trees without empty unions, whatever the room they are read with. -/
def annotated : TreeProperty where
  expression _ e := e.Annotated
  statement _ s := s.Annotated

variable {room : Nat}

theorem annotated_of_sub {e : Expression} : annotated.Sub room e → e.Annotated
  | ⟨_, _, h⟩ => h

theorem annotated_of_inner {b : Block} : annotated.Inner room b → b.Annotated
  | ⟨_, _, h⟩ => Block.annotated_iff.2 h

theorem annotated_of_single {b : Block} {e : Expression} (hb : b.statements = [.expression e]) (he : e.Annotated) :
    b.Annotated :=
  Block.annotated_iff.2 fun s hs => by
    rw [hb, List.mem_singleton] at hs
    exact hs ▸ he

theorem annotated_of_body {b : Block} : annotated.Body room b → b.Annotated
  | .inl h => annotated_of_inner h
  | .inr ⟨_, hb, he⟩ => annotated_of_single hb (annotated_of_sub he)

theorem annotated_of_alternative : ∀ {alternative : Option Block}, annotated.Alternative room alternative →
    AnnotatedElse alternative
  | none, _ => trivial
  | some _, .inl h => annotated_of_inner h
  | some _, .inr ⟨_, hb, _, he⟩ => annotated_of_single hb he

theorem annotated_of_signature {f : FunctionLiteral} (h : annotated.Signature room f) (hbody : f.body.Annotated) :
    f.Annotated :=
  FunctionLiteral.annotated_iff.2 ⟨h.receiver, annotatedParameters_iff.2 fun p hp =>
    ⟨(h.parameters p hp).1, fun e he => annotated_of_sub ((h.parameters p hp).2 e he)⟩, h.returns, hbody⟩

theorem annotated_closed : annotated.Closed where
  identifier _ _ _ := trivial
  literal _ _ _ := trivial
  vector _ h := annotatedElements_iff.2 fun e he => annotated_of_sub (h e he)
  unary _ _ h := annotated_of_sub h
  binary _ _ hleft hright := ⟨hleft, annotated_of_sub hright⟩
  access _ _ hleft hright := ⟨hleft, hright⟩
  conditional _ hcondition hconsequence halternative :=
    ⟨annotated_of_sub hcondition, annotated_of_inner hconsequence, annotated_of_alternative halternative⟩
  forLoop _ htypes hiterable hbody := ⟨htypes, annotated_of_sub hiterable, annotated_of_inner hbody⟩
  whileLoop _ hcondition hbody := ⟨annotated_of_sub hcondition, annotated_of_inner hbody⟩
  repeatLoop _ hbody := annotated_of_inner hbody
  function _ h _ hbody := annotated_of_signature h (annotated_of_body hbody)
  call _ hcallee harguments := ⟨hcallee, annotatedArguments_iff.2 fun a ha => annotated_of_sub (harguments a ha)⟩
  index _ _ hobject harguments := ⟨hobject, annotatedArguments_iff.2 fun a ha => annotated_of_sub (harguments a ha)⟩
  binding {_ _ value} _ htypes h := by
    cases value with
    | none => exact htypes
    | some e => exact ⟨htypes, annotated_of_sub (h e rfl)⟩
  returning {_ value} _ h := by
    cases value with
    | none => exact trivial
    | some e => exact annotated_of_sub (h e rfl)
  typeDeclaration _ _ htypes hattributes := ⟨htypes, hattributes⟩
  comment _ _ _ _ := trivial
  defer _ h := annotated_of_sub h
  jump _ _ _ := trivial
  block h := annotated_of_inner h
  expressionStatement h := annotated_of_sub h
  decorated _ h _ hbody := annotated_of_signature h (annotated_of_inner hbody)

/-- **No union of a program that was read is empty.** -/
theorem annotated_ofTokens (tokens : List Token) (limit : Nat) :
    AnnotatedStatements (ParsedProgram.ofTokens tokens limit).program.statements :=
  annotatedStatements_iff.2 (annotated_closed.ofTokens tokens limit)

end Parse
end UnionScript
