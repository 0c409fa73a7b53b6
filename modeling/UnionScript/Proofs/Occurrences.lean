import UnionScript.Proofs.Places
/-!
# Occurrences — the expressions of a program, one by one

Every expression in a program occurs at one place of its tree, and the list of all occurrences follows the text, each
expression behind its parts.  With each of them is said whether a walk infers types for it there.  It passes by the name in
front of a call, a name that is given a value, what stands behind `$` or `@`, what stands on either side of `::` or `:::`
with all its parts, and the arguments of decorators; that is all it passes by.
-/
namespace UnionScript

/-- An expression where it stands in a program, and whether a walk infers types for it there. -/
structure Occurrence where
  expression : Expression
  inferred : Bool

namespace Occurrence

def span (o : Occurrence) : Span := o.expression.span

/-- The occurrences in a part that a walk looks into, or passes by. -/
def lookedInto (inferred : Bool) (os : List Occurrence) : List Occurrence :=
  if inferred then os else os.map fun o => { o with inferred := false }

/-- The occurrences for which types are inferred. -/
def inferredOf (os : List Occurrence) : List Occurrence := os.filter Occurrence.inferred

theorem inferredOf_append (os more : List Occurrence) : inferredOf (os ++ more) = inferredOf os ++ inferredOf more :=
  List.filter_append os more

@[simp] theorem lookedInto_true (os : List Occurrence) : lookedInto true os = os := rfl

/-- Where a walk passes by no types are inferred. -/
@[simp] theorem inferredOf_lookedInto_false (os : List Occurrence) : inferredOf (lookedInto false os) = [] := by
  rw [inferredOf, List.filter_eq_nil_iff]
  rintro _ ho
  obtain ⟨o, -, rfl⟩ := List.mem_map.1 ho
  exact Bool.false_ne_true

end Occurrence

open Occurrence (lookedInto)

/-! ## Trees -/

mutual

/-- The occurrences in an expression, its own the last. -/
def Expression.occurrences : Expression → List Occurrence
  | .identifier span name => [⟨.identifier span name, true⟩]
  | .literal span value => [⟨.literal span value, true⟩]
  | .vector span elements => occurrencesOfElements elements ++ [⟨.vector span elements, true⟩]
  | .unary span operator operand => operand.occurrences ++ [⟨.unary span operator operand, true⟩]
  | .binary span operator left right =>
    lookedInto (operator.infersLeft left) left.occurrences ++ lookedInto (!operator.isAccess) right.occurrences ++
      [⟨.binary span operator left right, true⟩]
  | .conditional span condition consequence alternative =>
    condition.occurrences ++ (consequence.occurrences ++ occurrencesOfElse alternative) ++
      [⟨.conditional span condition consequence alternative, true⟩]
  | .forLoop span loopVariable iterable body =>
    iterable.occurrences ++ body.occurrences ++ [⟨.forLoop span loopVariable iterable body, true⟩]
  | .whileLoop span condition body =>
    condition.occurrences ++ body.occurrences ++ [⟨.whileLoop span condition body, true⟩]
  | .repeatLoop span body => body.occurrences ++ [⟨.repeatLoop span body, true⟩]
  | .function span f => f.occurrencesAside ++ (f.occurrences ++ [⟨.function span f, true⟩])
  | .call span callee arguments =>
    lookedInto (!callee.isIdentifier) callee.occurrences ++ occurrencesOfArguments arguments ++
      [⟨.call span callee arguments, true⟩]
  | .index span object arguments double =>
    object.occurrences ++ occurrencesOfArguments arguments ++ [⟨.index span object arguments double, true⟩]

def occurrencesOfElements : List Expression → List Occurrence
  | [] => []
  | e :: rest => e.occurrences ++ occurrencesOfElements rest

def occurrencesOfArguments : List Argument → List Occurrence
  | [] => []
  | ⟨_, value⟩ :: rest => value.occurrences ++ occurrencesOfArguments rest

def occurrencesOfParameters : List Parameter → List Occurrence
  | [] => []
  | ⟨_, _, _, some value⟩ :: rest => value.occurrences ++ occurrencesOfParameters rest
  | ⟨_, _, _, none⟩ :: rest => occurrencesOfParameters rest

/-- The occurrences in a function, but for its decorators. -/
def FunctionLiteral.occurrences : FunctionLiteral → List Occurrence
  | ⟨_, _, _, parameters, _, body, _⟩ => occurrencesOfParameters parameters ++ body.occurrences

/-- The occurrences in the decorators of a function, which stand in front of it. -/
def FunctionLiteral.occurrencesAside : FunctionLiteral → List Occurrence
  | ⟨_, _, _, _, _, _, decorators⟩ => lookedInto false (occurrencesOfDecorators decorators)

def occurrencesOfDecorators : List Decorator → List Occurrence
  | [] => []
  | ⟨_, arguments, _⟩ :: rest => occurrencesOfArguments arguments ++ occurrencesOfDecorators rest

def Block.occurrences : Block → List Occurrence
  | ⟨statements, _⟩ => occurrencesOfStatements statements

def occurrencesOfElse : Option Block → List Occurrence
  | none => []
  | some block => block.occurrences

def TypeDeclaration.occurrences : TypeDeclaration → List Occurrence
  | ⟨_, _, _, _, _, _, decorators⟩ => lookedInto false (occurrencesOfDecorators decorators)

def Statement.occurrences : Statement → List Occurrence
  | .binding _ _ (some value) => value.occurrences
  | .binding _ _ none => []
  | .return (some value) _ => value.occurrences
  | .return none _ => []
  | .typeDeclaration d => d.occurrences
  | .comment _ _ _ => []
  | .defer e _ => e.occurrences
  | .jump _ _ => []
  | .block block => block.occurrences
  | .expression e => e.occurrences

def occurrencesOfStatements : List Statement → List Occurrence
  | [] => []
  | s :: rest => s.occurrences ++ occurrencesOfStatements rest

end

/-- The occurrences below an expression: in its operands, arguments, elements, conditions, defaults and bodies. -/
def Expression.inside : Expression → List Occurrence
  | .identifier .. | .literal .. => []
  | .vector _ elements => occurrencesOfElements elements
  | .unary _ _ operand => operand.occurrences
  | .binary _ operator left right =>
    lookedInto (operator.infersLeft left) left.occurrences ++ lookedInto (!operator.isAccess) right.occurrences
  | .conditional _ condition consequence alternative =>
    condition.occurrences ++ (consequence.occurrences ++ occurrencesOfElse alternative)
  | .forLoop _ _ iterable body => iterable.occurrences ++ body.occurrences
  | .whileLoop _ condition body => condition.occurrences ++ body.occurrences
  | .repeatLoop _ body => body.occurrences
  | .function _ f => f.occurrences
  | .call _ callee arguments => lookedInto (!callee.isIdentifier) callee.occurrences ++ occurrencesOfArguments arguments
  | .index _ object arguments _ => object.occurrences ++ occurrencesOfArguments arguments

/-- The occurrences beside an expression, in its decorators. -/
def Expression.aside : Expression → List Occurrence
  | .function _ f => f.occurrencesAside
  | _ => []

theorem Expression.occurrences_eq (e : Expression) : e.occurrences = e.aside ++ (e.inside ++ [⟨e, true⟩]) := by
  cases e <;> rw [Expression.occurrences] <;> rfl

/-! ## Lists of parts -/

/-- The occurrences in a parameter, those in its default. -/
def Parameter.occurrences (p : Parameter) : List Occurrence := (p.default.map Expression.occurrences).getD []

theorem occurrencesOfElements_eq (es : List Expression) :
    occurrencesOfElements es = es.flatMap Expression.occurrences := by
  induction es with
  | nil => rfl
  | cons e es ih => rw [occurrencesOfElements, ih, List.flatMap_cons]

theorem occurrencesOfArguments_eq (arguments : List Argument) :
    occurrencesOfArguments arguments = arguments.flatMap fun a => a.value.occurrences := by
  induction arguments with
  | nil => rfl
  | cons a arguments ih =>
    obtain ⟨name, value⟩ := a
    rw [occurrencesOfArguments, ih, List.flatMap_cons]

theorem occurrencesOfParameters_eq (parameters : List Parameter) :
    occurrencesOfParameters parameters = parameters.flatMap Parameter.occurrences := by
  induction parameters with
  | nil => rfl
  | cons p parameters ih =>
    obtain ⟨name, span, types, _ | value⟩ := p <;> rw [occurrencesOfParameters, ih, List.flatMap_cons] <;> rfl

theorem occurrencesOfDecorators_eq (decorators : List Decorator) :
    occurrencesOfDecorators decorators = decorators.flatMap fun d => occurrencesOfArguments d.arguments := by
  induction decorators with
  | nil => rfl
  | cons d decorators ih =>
    obtain ⟨kind, arguments, span⟩ := d
    rw [occurrencesOfDecorators, ih, List.flatMap_cons]

theorem occurrencesOfStatements_eq (statements : List Statement) :
    occurrencesOfStatements statements = statements.flatMap Statement.occurrences := by
  induction statements with
  | nil => rfl
  | cons s statements ih => rw [occurrencesOfStatements, ih, List.flatMap_cons]

end UnionScript
