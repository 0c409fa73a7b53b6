import Mathlib
import UnionScript.Grammar.Expression
/-!
# Held — how many statements a program holds

Blocks hold statements, statements hold expressions and expressions hold blocks, so the statements of a program are
counted by a family of functions, one for each type of the tree.  What is counted with an expression or a block are the
statements in it at all levels, those included that stand for a branch or for the body of an arrow function.
-/
namespace UnionScript

mutual

/-- The statements in the blocks of an expression, at all levels. -/
def Expression.held : Expression → Nat
  | .identifier _ _ | .literal _ _ => 0
  | .vector _ elements => heldInAll elements
  | .unary _ _ operand => operand.held
  | .binary _ _ left right => left.held + right.held
  | .conditional _ condition consequence alternative =>
    condition.held + consequence.held + heldInBlock? alternative
  | .forLoop _ _ iterable body => iterable.held + body.held
  | .whileLoop _ condition body => condition.held + body.held
  | .repeatLoop _ body => body.held
  | .function _ literal => literal.held
  | .call _ callee arguments => callee.held + heldInArguments arguments
  | .index _ object arguments _ => object.held + heldInArguments arguments

def heldInAll : List Expression → Nat
  | [] => 0
  | e :: es => e.held + heldInAll es

def heldInExpression? : Option Expression → Nat
  | none => 0
  | some e => e.held

def Argument.held : Argument → Nat
  | ⟨_, value⟩ => value.held

def heldInArguments : List Argument → Nat
  | [] => 0
  | a :: as => a.held + heldInArguments as

def Parameter.held : Parameter → Nat
  | ⟨_, _, _, default⟩ => heldInExpression? default

def heldInParameters : List Parameter → Nat
  | [] => 0
  | p :: ps => p.held + heldInParameters ps

def FunctionLiteral.held : FunctionLiteral → Nat
  | ⟨_, _, _, parameters, _, body, decorators⟩ => heldInParameters parameters + body.held + heldInDecorators decorators

def Decorator.held : Decorator → Nat
  | ⟨_, arguments, _⟩ => heldInArguments arguments

def heldInDecorators : List Decorator → Nat
  | [] => 0
  | d :: ds => d.held + heldInDecorators ds

/-- The statements of a block and those in their blocks. -/
def Block.held : Block → Nat
  | ⟨statements, _⟩ => heldInStatements statements

def heldInBlock? : Option Block → Nat
  | none => 0
  | some block => block.held

/-- The statements in the blocks of a statement, which is not counted itself. -/
def Statement.held : Statement → Nat
  | .binding _ _ value => heldInExpression? value
  | .return value _ => heldInExpression? value
  | .typeDeclaration declaration => declaration.held
  | .comment _ _ _ | .jump _ _ => 0
  | .defer e _ => e.held
  | .block block => block.held
  | .expression e => e.held

def TypeDeclaration.held : TypeDeclaration → Nat
  | ⟨_, _, _, _, _, _, decorators⟩ => heldInDecorators decorators

def heldInStatements : List Statement → Nat
  | [] => 0
  | s :: ss => 1 + s.held + heldInStatements ss

end

/-- The statements of a program, counted at all levels. -/
def Program.statementCount (program : Program) : Nat := heldInStatements program.statements

/-! ## Sums over lists -/

theorem heldInAll_eq (es : List Expression) : heldInAll es = (es.map Expression.held).sum := by
  induction es with
  | nil => rfl
  | cons e es ih => rw [heldInAll, ih, List.map_cons, List.sum_cons]

theorem heldInArguments_eq (as : List Argument) : heldInArguments as = (as.map Argument.held).sum := by
  induction as with
  | nil => rfl
  | cons a as ih => rw [heldInArguments, ih, List.map_cons, List.sum_cons]

theorem heldInParameters_eq (ps : List Parameter) : heldInParameters ps = (ps.map Parameter.held).sum := by
  induction ps with
  | nil => rfl
  | cons p ps ih => rw [heldInParameters, ih, List.map_cons, List.sum_cons]

theorem heldInDecorators_append (ds : List Decorator) (d : Decorator) :
    heldInDecorators (ds ++ [d]) = heldInDecorators ds + d.held := by
  induction ds with
  | nil => simp [heldInDecorators]
  | cons e ds ih => rw [List.cons_append, heldInDecorators, heldInDecorators, ih, Nat.add_assoc]

theorem heldInStatements_append (ss : List Statement) (s : Statement) :
    heldInStatements (ss ++ [s]) = heldInStatements ss + (1 + s.held) := by
  induction ss with
  | nil => simp [heldInStatements]
  | cons r ss ih =>
    rw [List.cons_append, heldInStatements, heldInStatements, ih]
    omega

/-! ## Chains of branches -/

namespace Parse

def Branch.held (b : Branch) : Nat := b.condition.held + b.consequence.held

/-- The block behind an `else` that is a branch holds the statement that stands for it. -/
theorem Branch.held_asBlock (b : Branch) (alternative : Option Block) :
    (b.asBlock alternative).held = 1 + b.held + heldInBlock? alternative := by
  rw [Branch.asBlock, Block.held, heldInStatements, heldInStatements, Statement.held, Branch.close, Expression.held,
    Branch.held, Nat.add_zero]
  omega

theorem heldInBlock?_foldr (more : List Branch) (last : Option Block) :
    heldInBlock? (more.foldr (fun b alternative => some (b.asBlock alternative)) last) =
      (more.map fun b => 1 + b.held).sum + heldInBlock? last := by
  induction more with
  | nil => rw [List.foldr_nil, List.map_nil, List.sum_nil, Nat.zero_add]
  | cons b more ih =>
    rw [List.foldr_cons, heldInBlock?, Branch.held_asBlock, ih, List.map_cons, List.sum_cons]
    omega

theorem held_chain (first : Branch) (more : List Branch) (last : Option Block) :
    (chain first more last).held = first.held + ((more.map fun b => 1 + b.held).sum + heldInBlock? last) := by
  rw [chain, Branch.close, Expression.held, heldInBlock?_foldr, Branch.held]

end Parse
end UnionScript
