import UnionScript.Token
import UnionScript.Program.Operator
/-!
# Level — how tightly operators bind

Binary operators stand on levels, from the loosest to the tightest.  The right operand of an operator takes in what
binds tighter than the operator's floor (`Level.rightFloor`): its own level, which groups a chain to the left, except
for assignment and power, whose floors are lower and group a chain to the right.
-/
namespace UnionScript

/-- The levels of binding, loosest first. -/
inductive Level where
  | lowest
  | assignment
  | pipe
  | formula
  | or
  | and
  | equality
  | comparison
  | range
  | term
  | factor
  | unary
  | power
  | postfixed
  deriving Repr, DecidableEq

namespace Level

def height : Level → Nat
  | lowest => 0
  | assignment => 1
  | pipe => 2
  | formula => 3
  | or => 4
  | and => 5
  | equality => 6
  | comparison => 7
  | range => 8
  | term => 9
  | factor => 10
  | unary => 11
  | power => 12
  | postfixed => 13

def isTighter (l floor : Level) : Bool := floor.height < l.height

/-- The floor under the right operand of an operator: only what binds tighter belongs to the operand. -/
def rightFloor : Level → Level
  | assignment => lowest
  | power => unary
  | l => l

end Level

def BinaryOperator.level : BinaryOperator → Level
  | assign | leftAssign | increment | decrement => .assignment
  | pipe | magrittrPipe => .pipe
  | formula => .formula
  | or | orOr => .or
  | and | andAnd => .and
  | equal | notEqual => .equality
  | less | lessEqual | greater | greaterEqual => .comparison
  | range => .range
  | add | subtract => .term
  | multiply | divide | modulo | custom _ => .factor
  | power => .power
  | dollar | slot | namespaceAccess | internalAccess => .postfixed

def Token.binaryOperator? (t : Token) : Option BinaryOperator :=
  match t.kind with
  | .plus => some .add
  | .minus => some .subtract
  | .star => some .multiply
  | .slash => some .divide
  | .caret => some .power
  | .modulo => some .modulo
  | .percentOperator => some (.custom t.text)
  | .doubleEqual => some .equal
  | .bangEqual => some .notEqual
  | .less => some .less
  | .lessEqual => some .lessEqual
  | .greater => some .greater
  | .greaterEqual => some .greaterEqual
  | .and => some .and
  | .andAnd => some .andAnd
  | .or => some .or
  | .orOr => some .orOr
  | .dotDot => some .range
  | .pipe => some .pipe
  | .magrittrPipe => some .magrittrPipe
  | .dollar => some .dollar
  | .atSign => some .slot
  | .namespaceAccess => some .namespaceAccess
  | .internalAccess => some .internalAccess
  | .tilde => some .formula
  | .equal => some .assign
  | .leftAssign => some .leftAssign
  | .plusEqual => some .increment
  | .minusEqual => some .decrement
  | _ => none

def Token.unaryOperator? (t : Token) : Option UnaryOperator :=
  match t.kind with
  | .minus => some .negative
  | .plus => some .positive
  | .bang => some .not
  | .tilde => some .formula
  | _ => none

/-- What a token behind an expression makes of it. -/
inductive Continuation where
  | operator (op : BinaryOperator)
  | call
  | index (double : Bool)
  deriving Repr, DecidableEq

namespace Continuation

def of? (t : Token) : Option Continuation :=
  match t.kind with
  | .leftParen => some call
  | .leftBracket => some (index false)
  | .doubleLeftBracket => some (index true)
  | _ => t.binaryOperator?.map operator

def level : Continuation → Level
  | operator op => op.level
  | call | index _ => .postfixed

end Continuation
end UnionScript
