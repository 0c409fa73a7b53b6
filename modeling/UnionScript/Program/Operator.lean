/-!
# Operator — the operators of expressions

An operator is known by what it does; `sign` gives the text it is written with.  Assignments give the target a value
(`isAssignment`), and some operators reach into their left operand for a name (`isAccess`).
-/
namespace UnionScript

/-- The operators in front of an operand. -/
inductive UnaryOperator where
  | negative
  | positive
  | not
  | formula
  deriving Repr, DecidableEq

def UnaryOperator.sign : UnaryOperator → String
  | negative => "-"
  | positive => "+"
  | not => "!"
  | formula => "~"

/-- The operators between two operands. -/
inductive BinaryOperator where
  | add | subtract | multiply | divide | power | modulo
  /-- A user operator between percent signs. -/
  | custom (sign : String)
  | equal | notEqual | less | lessEqual | greater | greaterEqual
  | and | andAnd | or | orOr
  | range
  | pipe | magrittrPipe
  | dollar | slot
  | namespaceAccess | internalAccess
  | formula
  | assign | leftAssign | increment | decrement
  deriving Repr, DecidableEq

namespace BinaryOperator

def sign : BinaryOperator → String
  | add => "+"
  | subtract => "-"
  | multiply => "*"
  | divide => "/"
  | power => "^"
  | modulo => "%%"
  | custom sign => sign
  | equal => "=="
  | notEqual => "!="
  | less => "<"
  | lessEqual => "<="
  | greater => ">"
  | greaterEqual => ">="
  | and => "&"
  | andAnd => "&&"
  | or => "|"
  | orOr => "||"
  | range => ".."
  | pipe => "|>"
  | magrittrPipe => "%>%"
  | dollar => "$"
  | slot => "@"
  | namespaceAccess => "::"
  | internalAccess => ":::"
  | formula => "~"
  | assign => "="
  | leftAssign => "<-"
  | increment => "+="
  | decrement => "-="

def isAssignment : BinaryOperator → Bool
  | assign | leftAssign | increment | decrement => true
  | _ => false

/-- The operators that reach into their left operand for a name; they are written without spaces. -/
def isAccess : BinaryOperator → Bool
  | dollar | slot | namespaceAccess | internalAccess => true
  | _ => false

end BinaryOperator
end UnionScript
