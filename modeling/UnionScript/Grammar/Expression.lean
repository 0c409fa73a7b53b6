import UnionScript.Grammar.Annotation
import UnionScript.Grammar.Level
import UnionScript.Token.Numeral
/-!
# Expression — reading the forms of expressions

Expressions hold expressions and blocks in turn.  Every form is read by a reader of its own that is given the readers
for what it holds (`Deeper`), so that none of them calls itself: what ties them together, and counts how deep they
nest, is `Grammar/Nesting`.

An expression is a first part and the continuations behind it (`continued`), as long as they bind tighter than the
floor the expression is read at.
-/
namespace UnionScript

/-- The readers for what an expression or a block holds. -/
structure Deeper where
  expression : Level → Parse Expression
  block : Parse Block

namespace Parse

variable (deeper : Deeper)

def anyExpression : Parse Expression := deeper.expression .lowest

/-! ## Literals and names -/

def stringBehind (opened : Token) : Parse Expression := do
  let content ← expect .string "string content"
  if ← check .quote then
    let close ← advance
    return .literal (opened.span.union close.span) (.string content.text)
  else
    throw (.unterminatedString (opened.span.union content.span))

def number (t : Token) (value : String → Literal) : Parse Expression :=
  if Numeral.isNumeral t.text then return .literal t.span (value t.text)
  else throw (.invalidLiteral t.text t.span)

/-- Takes the name or the string that must follow an access operator. -/
def accessTarget : Parse Expression := do
  match ← peekKind with
  | .identifier =>
    let t ← advance
    return .identifier t.span t.text
  | .quote => stringBehind (← advance)
  | _ => expected "a name after access operator"

/-! ## Vectors, arguments and parameters -/

def vectorBehind (opened : Token) : Parse Expression := do
  let (elements, close) ← delimited .rightParen "`,` or `)`" (anyExpression deeper)
  return .vector (opened.span.union close.span) elements

/-- Takes one argument: `name = value`, or a value alone. -/
def argument : Parse Argument := do
  let named := (← check .identifier) && (← secondKind) == .equal
  if named then
    let t ← advance
    let _ ← advance
    skipNewlines
    return { name := some (t.text, t.span), value := ← anyExpression deeper }
  else
    return { name := none, value := ← anyExpression deeper }

def arguments (close : TokenKind) (what : String) : Parse (List Argument × Token) :=
  delimited close what (argument deeper)

/-- Takes one parameter: a name or an ellipsis, perhaps its types, perhaps a default. -/
def parameter : Parse Parameter := do
  let kind ← peekKind
  if kind = .identifier ∨ kind = .ellipsis then
    let t ← advance
    let types ← annotation?
    if ← accept .equal then
      skipNewlines
      return { name := t.text, span := t.span, types, default := some (← anyExpression deeper) }
    else
      return { name := t.text, span := t.span, types, default := none }
  else
    expected "parameter name"

def parameters : Parse (List Parameter) := do
  return (← delimited .rightParen "`,` or `)` in parameter list" (parameter deeper)).1

/-! ## Functions -/

/-- Whether the parenthesis that closes the innermost `open` ones is followed by a colon or an arrow, which only the
parameters of an arrow function are. -/
def closesBeforeArrow : Nat → List Token → Bool
  | _, [] => false
  | depth, t :: rest => match t.kind with
    | .leftParen => closesBeforeArrow (depth + 1) rest
    | .rightParen => match depth with
      | 0 => rest.head?.any fun next => next.kind == .colon || next.kind == .fatArrow
      | depth + 1 => closesBeforeArrow depth rest
    | _ => closesBeforeArrow depth rest

def arrowFunctionBehind (opened : Token) : Parse Expression := do
  let ps ← parameters deeper
  let returnTypes ← annotation?
  let _ ← expect .fatArrow "`=>` after anonymous function parameters"
  skipNewlines
  let body ← if ← check .leftBrace then deeper.block else do
    let e ← anyExpression deeper
    pure { statements := [.expression e], span := e.span }
  let span := opened.span.union body.span
  return .function span
    { name := none, nameSpan := span, receiver := none, parameters := ps, returnTypes, body, decorators := [] }

/-- Whether a parenthesis that closes on the same line without another one inside is followed by a name, as that of a
receiver is. -/
def closesBeforeName : List Token → Bool
  | [] => false
  | t :: rest => match t.kind with
    | .rightParen => rest.head?.any fun next => next.kind == .identifier
    | .leftParen | .newline => false
    | _ => closesBeforeName rest

def receiver? : Parse (Option TypedName) := do
  if (← check .leftParen) && closesBeforeName (← lookAhead).tail then
    let _ ← advance
    let name ← identifier "receiver name"
    let typed ← annotationOf name
    let _ ← expect .rightParen "`)` after method receiver"
    return some typed
  else
    return none

def functionBehind (func : Token) (decorators : List Decorator) : Parse Expression := do
  let receiver ← receiver?
  let name ←
    if ← check .identifier then pure (some (← advance))
    else if receiver.isSome then expected "method name"
    else pure none
  let _ ← expect .leftParen "`(` to start parameter list"
  let ps ← parameters deeper
  let returnTypes ← annotation?
  skipNewlines
  let body ← deeper.block
  return .function (func.span.union body.span)
    { name := name.map Token.text, nameSpan := (name.getD func).span, receiver, parameters := ps, returnTypes, body,
      decorators }

/-! ## Branches and loops -/

/-- One `if (condition) { … }` of a chain: its `if`, and, unless it starts the chain, the `else` in front. -/
structure Branch where
  elseSpan : Span
  ifSpan : Span
  condition : Expression
  consequence : Block

def Branch.close (b : Branch) (alternative : Option Block) : Expression :=
  .conditional (b.ifSpan.union (alternative.getD b.consequence).span) b.condition b.consequence alternative

/-- What an `else` is followed by when it is another branch: a block of that branch alone. -/
def Branch.asBlock (b : Branch) (alternative : Option Block) : Block :=
  { statements := [.expression (b.close alternative)], span := b.elseSpan.union (b.close alternative).span }

/-- The expression of a chain of branches, the first one given apart, and the block behind the last `else`. -/
def chain (first : Branch) (more : List Branch) (last : Option Block) : Expression :=
  first.close (more.foldr (fun b alternative => some (b.asBlock alternative)) last)

def branch (elseSpan ifSpan : Span) : Parse Branch := do
  let _ ← expect .leftParen "`(` after if"
  skipNewlines
  let condition ← anyExpression deeper
  skipNewlines
  let _ ← expect .rightParen "`)` after if condition"
  skipNewlines
  return { elseSpan, ifSpan, condition, consequence := ← deeper.block }

/-- Whether an `else` is next, be it behind line ends. -/
def elseFollows (rest : List Token) : Bool :=
  (rest.dropWhile (·.kind == .newline)).head?.any (·.kind == .keyword .else)

/-- Takes a chain of branches whose first `if` is taken. -/
def conditionalBehind (opened : Token) : Parse Expression := do
  let first ← branch deeper .nowhere opened.span
  rounds (fun (more : List Branch) => do
    if elseFollows (← lookAhead) then
      skipNewlines
      let otherwise ← advance
      skipNewlines
      if ← check (.keyword .if) then
        let next ← advance
        return .again (more ++ [← branch deeper otherwise.span next.span])
      else
        return .done (chain first more (some (← deeper.block)))
    else
      return .done (chain first more none)) []

def forBehind (opened : Token) : Parse Expression := do
  let _ ← expect .leftParen "`(` after for"
  let _ ← expect (.keyword .let) "`let` in for loop header"
  let name ← identifier "loop variable name"
  let loopVariable ← annotationOf name
  let _ ← expect (.keyword .in) "`in` after loop variable"
  let iterable ← anyExpression deeper
  let _ ← expect .rightParen "`)` after for loop header"
  skipNewlines
  let body ← deeper.block
  return .forLoop (opened.span.union body.span) loopVariable iterable body

def whileBehind (opened : Token) : Parse Expression := do
  let _ ← expect .leftParen "`(` after while"
  skipNewlines
  let condition ← anyExpression deeper
  skipNewlines
  let _ ← expect .rightParen "`)` after while condition"
  skipNewlines
  let body ← deeper.block
  return .whileLoop (opened.span.union body.span) condition body

def repeatBehind (opened : Token) : Parse Expression := do
  let body ← deeper.block
  return .repeatLoop (opened.span.union body.span) body

/-! ## First parts and continuations -/

def wordLiteral? (t : Token) : Option Literal :=
  match t.kind with
  | .boolean => some (.boolean (t.text == "true" || t.text == "TRUE"))
  | .null => some .null
  | .na => some (.constant .na)
  | .naCharacter => some (.constant .naCharacter)
  | .naInteger => some (.constant .naInteger)
  | .naReal => some (.constant .naReal)
  | .naComplex => some (.constant .naComplex)
  | .inf => some (.constant .inf)
  | .nan => some (.constant .nan)
  | .ellipsis => some (.constant .ellipsis)
  | _ => none

def unaryBehind (opened : Token) (operator : UnaryOperator) : Parse Expression := do
  skipNewlines
  let operand ← deeper.expression .unary
  return .unary (opened.span.union operand.span) operator operand

/-- Takes what an opening parenthesis, already taken, begins: an arrow function or a vector. -/
def parenthesized (opened : Token) : Parse Expression := do
  if closesBeforeArrow 0 (← lookAhead) then arrowFunctionBehind deeper opened else vectorBehind deeper opened

/-- Takes the first part of an expression. -/
def firstPart : Parse Expression := do
  let t ← peek
  match t.kind with
  | .identifier => let _ ← advance; return .identifier t.span t.text
  | .integer => let _ ← advance; number t .integer
  | .float => let _ ← advance; number t .float
  | .quote => let _ ← advance; stringBehind t
  | .leftParen => let _ ← advance; parenthesized deeper t
  | .keyword .func => let _ ← advance; functionBehind deeper t []
  | .keyword .if => let _ ← advance; conditionalBehind deeper t
  | .keyword .for => let _ ← advance; forBehind deeper t
  | .keyword .while => let _ ← advance; whileBehind deeper t
  | .keyword .repeat => let _ ← advance; repeatBehind deeper t
  | _ =>
    match wordLiteral? t, t.unaryOperator? with
    | some value, _ => let _ ← advance; return .literal t.span value
    | none, some operator => let _ ← advance; unaryBehind deeper t operator
    | none, none => unexpected

def operatorBehind (left : Expression) (operator : BinaryOperator) : Parse Expression := do
  let _ ← advance
  let right ←
    if operator.isAccess then accessTarget
    else do
      skipNewlines
      deeper.expression operator.level.rightFloor
  return .binary (left.span.union right.span) operator left right

def callBehind (callee : Expression) : Parse Expression := do
  let _ ← advance
  let (args, close) ← arguments deeper .rightParen "`,` or `)` in argument list"
  return .call (callee.span.union close.span) callee args

def indexBehind (object : Expression) (double : Bool) : Parse Expression := do
  let _ ← advance
  let (args, close) ←
    if double then arguments deeper .doubleRightBracket "`,` or `]]` in index"
    else arguments deeper .rightBracket "`,` or `]` in index"
  return .index (object.span.union close.span) object args double

def continuationOf (left : Expression) : Continuation → Parse Expression
  | .operator operator => operatorBehind deeper left operator
  | .call => callBehind deeper left
  | .index double => indexBehind deeper left double

def continued (floor : Level) (first : Expression) : Parse Expression :=
  rounds (fun left => do
    match Continuation.of? (← peek) with
    | some continuation =>
      if continuation.level.isTighter floor then return .again (← continuationOf deeper left continuation)
      else return .done left
    | none => return .done left) first

/-- Takes an expression: a first part and what continues it. -/
def expressionBody (floor : Level) : Parse Expression := do
  continued deeper floor (← firstPart deeper)

end Parse
end UnionScript
