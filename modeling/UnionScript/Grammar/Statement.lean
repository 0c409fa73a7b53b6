import UnionScript.Grammar.Declaration
/-!
# Statement — reading statements and blocks

A statement ends at a line end, a semicolon, a closing brace, the end of file or a comment behind it; a comment is a
statement that needs no further end.  A statement that cannot be read is recorded and skipped (`Parse.recovering`), so
that one error does not hide the statements around it.
-/
namespace UnionScript
namespace Parse

variable (deeper : Deeper)

/-! ## The forms of statements -/

def endsStatement : TokenKind → Bool
  | .newline | .semicolon | .rightBrace | .eof => true
  | _ => false

/-- Takes a binding whose first token is its keyword; a constant needs an initial value. -/
def binding (constant : Bool) : Parse Statement := do
  let _ ← advance
  let name ← identifier "variable name"
  let target ← annotationOf name
  if ← accept .equal then
    skipNewlines
    return .binding constant target (some (← anyExpression deeper))
  else if constant then
    expected "`=` and an initializer for const"
  else
    return .binding constant target none

/-- Takes a `return`, with a value unless the statement ends there. -/
def returnStatement : Parse Statement := do
  let word ← advance
  if endsStatement (← peekKind) then
    return .return none word.span
  else
    let value ← anyExpression deeper
    return .return (some value) (word.span.union value.span)

def deferStatement : Parse Statement := do
  let word ← advance
  let e ← anyExpression deeper
  return .defer e (word.span.union e.span)

def jump (kind : Jump) : Parse Statement := do
  let word ← advance
  return .jump kind word.span

def comment (roxygen : Bool) : Parse Statement := do
  let t ← advance
  return .comment t.text roxygen t.span

/-- Fails unless the statement before may end here. -/
def statementEnd : Parse Unit := do
  let kind ← peekKind
  if endsStatement kind || kind == .comment || kind == .roxygenComment then pure () else unexpected

/-- Takes a statement that the given reader reads and that must end there. -/
def ended (p : Parse Statement) : Parse Statement := do
  let s ← p
  statementEnd
  return s

def statement : Parse Statement := do
  match ← peekKind with
  | .keyword .let => ended (binding deeper false)
  | .keyword .const => ended (binding deeper true)
  | .keyword .type => ended (return .typeDeclaration (← typeDeclaration []))
  | .keyword .return => ended (returnStatement deeper)
  | .keyword .defer => ended (deferStatement deeper)
  | .keyword .break => ended (jump .break)
  | .keyword .next => ended (jump .next)
  | .comment => comment false
  | .roxygenComment => comment true
  | .atSign => ended (decorated deeper)
  | .leftBrace => ended (return .block (← deeper.block))
  | _ => ended (return .expression (← anyExpression deeper))

/-! ## Runs of statements -/

/-- Takes statements up to the end of file or, inside a block, up to a closing brace. -/
def statements (inBlock : Bool) : Parse (List Statement) :=
  rounds (fun taken => do
    skipSeparators
    let kind ← peekKind
    if kind = .eof ∨ (inBlock ∧ kind = .rightBrace) then
      return .done taken
    else
      match ← recovering (statement deeper) with
      | some s => return .again (taken ++ [s])
      | none => return .again taken) []

def blockBody (opened : Token) : Parse Block := do
  let taken ← statements deeper true
  let close ← expect .rightBrace "`\x7d` to close block"
  return { statements := taken, span := opened.span.union close.span }

end Parse
end UnionScript
