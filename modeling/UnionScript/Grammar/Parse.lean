import UnionScript.Grammar.Error
/-!
# Parse — reading from a stream of tokens

A reader takes tokens off the front of a stream and either answers a value or fails with an error; whatever it does,
the tokens it took are gone and the errors it recorded on the way stay recorded (`Parse`).  The stream ends at its
first end-of-file token, which is never taken.

Repetition has one form, `rounds`: a round that asks for another one must have taken a token, so the number of tokens
left bounds the number of rounds and no reader can run forever, whatever the tokens are.
-/
namespace UnionScript

/-! ## State -/

/-- What a reader works on: the tokens before the end of file that are left, the end of file, the errors recorded so
far (latest first), and how many expressions and blocks are being read inside each other.

Some things must not happen at all: a token taken where none is left, a depth given back that was not taken, and a
repetition that goes on without taking a token.  No error reports them; `fault` tells whether one has happened. -/
structure ParseState where
  rest : List Token
  eof : Token
  errors : List ParseError := []
  depth : Nat := 0
  fault : Bool := false

namespace ParseState

def isProper (t : Token) : Bool := t.kind != .eof

/-- The end of file that is missing behind some tokens: one column behind the last of them. -/
def missingEnd (tokens : List Token) : Token :=
  match tokens.getLast? with
  | none => .endOfFile "" .start
  | some t => .endOfFile t.file ⟨t.start.line, t.start.column + 1⟩

/-- The state before anything is read.  What follows the first end of file plays no part. -/
def ofTokens (tokens : List Token) : ParseState where
  rest := tokens.takeWhile isProper
  eof := (tokens.dropWhile isProper).head?.getD (missingEnd tokens)

/-- The next token; the end of file when no other is left. -/
def peek (s : ParseState) : Token := s.rest.head?.getD s.eof

def advance (s : ParseState) : ParseState := { s with rest := s.rest.tail, fault := s.rest.isEmpty || s.fault }

/-- The state with one level of nesting given back. -/
def ascend (s : ParseState) : ParseState := { s with depth := s.depth - 1, fault := s.depth == 0 || s.fault }

def record (s : ParseState) (e : ParseError) : ParseState := { s with errors := e :: s.errors }

end ParseState

/-! ## Readers -/

/-- A reader: it answers a value or fails, and leaves a state in either case. -/
abbrev Parse := EStateM ParseError ParseState

namespace Parse

def peek : Parse Token := fun s => .ok s.peek s

def peekKind : Parse TokenKind := fun s => .ok s.peek.kind s

def secondKind : Parse TokenKind := fun s => .ok ((s.rest.tail.head?.getD s.eof).kind) s

def lookAhead : Parse (List Token) := fun s => .ok s.rest s

def advance : Parse Token := fun s => .ok s.peek s.advance

def unexpected {α : Type} : Parse α := fun s =>
  .error (.unexpectedToken s.peek.kind s.peek.text s.peek.span) s

def expected {α : Type} (what : String) : Parse α := fun s =>
  .error (.expectedToken what s.peek.kind s.peek.span) s

def check (kind : TokenKind) : Parse Bool := fun s => .ok (s.peek.kind == kind) s

/-- Takes the next token if it is of a kind, and tells whether it was. -/
def accept (kind : TokenKind) : Parse Bool := do
  if ← check kind then
    let _ ← advance
    return true
  else
    return false

/-- Takes the next token, which must be of a kind. -/
def expect (kind : TokenKind) (what : String) : Parse Token := do
  if ← check kind then advance else expected what

def identifier (what : String) : Parse Token := expect .identifier what

def skipNewlines : Parse Unit := fun s =>
  .ok () { s with rest := s.rest.dropWhile (·.kind == .newline) }

def isSeparator (t : Token) : Bool := t.kind == .newline || t.kind == .semicolon

def skipSeparators : Parse Unit := fun s => .ok () { s with rest := s.rest.dropWhile isSeparator }

/-! ## Nesting -/

def nested {α : Type} (p : Parse α) : Parse α := fun s =>
  match p { s with depth := s.depth + 1 } with
  | .ok a s' => .ok a s'.ascend
  | .error e s' => .error e s'.ascend

def tooDeep {α : Type} (span : Span) : Parse α := fun s => .error (.nestingTooDeep s.depth span) s

/-! ## Repetition -/

/-- What a round of a repetition ends with: what the next round starts from, or the result. -/
inductive Round (α β : Type) where
  | again (next : α)
  | done (result : β)

/-- Repeats a round until it is done.  A round that asks for another one has taken a token; one that has not is a fault,
and fails as if the next token were out of place. -/
def rounds {α β : Type} (round : α → Parse (Round α β)) (a : α) : Parse β := fun s =>
  match round a s with
  | .ok (.done b) s' => .ok b s'
  | .ok (.again a') s' =>
    if s'.rest.length < s.rest.length then rounds round a' s' else unexpected { s' with fault := true }
  | .error e s' => .error e s'
termination_by s => s.rest.length

/-- Items in front of a closing token, with commas between them, perhaps one behind the last, and line ends anywhere
between items and commas. -/
def items {α : Type} (close : TokenKind) (what : String) (item : Parse α) : Parse (List α) := do
  skipNewlines
  rounds (fun taken => do
    if ← check close then
      return .done taken
    else
      let a ← item
      skipNewlines
      if ← accept .comma then
        skipNewlines
        return .again (taken ++ [a])
      else if ← check close then
        return .done (taken ++ [a])
      else
        expected what) []

/-- Takes items and the closing token behind them. -/
def delimited {α : Type} (close : TokenKind) (what : String) (item : Parse α) : Parse (List α × Token) := do
  let taken ← items close what item
  return (taken, ← advance)

/-! ## Recovery -/

/-- What is left behind a statement that failed: it goes on to the next separator, which is taken, or to a closing
brace, which is left for the block around the statement. -/
def resume : List Token → List Token
  | [] => []
  | t :: rest => if isSeparator t then rest else if t.kind = .rightBrace then t :: rest else resume rest

/-- Reads a statement; one that fails is recorded and skipped, and then it has taken a token at least. -/
def recovering {α : Type} (p : Parse α) : Parse (Option α) := fun s =>
  match p s with
  | .ok a s' => .ok (some a) s'
  | .error e s' =>
    let left := if s'.rest.length = s.rest.length then s'.rest.tail else s'.rest
    .ok none { s'.record e with rest := resume left }

end Parse
end UnionScript
