import UnionScript.Grammar.Statement
/-!
# Nesting — the grammar tied together under a limit

Expressions and blocks hold each other without end, and the limit on nesting is what ends them: `expressionAt` and
`blockAt` read with some room left, give what they hold one level less, and fail where no room is left.  The depth
counted in the state and the room that is left add up to the limit throughout, which is why the error at the bottom
can name the limit.
-/
namespace UnionScript
namespace Parse

mutual

def expressionAt : Nat → Level → Parse Expression
  | 0, _, s => tooDeep s.peek.span s
  | room + 1, floor, s => nested (expressionBody ⟨expressionAt room, blockAt room⟩ floor) s

def blockAt : Nat → Parse Block
  | 0, s => (do
      let opened ← expect .leftBrace "`\x7b` to start block"
      tooDeep opened.span) s
  | room + 1, s => (do
      let opened ← expect .leftBrace "`\x7b` to start block"
      nested (blockBody ⟨expressionAt room, blockAt room⟩ opened)) s

end

def deeperAt (room : Nat) : Deeper := ⟨expressionAt room, blockAt room⟩

end Parse

/-! ## Programs -/

/-- The limit on nesting where no other is set. -/
def defaultDepthLimit : Nat := 256

/-- A program read from tokens, and the errors of the statements it lacks, in the order they were found. -/
structure ParsedProgram where
  program : Program
  errors : List ParseError

namespace ParsedProgram

/-- The state in which reading some tokens as a program ends, and the statements read. -/
def run (limit : Nat) (tokens : List Token) : EStateM.Result ParseError ParseState (List Statement) :=
  Parse.statements (Parse.deeperAt limit) false (.ofTokens tokens)

/-- Reads tokens as a program in which nothing nests deeper than `limit`. -/
def ofTokens (tokens : List Token) (limit : Nat) : ParsedProgram :=
  match run limit tokens with
  | .ok statements s => ⟨⟨statements⟩, s.errors.reverse⟩
  | .error e s => ⟨⟨[]⟩, (e :: s.errors).reverse⟩

end ParsedProgram
end UnionScript
