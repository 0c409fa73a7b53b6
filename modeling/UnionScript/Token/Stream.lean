import UnionScript.Token.Lexeme
/-!
# Stream — the tokens of program texts, each in its place

A text is cut into lexemes, the lexemes are laid out from the first place on, and what is a token or a stray character
keeps the place where its run starts.  A single text is read by `tokenize`; `scan` reads the files of a program as one
stream, every file followed by a line end of its own, so that no statement crosses from one file into the next.
-/
namespace UnionScript

/-- A file of a program: the name that messages show and the text. -/
structure SourceFile where
  name : String
  text : String
  deriving Repr, DecidableEq

/-- What is read from program texts: the tokens in order, and the characters that belong to none. -/
structure TokenStream where
  tokens : List Token
  strays : List StrayCharacter
  deriving Repr, DecidableEq

namespace Lexeme

/-- The text a token keeps of its run: all of it, but a comment loses the spaces at its end. -/
def text (lexeme : Lexeme) : String :=
  match lexeme.role with
  | .token .comment | .token .roxygenComment => String.ofList (Text.trimEnd lexeme.run)
  | _ => String.ofList lexeme.run

/-- Lexemes with the places where they start, the first one at `p`. -/
def layOut (p : Position) : List Lexeme → List (Position × Lexeme)
  | [] => []
  | lexeme :: rest => (p, lexeme) :: layOut (p.after lexeme.run) rest

def token? (file : String) : Position × Lexeme → Option Token
  | (p, lexeme) => match lexeme.role with
    | .token kind => some ⟨kind, lexeme.text, file, p⟩
    | _ => none

def stray? (file : String) : Position × Lexeme → Option StrayCharacter
  | (p, lexeme) => match lexeme.role, lexeme.run with
    | .stray, c :: _ => some ⟨file, p, c⟩
    | _, _ => none

end Lexeme

namespace SourceFile

def laidOut (source : SourceFile) : List (Position × Lexeme) :=
  Lexeme.layOut .start (Lexeme.ofText source.text)

def endPlace (source : SourceFile) : Position :=
  Position.start.after source.text.toList

def tokens (source : SourceFile) : List Token :=
  source.laidOut.filterMap (Lexeme.token? source.name)

def strays (source : SourceFile) : List StrayCharacter :=
  source.laidOut.filterMap (Lexeme.stray? source.name)

def lineEnd (source : SourceFile) : Token :=
  ⟨.newline, "\n", source.name, source.endPlace⟩

/-- Reads a single file; the end of file follows its last token. -/
def tokenize (source : SourceFile) : TokenStream :=
  ⟨source.tokens ++ [.endOfFile source.name source.endPlace], source.strays⟩

end SourceFile

namespace TokenStream

/-- The end of file behind some files: where the last of them ends. -/
def endOf (sources : List SourceFile) : Token :=
  match sources.getLast? with
  | none => .endOfFile "" .start
  | some source => .endOfFile source.name source.endPlace

def scan (sources : List SourceFile) : TokenStream :=
  ⟨sources.flatMap (fun source => source.tokens ++ [source.lineEnd]) ++ [endOf sources],
    sources.flatMap SourceFile.strays⟩

end TokenStream
end UnionScript
