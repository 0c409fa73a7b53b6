import UnionScript.Span
/-!
# Token — the words and signs a program text is made of

A token has a kind, the characters it stands for and the place where they start.  Every kind has two names: the one
that messages show (`TokenKind.describe`) and the one that token listings show (`TokenKind.tag`).  A string literal is
three tokens, its quotes and what stands between them, so that each covers exactly its own characters.
-/
namespace UnionScript

/-! ## Keywords -/

/-- The reserved words of the language. -/
inductive Keyword where
  | «let» | const | func | type | «if» | «else» | «for» | «in» | «while» | «repeat» | next | «break» | «return» | defer
  deriving Repr, DecidableEq

namespace Keyword

def spelling : Keyword → String
  | .let => "let"
  | .const => "const"
  | .func => "func"
  | .type => "type"
  | .if => "if"
  | .else => "else"
  | .for => "for"
  | .in => "in"
  | .while => "while"
  | .repeat => "repeat"
  | .next => "next"
  | .break => "break"
  | .return => "return"
  | .defer => "defer"

def all : List Keyword :=
  [.let, .const, .func, .type, .if, .else, .for, .in, .while, .repeat, .next, .break, .return, .defer]

def ofSpelling? (word : String) : Option Keyword :=
  all.find? fun k => k.spelling == word

end Keyword

/-! ## Kinds -/

/-- The kinds of tokens. -/
inductive TokenKind where
  | identifier | integer | float | string | boolean
  | null | na | naCharacter | naInteger | naReal | naComplex | inf | nan
  | ellipsis | quote | newline | comment | roxygenComment
  | leftParen | rightParen | leftBrace | rightBrace | leftBracket | rightBracket
  | doubleLeftBracket | doubleRightBracket
  /-- The two brackets `[]` in front of a type name. -/
  | listMark
  | comma | colon | semicolon
  | namespaceAccess | internalAccess
  | equal | leftAssign | plusEqual | minusEqual
  | doubleEqual | bang | bangEqual | greater | greaterEqual | less | lessEqual
  | plus | minus | star | slash | caret | modulo
  /-- A user operator between percent signs, such as `%in%`. -/
  | percentOperator
  | pipe | magrittrPipe | or | orOr | and | andAnd | dotDot | dollar | atSign | tilde | question | fatArrow
  | keyword (word : Keyword)
  | eof
  deriving Repr, DecidableEq

namespace TokenKind

def describe : TokenKind → String
  | identifier => "identifier"
  | integer => "integer"
  | float => "number"
  | string => "string"
  | boolean => "boolean"
  | null => "NULL"
  | na => "NA"
  | naCharacter => "NA_character_"
  | naInteger => "NA_integer_"
  | naReal => "NA_real_"
  | naComplex => "NA_complex_"
  | inf => "Inf"
  | nan => "NaN"
  | ellipsis => "..."
  | quote => "quote"
  | newline => "newline"
  | comment | roxygenComment => "comment"
  | leftParen => "("
  | rightParen => ")"
  | leftBrace => "\x7b"
  | rightBrace => "\x7d"
  | leftBracket => "["
  | rightBracket => "]"
  | doubleLeftBracket => "[["
  | doubleRightBracket => "]]"
  | listMark => "[]"
  | comma => ","
  | colon => ":"
  | semicolon => ";"
  | namespaceAccess => "::"
  | internalAccess => ":::"
  | equal => "="
  | leftAssign => "<-"
  | plusEqual => "+="
  | minusEqual => "-="
  | doubleEqual => "=="
  | bang => "!"
  | bangEqual => "!="
  | greater => ">"
  | greaterEqual => ">="
  | less => "<"
  | lessEqual => "<="
  | plus => "+"
  | minus => "-"
  | star => "*"
  | slash => "/"
  | caret => "^"
  | modulo => "%%"
  | percentOperator => "infix operator"
  | pipe => "|>"
  | magrittrPipe => "%>%"
  | or => "|"
  | orOr => "||"
  | and => "&"
  | andAnd => "&&"
  | dotDot => ".."
  | dollar => "$"
  | atSign => "@"
  | tilde => "~"
  | question => "?"
  | fatArrow => "=>"
  | keyword word => word.spelling
  | eof => "end of file"

def tag : TokenKind → String
  | identifier => "Identifier"
  | integer => "Integer"
  | float => "Float"
  | string => "String"
  | boolean => "Boolean"
  | null => "Null"
  | na => "Na"
  | naCharacter => "NaCharacter"
  | naInteger => "NaInteger"
  | naReal => "NaReal"
  | naComplex => "NaComplex"
  | inf => "Inf"
  | nan => "NaN"
  | ellipsis => "Ellipsis"
  | quote => "Quote"
  | newline => "Newline"
  | comment => "Comment"
  | roxygenComment => "RoxygenComment"
  | leftParen => "LParen"
  | rightParen => "RParen"
  | leftBrace => "LBrace"
  | rightBrace => "RBrace"
  | leftBracket => "LBracket"
  | rightBracket => "RBracket"
  | doubleLeftBracket => "DoubleLBracket"
  | doubleRightBracket => "DoubleRBracket"
  | listMark => "TypeList"
  | comma => "Comma"
  | colon => "Colon"
  | semicolon => "Semicolon"
  | namespaceAccess => "Namespace"
  | internalAccess => "NamespaceInternal"
  | equal => "Equal"
  | leftAssign => "LeftAssign"
  | plusEqual => "PlusEqual"
  | minusEqual => "MinusEqual"
  | doubleEqual => "DoubleEqual"
  | bang => "Bang"
  | bangEqual => "BangEqual"
  | greater => "Greater"
  | greaterEqual => "GreaterEqual"
  | less => "Less"
  | lessEqual => "LessEqual"
  | plus => "Plus"
  | minus => "Minus"
  | star => "Star"
  | slash => "Slash"
  | caret => "Caret"
  | modulo => "Modulo"
  | percentOperator => "InfixOperator"
  | pipe => "Pipe"
  | magrittrPipe => "MagrittrPipe"
  | or => "Or"
  | orOr => "OrOr"
  | and => "And"
  | andAnd => "AndAnd"
  | dotDot => "DotDot"
  | dollar => "Dollar"
  | atSign => "At"
  | tilde => "Tilde"
  | question => "Question"
  | fatArrow => "FatArrow"
  | keyword word => s!"Keyword({word.spelling.capitalize})"
  | eof => "Eof"

end TokenKind

/-! ## Tokens -/

/-- A token: its kind, its text, the file it is from and the place of its first character. -/
structure Token where
  kind : TokenKind
  text : String
  file : String
  start : Position
  deriving Repr, DecidableEq

def Token.endOfFile (file : String) (p : Position) : Token :=
  ⟨.eof, "", file, p⟩

/-- The span of a token: as wide as its text, at least one column, on the line where it starts. -/
def Token.span (t : Token) : Span :=
  ⟨t.file, t.start, ⟨t.start.line, t.start.column + (max t.text.length 1 - 1)⟩⟩

/-- A character that belongs to no token. -/
structure StrayCharacter where
  file : String
  place : Position
  character : Char
  deriving Repr, DecidableEq

namespace StrayCharacter

def message (s : StrayCharacter) : String :=
  s!"unrecognised character '{s.character}' at {s.file}:{s.place.line}:{s.place.column}"

def span (s : StrayCharacter) : Span := .point s.file s.place

end StrayCharacter
end UnionScript
