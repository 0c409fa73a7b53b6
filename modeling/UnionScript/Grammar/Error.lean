import UnionScript.Token
import UnionScript.Program.Tree
/-!
# Error — why a statement cannot be read

Each way of failing is a constructor that holds what the message needs; the wording is in `ParseError.message` alone.
Every error has a span, the place it is reported at.
-/
namespace UnionScript

/-- What is wrong with a decorator. -/
inductive DecoratorFault where
  | unknown (name : String)
  | onlyForTypes (kind : DecoratorKind)
  | onlyForFunctions (kind : DecoratorKind)
  | needsMatrix (type : String)
  | needsFactor (type : String)
  deriving Repr, DecidableEq

def DecoratorFault.message : DecoratorFault → String
  | unknown name => s!"unknown decorator @{name}"
  | onlyForTypes kind => s!"@{kind.word} can only decorate type declarations"
  | onlyForFunctions kind => s!"@{kind.word} can only decorate func declarations"
  | needsMatrix type => s!"@matrix requires a matrix declaration, `{type}` is not one"
  | needsFactor type => s!"@factor requires a factor declaration, `{type}` is not one"

/-- Why a statement cannot be read. -/
inductive ParseError where
  | unexpectedToken (found : TokenKind) (text : String) (span : Span)
  | expectedToken (expected : String) (found : TokenKind) (span : Span)
  | unterminatedString (span : Span)
  | missingType (name : String) (span : Span)
  | danglingDecorator (kind : DecoratorKind) (span : Span)
  | invalidDecorator (fault : DecoratorFault) (span : Span)
  | nestingTooDeep (limit : Nat) (span : Span)
  | invalidLiteral (text : String) (span : Span)
  deriving Repr, DecidableEq

namespace ParseError

def span : ParseError → Span
  | unexpectedToken _ _ span | expectedToken _ _ span | unterminatedString span | missingType _ span
  | danglingDecorator _ span | invalidDecorator _ span | nestingTooDeep _ span | invalidLiteral _ span => span

def message : ParseError → String
  | unexpectedToken found text _ => s!"unexpected {found.describe} `{text}`"
  | expectedToken expected found _ => s!"expected {expected}, found {found.describe}"
  | unterminatedString _ => "unterminated string, expected closing quote"
  | missingType name _ => s!"expected type annotation for `{name}`"
  | danglingDecorator kind _ => s!"decorator @{kind.word} must be followed by a `type` or `func` declaration"
  | invalidDecorator fault _ => fault.message
  | nestingTooDeep limit _ => s!"expression nested deeper than {limit} levels"
  | invalidLiteral text _ => s!"invalid literal `{text}`"

end ParseError
end UnionScript
