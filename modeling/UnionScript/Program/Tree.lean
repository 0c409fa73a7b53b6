import UnionScript.Span
import UnionScript.Union
import UnionScript.Program.Operator
/-!
# Tree — a program as expressions, statements and blocks

A program is a list of statements.  Statements hold expressions and expressions hold statements in turn, since the
branches of an `if`, the bodies of loops and the bodies of functions are blocks; so expressions, statements and what
they are made of form one family of types.  Every expression carries the span it was read from, which is what its
inferred type is filed under.
-/
namespace UnionScript

/-! ## Leaves -/

/-- The constants spelled like words. -/
inductive Constant where
  | na | naCharacter | naInteger | naReal | naComplex | inf | nan
  | ellipsis
  deriving Repr, DecidableEq

def Constant.spelling : Constant → String
  | na => "NA"
  | naCharacter => "NA_character_"
  | naInteger => "NA_integer_"
  | naReal => "NA_real_"
  | naComplex => "NA_complex_"
  | inf => "Inf"
  | nan => "NaN"
  | ellipsis => "..."

/-- A literal value; numbers keep their source text and strings their raw content. -/
inductive Literal where
  | integer (text : String)
  | float (text : String)
  | string (content : String)
  | boolean (value : Bool)
  | null
  | constant (value : Constant)
  deriving Repr, DecidableEq

/-- A name with its type annotation: a binding, a loop variable, a receiver or an attribute. -/
structure TypedName where
  name : String
  span : Span
  types : Union
  deriving DecidableEq

/-- The statements that leave a loop or begin its next round. -/
inductive Jump where
  | break
  | next
  deriving Repr, DecidableEq

def Jump.keyword : Jump → String
  | .break => "break"
  | .next => "next"

/-! ## Type declarations -/

/-- What a declared type is built as; a plain one is a name for a union. -/
inductive TypeKind where
  | plain
  | struct
  | object
  | dataframe
  | list
  | matrix
  | factor
  deriving Repr, DecidableEq

namespace TypeKind

/-- The word that announces a kind in a declaration; a plain one has none. -/
def word : TypeKind → String
  | plain => ""
  | struct => "struct"
  | object => "object"
  | dataframe => "dataframe"
  | list => "list"
  | matrix => "matrix"
  | factor => "factor"

def ofWord? : String → Option TypeKind
  | "struct" => some struct
  | "object" => some object
  | "dataframe" => some dataframe
  | "list" => some list
  | "matrix" => some matrix
  | "factor" => some factor
  | _ => none

/-- Kinds whose values are made of named attributes rather than of elements. -/
def hasAttributes : TypeKind → Bool
  | struct | object | dataframe => true
  | _ => false

end TypeKind

/-- The decorators in front of a declaration. -/
inductive DecoratorKind where
  | classes
  | matrix
  | factor
  | generic
  | default
  | environment
  deriving Repr, DecidableEq

namespace DecoratorKind

def word : DecoratorKind → String
  | .classes => "class"
  | .matrix => "matrix"
  | .factor => "factor"
  | .generic => "generic"
  | .default => "default"
  | .environment => "environment"

def ofWord? : String → Option DecoratorKind
  | "class" => some .classes
  | "matrix" => some .matrix
  | "factor" => some .factor
  | "generic" => some .generic
  | "default" => some .default
  | "environment" => some .environment
  | _ => none

/-- Decorators that may stand in front of a type declaration. -/
def appliesToTypes : DecoratorKind → Bool
  | .classes | .matrix | .factor | .environment => true
  | _ => false

/-- Decorators that may stand in front of a function. -/
def appliesToFunctions : DecoratorKind → Bool
  | .generic | .default | .environment => true
  | _ => false

end DecoratorKind

/-! ## Expressions and statements -/

mutual

/-- An expression, with the span it was read from. -/
inductive Expression where
  | identifier (span : Span) (name : String)
  | literal (span : Span) (value : Literal)
  | vector (span : Span) (elements : List Expression)
  | unary (span : Span) (operator : UnaryOperator) (operand : Expression)
  | binary (span : Span) (operator : BinaryOperator) (left right : Expression)
  | conditional (span : Span) (condition : Expression) (consequence : Block) (alternative : Option Block)
  | forLoop (span : Span) (loopVariable : TypedName) (iterable : Expression) (body : Block)
  | whileLoop (span : Span) (condition : Expression) (body : Block)
  | repeatLoop (span : Span) (body : Block)
  | function (span : Span) (literal : FunctionLiteral)
  | call (span : Span) (callee : Expression) (arguments : List Argument)
  | index (span : Span) (object : Expression) (arguments : List Argument) (double : Bool)

/-- An argument of a call, an index or a decorator: a value, perhaps behind a name in its place. -/
structure Argument where
  name : Option (String × Span)
  value : Expression

/-- A parameter of a function; an ellipsis is a parameter of that name. -/
structure Parameter where
  name : String
  span : Span
  types : Option Union
  default : Option Expression

/-- A function: perhaps a name, perhaps a receiver in front of it, parameters, perhaps return types, and a body. -/
structure FunctionLiteral where
  name : Option String
  nameSpan : Span
  receiver : Option TypedName
  parameters : List Parameter
  returnTypes : Option Union
  body : Block
  decorators : List Decorator

/-- A decorator in front of a declaration. -/
structure Decorator where
  kind : DecoratorKind
  arguments : List Argument
  span : Span

/-- Statements between braces, or the single statement that stands for such. -/
structure Block where
  statements : List Statement
  span : Span

/-- The declaration of a type by its members and attributes. -/
structure TypeDeclaration where
  name : String
  span : Span
  list : Bool
  kind : TypeKind
  types : Union
  attributes : List TypedName
  decorators : List Decorator

/-- A statement. -/
inductive Statement where
  | binding (constant : Bool) (target : TypedName) (value : Option Expression)
  | return (value : Option Expression) (span : Span)
  | typeDeclaration (declaration : TypeDeclaration)
  | comment (text : String) (roxygen : Bool) (span : Span)
  | defer (expression : Expression) (span : Span)
  | jump (kind : Jump) (span : Span)
  | block (block : Block)
  | expression (expression : Expression)

end

/-- A program: its statements in order. -/
structure Program where
  statements : List Statement

instance : Inhabited Program := ⟨⟨[]⟩⟩

def Expression.span : Expression → Span
  | .identifier span _ | .literal span _ | .vector span _ | .unary span _ _ | .binary span _ _ _
  | .conditional span _ _ _ | .forLoop span _ _ _ | .whileLoop span _ _ | .repeatLoop span _
  | .function span _ | .call span _ _ | .index span _ _ _ => span

def ellipsisName : String := "..."

def Parameter.isEllipsis (p : Parameter) : Bool := p.name == ellipsisName

end UnionScript
