import UnionScript.Grammar.Expression
/-!
# Declaration — reading type declarations and what decorates them

A type is declared by its name and either a union or a kind with a body in braces.  The body lists member types and
attributes, apart by commas or line ends; a body that lists attributes only stands for itself, so that no declared
type is an empty union.  Decorators stand on lines of their own in front of a type or a function, and each kind of
decorator fits only some declarations (`TypeDeclaration.decoratorFault?`).
-/
namespace UnionScript

/-! ## Decorators that fit -/

/-- What is wrong with a decorator in front of a type declaration, if anything is. -/
def TypeDeclaration.decoratorFault? (declaration : TypeDeclaration) (kind : DecoratorKind) : Option DecoratorFault :=
  if !kind.appliesToTypes then some (.onlyForFunctions kind)
  else if kind = .matrix ∧ declaration.kind ≠ .matrix then some (.needsMatrix declaration.name)
  else if kind = .factor ∧ declaration.kind ≠ .factor then some (.needsFactor declaration.name)
  else none

/-- The first decorator that does not fit, as the error it is reported by; `typeSpan` is where the word `type` is. -/
def TypeDeclaration.misfit? (declaration : TypeDeclaration) (typeSpan : Span) : Option ParseError :=
  declaration.decorators.findSome? fun decorator =>
    (declaration.decoratorFault? decorator.kind).map fun fault =>
      .invalidDecorator fault (decorator.span.union typeSpan)

namespace Parse

variable (deeper : Deeper)

/-! ## Type declarations -/

def isEntrySeparator (t : Token) : Bool := t.kind == .newline || t.kind == .comma

def skipEntrySeparators : Parse Unit := fun s => .ok () { s with rest := s.rest.dropWhile isEntrySeparator }

/-- Takes one entry of a body, an attribute or member types, and answers what is listed with it. -/
def entry (types : Union) (attributes : List TypedName) : Parse (Union × List TypedName) := do
  let named := (← check .identifier) && (← secondKind) == .colon
  if named then
    let name ← advance
    let _ ← advance
    return (types, attributes ++ [{ name := name.text, span := name.span, types := ← annotation }])
  else
    return (types.merge (← annotation), attributes)

/-- Takes a body in braces: its member types and its attributes. -/
def entries : Parse (Union × List TypedName) := do
  let _ ← expect .leftBrace "`\x7b` to start type body"
  rounds (fun (types, attributes) => do
    skipEntrySeparators
    if ← accept .rightBrace then
      return .done (types, attributes)
    else
      let listed ← entry types attributes
      let next ← peek
      if isEntrySeparator next || next.kind == .rightBrace then return .again listed
      else expected "`,` or `\x7d` in type body") (Union.empty, [])

def kindAhead? : Parse (Option TypeKind) := do
  let t ← peek
  let second ← secondKind
  return if t.kind = .identifier ∧ second = .leftBrace then TypeKind.ofWord? t.text else none

def typeDeclaration (decorators : List Decorator) : Parse TypeDeclaration := do
  let word ← advance
  let name ← identifier "type name"
  if ← accept .colon then
    let declaration : TypeDeclaration ←
      match ← kindAhead? with
      | some kind => do
        let _ ← advance
        let (types, attributes) ← entries
        pure {
          name := name.text, span := name.span, list := false, kind,
          types := if types.isEmpty then Union.named name.text else types, attributes, decorators }
      | none => do
        let types ← annotation
        pure {
          name := name.text, span := name.span, list := types.alternatives.all TypeName.list, kind := .plain,
          types, attributes := [], decorators }
    match declaration.misfit? word.span with
    | some error => throw error
    | none => return declaration
  else
    throw (.missingType name.text name.span)

/-! ## Decorated declarations -/

def decorator : Parse Decorator := do
  let at_ ← advance
  let name ← identifier "decorator name"
  let span := at_.span.union name.span
  match DecoratorKind.ofWord? name.text with
  | none => throw (.invalidDecorator (.unknown name.text) span)
  | some kind =>
    if ← accept .leftParen then
      let (args, close) ← arguments deeper .rightParen "`,` or `)` in decorator"
      skipNewlines
      return { kind, arguments := args, span := span.union close.span }
    else
      skipNewlines
      return { kind, arguments := [], span }

/-- Takes the declaration behind some decorators, the last of which is given apart. -/
def declarationBehind (decorators : List Decorator) (last : Decorator) : Parse Statement := do
  match ← peekKind with
  | .keyword .type => return .typeDeclaration (← typeDeclaration decorators)
  | .keyword .func =>
    match decorators.find? fun d => !d.kind.appliesToFunctions with
    | some misplaced => throw (.invalidDecorator (.onlyForTypes misplaced.kind) misplaced.span)
    | none => return .expression (← functionBehind deeper (← advance) decorators)
  | _ => throw (.danglingDecorator last.kind last.span)

def decorated : Parse Statement := do
  let first ← decorator deeper
  let (all, last) ← rounds (fun (ds, last) => do
    if ← check .atSign then
      let d ← decorator deeper
      return .again (ds ++ [d], d)
    else
      return .done (ds, last)) ([first], first)
  declarationBehind deeper all last

end Parse
end UnionScript
