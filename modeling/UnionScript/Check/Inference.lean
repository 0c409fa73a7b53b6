import UnionScript.Check.State
/-!
# Inference — walking expressions and statements

Every expression has a union of types, inferred from its parts and the names in scope, and every statement is checked
against what is declared around it.  Walking a part of an expression counts one level deeper, but the left operands of
operators and the targets of calls, indices and accesses stay at the level of the whole, because a chain of them, however
long, is not nested.
-/
namespace UnionScript
namespace Check

/-! ## Names and literals -/

def typeOfLiteral : Literal → Union
  | .integer _ => .named "int"
  | .float _ => .named "num"
  | .string _ => .named "char"
  | .boolean _ => .named "bool"
  | .null => .named "null"
  | .constant .na => .named "na"
  | .constant .naCharacter => .named "na_char"
  | .constant .naInteger => .named "na_int"
  | .constant .naReal => .named "na_real"
  | .constant .naComplex => .named "na_complex"
  | .constant .inf => .named "num"
  | .constant .nan => .named "nan"
  | .constant .ellipsis => .any

/-- The types of a name: those of the variable, or the type so named, or anything; a name that nothing has is
reported. -/
def typeOfName (span : Span) (name : String) : Check Union := do
  let env ← environment
  match env.findVariable? name, env.findType? name, env.findFunction? name with
  | some v, _, _ => return v.types
  | none, some _, _ => return .named name
  | none, none, some _ => return .any
  | none, none, none =>
    report (.nameNotFound name) span
    return .any

def accessName? : Expression → Option String
  | .identifier _ name => some name
  | .literal _ (.string content) => some content
  | _ => none

/-- The types of an attribute of a value; anything unless the value is of a single declared type that has it. -/
def typeOfAttribute (object : Union) (access : Expression) : Check Union := do
  let env ← environment
  match accessName? access, object.alternatives with
  | some name, [t] =>
    if t.list then return .any
    else return (((env.findType? t.name).bind fun entry => entry.attribute? name).map TypedName.types).getD .any
  | _, _ => return .any

/-- Reports a function that a known package does not export. -/
def checkExport (left right : Expression) : Check Unit := do
  match left, right with
  | .identifier _ package, .identifier span function =>
    match ← package? package with
    | some known =>
      if known.isExported function then pure () else report (.notExported function package) span
    | none => pure ()
  | _, _ => pure ()

/-- Gives a name a value of some types; the result has the types of the variable. -/
def assignTo (span targetSpan : Span) (name : String) (value : Union) : Check Union := do
  match (← environment).findVariable? name with
  | none =>
    report (.targetUndeclared name) targetSpan
    return value
  | some v =>
    if v.constant then report (.targetConstant name) span
    else requireMatch value v.types span (.variable name)
    return v.types

/-! ## Calls -/

/-- What a call calls. -/
inductive Callee where
  | value
  | constructor (t : TypeEntry)
  | function (f : FunctionSignature)
  | host

/-- What a name calls: a variable's value, a type's constructor, a declared function, or a function of the host. -/
def calleeOf (env : Environment) (name : String) : Callee :=
  match env.findVariable? name, env.findType? name, env.findFunction? name with
  | some _, _, _ => .value
  | none, some t, _ => .constructor t
  | none, none, some f => .function f
  | none, none, none => .host

/-- Checks the named arguments of a constructor against the attributes of its type. -/
def checkConstructor (t : TypeEntry) : List (Argument × Union) → Check Unit
  | [] => pure ()
  | (argument, actual) :: rest => do
    match argument.name with
    | none => pure ()
    | some (name, nameSpan) =>
      match t.attribute? name with
      | some known => requireMatch actual known.types argument.value.span (.attribute name t.name)
      | none => report (.noAttribute t.name name) nameSpan
    checkConstructor t rest

/-- The parameters that arguments are bound to, the next position being given: a named argument is bound to the
parameter of that name, and the unnamed ones to the parameters in order. -/
def boundParameters (f : FunctionSignature) (position : Nat) : List Argument → List (Option ParameterSignature)
  | [] => []
  | argument :: rest =>
    match argument.name with
    | some (name, _) => f.parameter? name :: boundParameters f position rest
    | none =>
      (f.parameters[position]?.filter fun p => p.name != ellipsisName) :: boundParameters f (position + 1) rest

def checkArgument (f : FunctionSignature) (argument : Argument) (actual : Union) :
    Option ParameterSignature → Check Unit
  | some p => requireMatch actual p.types argument.value.span (.parameter p.name f.name)
  | none =>
    match argument.name with
    | some (name, nameSpan) => if f.isVariadic then pure () else report (.noParameter f.name name) nameSpan
    | none => pure ()

def checkArguments (f : FunctionSignature) : List (Argument × Union) → List (Option ParameterSignature) → Check Unit
  | (argument, actual) :: rest, bound :: more => do
    checkArgument f argument actual bound
    checkArguments f rest more
  | _, _ => pure ()

/-- Checks a call whose arguments have been inferred, and answers the types of its result. -/
def finishCall (arguments : List Argument) (actuals : List Union) : Callee → Check Union
  | .value => return .any
  | .constructor t => do
    if t.kind.hasAttributes then checkConstructor t (arguments.zip actuals)
    return .named t.name
  | .function f => do
    checkArguments f (arguments.zip actuals) (boundParameters f 0 arguments)
    return f.returnTypes.getD .any
  | .host => return .any

/-! ## Declarations -/

def classNames (decorators : List Decorator) : List String :=
  ((decorators.filter fun d => d.kind == .classes).flatMap Decorator.arguments).filterMap fun a => accessName? a.value

/-- The entry of a declared type, before it gets its place in the order. -/
def entryOf (d : TypeDeclaration) : TypeEntry where
  name := d.name
  types := d.types
  list := d.list
  kind := d.kind
  attributes := d.attributes
  classes := classNames d.decorators
  decorators := d.decorators
  builtin := false
  span := d.span
  order := 0

def requireAttributes : List TypedName → Check Unit
  | [] => pure ()
  | a :: rest => do
    let _ ← requireDefined a.types a.span
    requireAttributes rest

/-- Declares a type under a name that is free.  The types it is made of are looked up afterwards, so that it may refer
to itself. -/
def declareType (d : TypeDeclaration) : Check Unit := do
  match (← environment).findType? d.name with
  | some existing =>
    report (if existing.builtin then .builtinTypeRedefined d.name else .typeDefinedTwice d.name) d.span
  | none =>
    change (.type (entryOf d))
    let _ ← requireDefined d.types d.span
    requireAttributes d.attributes

/-- Declares a variable under a name that is free, given the types of its initial value if it has one. -/
def declareBinding (constant : Bool) (target : TypedName) (actual : Option Union) : Check Unit := do
  match (← environment).findVariable? target.name with
  | some _ => report (.variableDeclaredTwice target.name) target.span
  | none =>
    let defined ← requireDefined target.types target.span
    match defined, actual with
    | true, some types => requireMatch types target.types target.span (.variable target.name)
    | _, _ => pure ()
    change (.variable { name := target.name, types := target.types, constant, span := target.span })

/-- Declares a variable that cannot be taken for another one: a parameter, a receiver or a loop variable. -/
def declareLocal (name : String) (types : Union) (span : Span) : Check Unit :=
  change (.variable { name, types, constant := false, span })

def parameterSignature (p : Parameter) : ParameterSignature :=
  { name := p.name, types := p.types.getD .any, hasDefault := p.default.isSome }

/-- Declares a function where it is written; methods are not declared, but their receivers must be of known types. -/
def declareFunction (f : FunctionLiteral) : Check Unit := do
  match f.receiver, f.name with
  | some receiver, _ =>
    let _ ← requireDefined receiver.types receiver.span
    pure ()
  | none, some name =>
    if (← environment).declaresFunctionHere name then
      report (.functionDeclaredTwice name) f.nameSpan
    else
      change (.function {
        name, parameters := f.parameters.map parameterSignature, returnTypes := f.returnTypes, span := f.nameSpan })
  | none, none => pure ()

def requireSignature (types : Option Union) (span : Span) : Check Unit := do
  match types with
  | some known =>
    let _ ← requireDefined known span
    pure ()
  | none => pure ()

def declareReceiver (receiver : Option TypedName) : Check Unit :=
  match receiver with
  | some r => declareLocal r.name r.types r.span
  | none => pure ()

/-- Declares a loop variable, which takes the elements of what is iterated over. -/
def requireLoopVariable (loopVariable : TypedName) (iterable : Union) : Check Unit := do
  if ← requireDefined loopVariable.types loopVariable.span then
    requireMatch iterable.elements loopVariable.types loopVariable.span (.loopVariable loopVariable.name)

def checkReturn (actual : Union) (span : Span) : Check Unit := do
  match (← get).returns with
  | [] => report .returnOutsideFunction span
  | some expected :: _ => requireMatch actual expected span .returnValue
  | none :: _ => pure ()

/-! ## The walk -/

mutual

/-- Infers the types of an expression, `step` levels deeper than what is around it. -/
def infer (limit step : Nat) : Expression → Check Union
  | .identifier span name => visit limit step span (typeOfName span name)
  | .literal span value => visit limit step span (return typeOfLiteral value)
  | .vector span elements => visit limit step span do
    let types ← inferAll limit elements
    return if elements.isEmpty then Union.named "null" else types.foldl Union.merge .empty
  | .unary span _ operand => visit limit step span (infer limit 1 operand)
  | .binary span operator left right => visit limit step span <|
    match operator with
    | .assign | .leftAssign | .increment | .decrement => do
      let value ← infer limit 1 right
      match left with
      | .identifier targetSpan name => assignTo span targetSpan name value
      | _ =>
        let _ ← infer limit 0 left
        return value
    | .dollar | .slot => do
      let object ← infer limit 0 left
      typeOfAttribute object right
    | .namespaceAccess | .internalAccess => do
      checkExport left right
      return .any
    | .pipe | .magrittrPipe => do
      let _ ← infer limit 0 left
      infer limit 1 right
    | .range => do
      let _ ← infer limit 0 left
      let _ ← infer limit 1 right
      return .named "int"
    | .equal | .notEqual | .less | .lessEqual | .greater | .greaterEqual | .and | .andAnd | .or | .orOr => do
      let _ ← infer limit 0 left
      let _ ← infer limit 1 right
      return .named "bool"
    | _ => do
      let types ← infer limit 0 left
      let _ ← infer limit 1 right
      return types
  | .conditional span condition consequence alternative => visit limit step span do
    let _ ← infer limit 1 condition
    walkBlock limit .branch consequence
    match alternative with
    | some block => walkBlock limit .branch block
    | none => pure ()
    return .any
  | .forLoop span loopVariable iterable ⟨statements, _⟩ => visit limit step span do
    let types ← infer limit 1 iterable
    requireLoopVariable loopVariable types
    within .loop do
      declareLocal loopVariable.name loopVariable.types loopVariable.span
      walkStatements limit statements
    return .any
  | .whileLoop span condition body => visit limit step span do
    let _ ← infer limit 1 condition
    walkBlock limit .loop body
    return .any
  | .repeatLoop span body => visit limit step span do
    walkBlock limit .loop body
    return .any
  | .function span literal => visit limit step span do
    walkFunction limit literal
    return .any
  | .call span callee arguments => visit limit step span do
    match callee with
    | .identifier _ name =>
      let called := calleeOf (← environment) name
      let types ← inferArguments limit arguments
      finishCall arguments types called
    | _ =>
      let _ ← infer limit 0 callee
      let _ ← inferArguments limit arguments
      return .any
  | .index span object arguments double => visit limit step span do
    let types ← infer limit 0 object
    let _ ← inferArguments limit arguments
    return if double then types.elements else types

def inferAll (limit : Nat) : List Expression → Check (List Union)
  | [] => return []
  | e :: rest => do
    let types ← infer limit 1 e
    return types :: (← inferAll limit rest)

def inferArguments (limit : Nat) : List Argument → Check (List Union)
  | [] => return []
  | ⟨_, value⟩ :: rest => do
    let types ← infer limit 1 value
    return types :: (← inferArguments limit rest)

/-- Checks the parameters of a function and declares them one after the other, so that a default sees the parameters
in front of it. -/
def walkParameters (limit : Nat) : List Parameter → Check Unit
  | [] => pure ()
  | ⟨name, span, types, default⟩ :: rest => do
    requireSignature types span
    match default with
    | some value =>
      let actual ← infer limit 1 value
      requireMatch actual (types.getD .any) value.span (.default name)
    | none => pure ()
    if name == ellipsisName then pure () else declareLocal name (types.getD .any) span
    walkParameters limit rest

/-- Walks a function: declares it, then checks its parameters and its body in a frame of its own. -/
def walkFunction (limit : Nat) : FunctionLiteral → Check Unit
  | ⟨name, nameSpan, receiver, parameters, returnTypes, ⟨statements, blockSpan⟩, decorators⟩ => do
    declareFunction ⟨name, nameSpan, receiver, parameters, returnTypes, ⟨statements, blockSpan⟩, decorators⟩
    requireSignature returnTypes nameSpan
    within .function do
      declareReceiver receiver
      walkParameters limit parameters
      returning returnTypes (walkStatements limit statements)

def walkBlock (limit : Nat) (kind : FrameKind) : Block → Check Unit
  | ⟨statements, _⟩ => within kind (walkStatements limit statements)

def walkStatements (limit : Nat) : List Statement → Check Unit
  | [] => pure ()
  | s :: rest => do
    walkStatement limit s
    walkStatements limit rest

def walkStatement (limit : Nat) : Statement → Check Unit
  | .binding constant target (some value) => do
    let actual ← infer limit 1 value
    declareBinding constant target (some actual)
  | .binding constant target none => declareBinding constant target none
  | .typeDeclaration d => declareType d
  | .return (some value) span => do
    let actual ← infer limit 1 value
    checkReturn actual span
  | .return none span => checkReturn (.named "null") span
  | .defer e span => do
    if (← environment).inFunction then pure () else report .deferOutsideFunction span
    let _ ← infer limit 1 e
    pure ()
  | .jump kind span => do
    if (← environment).inLoop then pure () else report (.jumpOutsideLoop kind) span
  | .block block => walkBlock limit .block block
  | .comment _ _ _ => pure ()
  | .expression e => do
    let _ ← infer limit 1 e
    pure ()

end

end Check
end UnionScript
