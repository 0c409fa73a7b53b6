import UnionScript.Grammar.Parse
/-!
# Annotation — reading unions of types

An annotation is one alternative or several with `|` between them; a line may break behind a `|`.  An alternative is an
optional `[]`, an optional package with `::`, and a name.
-/
namespace UnionScript
namespace Parse

def alternative : Parse TypeName := do
  let list ← accept .listMark
  let first ← identifier "type name"
  if ← accept .namespaceAccess then
    let second ← identifier "type name after `::`"
    return { name := second.text, package := some first.text, list }
  else
    return { name := first.text, list }

def annotation : Parse Union := do
  let first ← alternative
  let all ← rounds (fun (ts : List TypeName) => do
    if ← accept .or then
      skipNewlines
      return .again (ts ++ [← alternative])
    else
      return .done ts) [first]
  return Union.ofList all

def annotation? : Parse (Option Union) := do
  if ← accept .colon then return some (← annotation) else return none

/-- Takes the annotation that must follow a name. -/
def annotationOf (name : Token) : Parse TypedName := do
  if ← accept .colon then
    return { name := name.text, span := name.span, types := ← annotation }
  else
    throw (.missingType name.text name.span)

end Parse
end UnionScript
