import UnionScript.Diagnostic
import UnionScript.Program.Tree
/-!
# Finding — what the checker objects to

Each objection is a constructor that holds what its message needs; the wording is in `Finding.message`, the severity in
`Finding.severity`, and a report is a finding at a span.
-/
namespace UnionScript

/-- What a union was expected of, as messages name it. -/
inductive Subject where
  | variable (name : String)
  | returnValue
  | attribute (name type : String)
  | parameter (name function : String)
  | default (name : String)
  | loopVariable (name : String)
  deriving Repr, DecidableEq

def Subject.render : Subject → String
  | .variable name => s!"`{name}`"
  | .returnValue => "return value"
  | .attribute name type => s!"attribute `{name}` of `{type}`"
  | .parameter name function => s!"parameter `{name}` of `{function}`"
  | .default name => s!"default of `{name}`"
  | .loopVariable name => s!"loop variable `{name}`"

/-- What the checker objects to. -/
inductive Finding where
  | deferOutsideFunction
  | returnOutsideFunction
  | jumpOutsideLoop (kind : Jump)
  | variableDeclaredTwice (name : String)
  | functionDeclaredTwice (name : String)
  | typeDefinedTwice (name : String)
  | builtinTypeRedefined (name : String)
  | typeUndefined (name : String)
  | nameNotFound (name : String)
  | targetUndeclared (name : String)
  | targetConstant (name : String)
  | notExported (function package : String)
  | noAttribute (type name : String)
  | noParameter (function name : String)
  | mismatch (subject : Subject) (expected unmatched : Union)
  | nestingTooDeep (limit : Nat)
  deriving DecidableEq

namespace Finding

/-- How much a finding matters: names that may come from the host only warn. -/
def severity : Finding → Severity
  | nameNotFound _ | notExported _ _ => .warn
  | _ => .fatal

def message : Finding → String
  | deferOutsideFunction => "`defer` can only be used inside a function"
  | returnOutsideFunction => "`return` can only be used inside a function"
  | jumpOutsideLoop kind => s!"`{kind.keyword}` can only be used inside a loop"
  | variableDeclaredTwice name => s!"`{name}` is already declared"
  | functionDeclaredTwice name => s!"function `{name}` is already declared"
  | typeDefinedTwice name => s!"type `{name}` is already defined"
  | builtinTypeRedefined name => s!"type `{name}` is built in and cannot be redefined"
  | typeUndefined name => s!"type `{name}` is not defined"
  | nameNotFound name => s!"`{name}` not found"
  | targetUndeclared name => s!"`{name}` is not declared, declare it with `let`"
  | targetConstant name => s!"`{name}` is a constant and cannot be reassigned"
  | notExported function package => s!"`{function}` is not exported by package `{package}`"
  | noAttribute type name => s!"`{type}` has no attribute `{name}`"
  | noParameter function name => s!"`{function}` has no parameter `{name}`"
  | mismatch subject expected unmatched =>
    s!"{subject.render} expects one of `{expected.render}`, got unmatched `{unmatched.render}`"
  | nestingTooDeep limit => s!"expression nested deeper than {limit} levels"

end Finding

/-- A finding at a span. -/
structure Report where
  finding : Finding
  span : Span
  deriving DecidableEq

def Report.diagnostic (r : Report) : Diagnostic :=
  ⟨r.finding.severity, r.span, r.finding.message⟩

end UnionScript
