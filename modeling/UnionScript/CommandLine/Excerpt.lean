import UnionScript.Diagnostic
import UnionScript.Text.Json
/-!
# Excerpt — how a diagnostic is shown to people and to programs

People see the message, the place, and the line with carets under the span; a tab of the line is shown as four spaces.
Programs see one JSON object a line.
-/
namespace UnionScript
namespace Excerpt

/-! ## Excerpts -/

def indent : String := "      "

def shown (c : Char) : List Char := if c = '\t' then [' ', ' ', ' ', ' '] else [c]

def blank (c : Char) : List Char := if c = '\t' then [' ', ' ', ' ', ' '] else [' ']

def shownLine (line : List Char) : List Char := line.flatMap shown

/-- How many carets a span gets: its columns if it ends on the line, else what is shown of the line, less the columns in
front of it; at least one. -/
def caretCount (line : List Char) (span : Span) : Nat :=
  max 1 (if span.last.line = span.first.line then span.last.column - span.first.column + 1
    else (shownLine line).length - (span.first.column - 1))

def caretLine (line : List Char) (span : Span) : List Char :=
  (line.take (span.first.column - 1)).flatMap blank ++ List.replicate (caretCount line span) '^'

def marker : Severity → String
  | .fatal => "  -"
  | .warn => "  ~"
  | .info | .hint => "  *"

def render (lines : List String) (d : Diagnostic) : List String :=
  [s!"{marker d.severity} {d.severity.label}: {d.message}",
    s!"     --> {d.span.file}:{d.span.first.line}:{d.span.first.column}"] ++
  match lines[d.span.first.line - 1]? with
  | some line =>
    [indent ++ String.ofList (shownLine line.toList), indent ++ String.ofList (caretLine line.toList d.span)]
  | none => []

/-! ## Records -/

def record (d : Diagnostic) : String :=
  Text.Json.writeObject [
    ("column", toString d.span.first.column),
    ("file", Text.Json.writeString d.span.file),
    ("line", toString d.span.first.line),
    ("message", Text.Json.writeString d.message),
    ("severity", toString d.severity.code)]

end Excerpt
end UnionScript
