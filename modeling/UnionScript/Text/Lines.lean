/-!
# Lines — a text cut into its lines

Lines end at a line feed; a carriage return right before it belongs to the line end.  A line feed at the very end of
the text starts no further line, so the text without its line ends is the lines and nothing else.
-/
namespace UnionScript
namespace Text

def dropReturn (line : List Char) : List Char :=
  if line.getLast? = some '\r' then line.dropLast else line

/-- The lines of a text, the characters of the unfinished line being given in reverse. -/
def linesFrom : List Char → List Char → List (List Char)
  | [], [] => []
  | pending, [] => [pending.reverse]
  | pending, c :: cs => if c = '\n' then dropReturn pending.reverse :: linesFrom [] cs else linesFrom (c :: pending) cs

def lines (text : String) : List String :=
  (linesFrom [] text.toList).map String.ofList

end Text
end UnionScript
