/-!
# Lines of a text

A line ends at a newline, and a carriage return just before that newline
belongs to the line end.  What follows the last newline is a line of its own
unless it is empty.
-/

namespace DataflowTypes.Text

def dropReturn (line : List Char) : List Char :=
  if line.getLast? = some '\r' then line.dropLast else line

/-- `line` holds the characters of the current line, last one first. -/
def linesFrom (line : List Char) : List Char → List (List Char)
  | [] => if line.isEmpty then [] else [line.reverse]
  | c :: cs =>
      if c = '\n' then dropReturn line.reverse :: linesFrom [] cs
      else linesFrom (c :: line) cs

def lines (source : String) : List String :=
  (linesFrom [] source.toList).map String.ofList

end DataflowTypes.Text
