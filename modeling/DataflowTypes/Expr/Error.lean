import DataflowTypes.Text.Lines
import DataflowTypes.Text.Span

/-!
# Errors of reading a type expression
-/

namespace DataflowTypes

inductive ParseError where
  | unexpectedToken (found expected : String) (span : Span)
  | unexpectedEnd (expected : String) (span : Span)
  | invalidLength (literal : String) (span : Span)
  | strayCharacter (span : Span)
deriving DecidableEq, Repr

namespace ParseError

def span : ParseError → Span
  | unexpectedToken _ _ s | unexpectedEnd _ s | invalidLength _ s | strayCharacter s => s

def message : ParseError → String
  | unexpectedToken found expected s =>
      s!"unexpected token '{found}' at {s.line}:{s.column}, expected {expected}"
  | unexpectedEnd expected _ => s!"unexpected end of input, expected {expected}"
  | invalidLength literal s => s!"invalid array length '{literal}' at {s.line}:{s.column}"
  | strayCharacter s => s!"unrecognized character at {s.line}:{s.column}"

/-- The number of carets under a span that starts at byte `column` (from zero)
of a line: at least one, and none past the end of the line. -/
def caretCount (span : Span) (line : String) (column : Nat) : Nat :=
  max 1 (min span.length (line.utf8ByteSize - column))

/-- The line of the source in which the error lies, with carets under its span;
empty if the source has no such line. -/
def context (e : ParseError) (source : String) : String :=
  let span := e.span
  match (Text.lines source)[span.line - 1]? with
  | none => ""
  | some line =>
      let column := span.column - 1
      let number := toString span.line
      let blanks (n : Nat) : String := String.ofList (List.replicate n ' ')
      let carets := String.ofList (List.replicate (caretCount span line column) '^')
      "  " ++ number ++ " | " ++ line ++ "\n" ++
        "  " ++ blanks number.length ++ " | " ++ blanks column ++ carets

end ParseError

end DataflowTypes
