import DataflowTypes.Expr.Basic
import DataflowTypes.Ty.Json

/-!
# Type expressions as JSON values
-/

namespace DataflowTypes

def Span.toJson (s : Span) : Json :=
  .object [("start", .nat s.start), ("end", .nat s.stop), ("line", .nat s.line),
    ("column", .nat s.column)]

def Span.ofJson? (j : Json) : Option Span := do
  match ← j.parts? ["start", "end", "line", "column"] with
  | [some start, some stop, some line, some column] =>
      return {
        start := ← start.nat?
        stop := ← stop.nat?
        line := ← line.nat?
        column := ← column.nat? }
  | _ => none

namespace Expr

def nodeJson (kind : String) (content : Json) (span : Span) : Json :=
  .object [("kind", .object [(kind, content)]), ("span", span.toJson)]

mutual

def toJson : Expr → Json
  | named name span => nodeJson "Named" (.string name) span
  | matrix element span => nodeJson "Matrix" (.string element) span
  | array element length span =>
      nodeJson "Array"
        (.object [("element", element.toJson), ("length", .optional .nat length)]) span
  | record fields span => nodeJson "Record" (.array (fieldsJson fields)) span
  | union fields span => nodeJson "Union" (.array (fieldsJson fields)) span
  | function params result span =>
      nodeJson "Function"
        (.object [("args", .array (fieldsJson params)), ("ret", result.toJson)]) span
  | object c span => nodeJson "Object" c.toJson span

def fieldsJson : List FieldExpr → List Json
  | [] => []
  | .mk label type span :: fields =>
      .object [("label", .string label), ("ty", type.toJson), ("span", span.toJson)] ::
        fieldsJson fields

end

end Expr

end DataflowTypes
