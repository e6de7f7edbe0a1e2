import DataflowTypes.Text.Span
import DataflowTypes.Ty.Tag

/-!
# Type expressions

The tree of a written type.  Names stay as they were written; whether `int` or
`[fixedpoint]` names a type is decided when the tree is read as a type.
-/

namespace DataflowTypes

mutual

inductive Expr where
  | named (name : String) (span : Span)
  | matrix (element : String) (span : Span)
  | array (element : Expr) (length : Option Nat) (span : Span)
  | record (fields : List FieldExpr) (span : Span)
  | union (fields : List FieldExpr) (span : Span)
  | function (params : List FieldExpr) (result : Expr) (span : Span)
  | object (c : ObjectClass) (span : Span)

inductive FieldExpr where
  | mk (label : String) (type : Expr) (span : Span)

end

namespace Expr

def span : Expr → Span
  | named _ s | matrix _ s | array _ _ s | record _ s | union _ s | function _ _ s
  | object _ s => s

mutual

def size : Expr → Nat
  | named .. | matrix .. | object .. => 1
  | array element _ _ => 1 + element.size
  | record fields _ | union fields _ => 1 + fieldsSize fields
  | function params result _ => 1 + (fieldsSize params + result.size)

def fieldsSize : List FieldExpr → Nat
  | [] => 0
  | .mk _ type _ :: fields => type.size + fieldsSize fields

end

end Expr

end DataflowTypes
