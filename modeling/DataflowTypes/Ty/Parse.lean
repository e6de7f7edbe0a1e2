import DataflowTypes.Error
import DataflowTypes.Expr.Parser

/-!
# Types from their textual form
-/

namespace DataflowTypes.Ty

def rowOf (entries : List (String × Ty)) : Except TypeError (Row Ty) :=
  (Row.ofDistinct entries).mapError .duplicateLabel

/-- The record with the given fields; a label must not come twice. -/
def recordOf (fields : List (String × Ty)) : Except TypeError Ty := return ofFields (← rowOf fields)

/-- The union of the given alternatives; a label must not come twice. -/
def unionOf (alternatives : List (String × Ty)) : Except TypeError Ty :=
  return ofAlternatives (← rowOf alternatives)

def named (name : String) : Except TypeError Ty :=
  if name = "matrix" then .ok (matrix .generic)
  else match BaseType.ofName? name with
    | some b => .ok (base b)
    | none => .error (.unknownTypeName name)

def matrixOf (element : String) : Except TypeError Ty :=
  match MatrixKind.ofElementName? element with
  | some k => .ok (matrix k)
  | none => .error (.unknownTypeName ("[" ++ element ++ "]"))

mutual

/-- The type that an expression denotes.  The names of parameters are ignored. -/
def ofExpr : Expr → Except TypeError Ty
  | .named name _ => named name
  | .matrix element _ => matrixOf element
  | .array element length _ => do return arrayOf (← ofExpr element) length
  | .record fields _ => do recordOf (← ofFieldExprs fields)
  | .union fields _ => do unionOf (← ofFieldExprs fields)
  | .function params result _ => do
      let entries ← ofFieldExprs params
      return functionOf (entries.map (·.2)) (← ofExpr result)
  | .object c _ => .ok (object c)

def ofFieldExprs : List FieldExpr → Except TypeError (List (String × Ty))
  | [] => .ok []
  | .mk label type _ :: fields => do
      let t ← ofExpr type
      return (label, t) :: (← ofFieldExprs fields)

end

def parse (source : String) : Except TypeError Ty := do
  let expr ← (Expr.parse source).mapError .parse
  ofExpr expr

end DataflowTypes.Ty
