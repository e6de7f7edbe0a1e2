import DataflowTypes.Solver.Operator
import DataflowTypes.Text.Quoted

/-!
# Terms and inequalities
-/

namespace DataflowTypes

inductive Term where
  | const (t : Ty)
  | var (v : VarId)
  | app (op : Operator) (args : Fin op.arity → Term)

namespace Term

def var? : Term → Option VarId
  | var v => some v
  | _ => none

def addVar (vs : List VarId) (v : VarId) : List VarId := if v ∈ vs then vs else vs ++ [v]

def collectVars : Term → List VarId → List VarId
  | const _, vs => vs
  | var v, vs => addVar vs v
  | app op args, vs => (List.finRange op.arity).foldl (fun vs i => (args i).collectVars vs) vs

def vars (t : Term) : List VarId := t.collectVars []

/-! ## Listings -/

def operatorListing (op : Operator) (args : List String) : String :=
  let args := ("args", Text.bracketed args)
  match op with
  | .arrayOf => Text.structured "ArrayOf" [args] false
  | .elementOf => Text.structured "ElementOf" [args] false
  | .returnOf => Text.structured "ReturnOf" [args] false
  | .fieldOf label => Text.structured "FieldOf" [("label", Text.quote label), args] false
  | .recordOf labels _ =>
      Text.structured "RecordOf" [("labels", Text.bracketed (labels.map Text.quote)), args] false
  | .custom name owner _ _ =>
      let owner := match owner with
        | some o => "Some(Owner(" ++ Text.quote o ++ "))"
        | none => "None"
      Text.structured "MonotonicFn" [("name", Text.quote name), ("owner", owner), args] true

def listing : Term → String
  | const t => "Constant(" ++ Text.quote t.text ++ ")"
  | var v => "Variable(VarId(" ++ toString v.index ++ "))"
  | app op args =>
      Text.structured "Function" [("name", Text.quote op.name),
        ("arguments", Text.bracketed ((List.finRange op.arity).map fun i => (args i).listing))]
        false

def functionListing (op : Operator) (args : Fin op.arity → Term) : String :=
  operatorListing op ((List.finRange op.arity).map fun i => (args i).listing)

end Term

structure Inequality where
  lesser : Term
  greater : Term

namespace Inequality

def vars (q : Inequality) : List VarId :=
  q.greater.vars.foldl Term.addVar q.lesser.vars

end Inequality

end DataflowTypes
