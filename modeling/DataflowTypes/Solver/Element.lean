import DataflowTypes.Solver.Store
import DataflowTypes.Solver.Term

/-!
# Model elements

Anything that has a type to be resolved: a term that stands for the type, and the
constraints that the element puts on it.
-/

namespace DataflowTypes

structure Element where
  term : Term
  constraints : List Inequality := []

namespace Element

def ofVar (v : VarId) : Element := { term := .var v }

def atLeast (e : Element) (lower : Term) : Element :=
  { e with constraints := e.constraints ++ [⟨lower, e.term⟩] }

def atMost (e : Element) (upper : Term) : Element :=
  { e with constraints := e.constraints ++ [⟨e.term, upper⟩] }

def sameAs (e other : Element) : Element := (e.atLeast other.term).atMost other.term

/-- The current type of an element.  A computed type is not stored. -/
def value (e : Element) (store : Store) : Except TypeError Ty :=
  match e.term with
  | .const t => .ok t
  | .var v => return (← store.get v).value
  | .app op _ => .error (.malformedOperand (op.name ++ " has no stored type"))

def isAcceptable (e : Element) (store : Store) : Except TypeError Bool :=
  match e.term with
  | .var v => return (← store.get v).isAcceptable
  | _ => return (← e.value store).isInstantiable

end Element

end DataflowTypes
