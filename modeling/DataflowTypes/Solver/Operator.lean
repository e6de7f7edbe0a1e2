import DataflowTypes.Lattice.Inquiry
import DataflowTypes.Ty.Parse

/-!
# Functions on types

The functions from which terms are built.  The solver relies on each of them
being monotone: larger arguments give a larger value.
-/

namespace DataflowTypes

/-- How a function of its own computes its value: from its arguments, and from how types
compare. -/
structure Rule where
  value : List Ty → Inquiry (Except TypeError Ty)

namespace Rule

def joinAll : Rule where
  value args := return .ok (← Inquiry.lattice.joinAll args)

def meetAll : Rule where
  value args := return .ok (← Inquiry.lattice.meetAll args)

def direct (f : List Ty → Except TypeError Ty) : Rule where
  value args := pure (f args)

def first : Rule := direct fun
  | t :: _ => .ok t
  | [] => .error (.malformedOperand "no argument")

def reject (detail : String) : Rule := direct fun _ => .error (.malformedOperand detail)

end Rule

inductive Operator where
  | arrayOf
  /-- The element of an array; any other type counts as its own element. -/
  | elementOf
  | recordOf (labels : List String) (distinct : labels.Nodup)
  /-- The type at a label of a record. -/
  | fieldOf (label : String)
  | returnOf
  | custom (name : String) (owner : Option String) (arity : Nat) (rule : Rule)

namespace Operator

def record (labels : List String) : Except TypeError Operator :=
  if h : labels.Nodup then .ok (recordOf labels h)
  else
    let repeated := (List.range labels.length).findSome? fun i =>
      (labels[i]?).filter fun label => (labels.take i).contains label
    .error (.duplicateLabel (repeated.getD ""))

def name : Operator → String
  | arrayOf => "arrayOf"
  | elementOf => "elementOf"
  | recordOf .. => "recordOf"
  | fieldOf _ => "fieldOf"
  | returnOf => "returnOf"
  | custom name .. => name

def owner? : Operator → Option String
  | custom _ owner _ _ => owner
  | _ => none

def arity : Operator → Nat
  | arrayOf | elementOf | fieldOf _ | returnOf => 1
  | recordOf labels _ => labels.length
  | custom _ _ n _ => n

def single (op : Operator) : List Ty → Except TypeError Ty
  | [t] => .ok t
  | ts => .error (.malformedOperand s!"{op.name} takes 1 argument, got {ts.length}")

/-- The type at a label; `unknown` of `unknown`, and `general` of all that is not a
record with this label. -/
def fieldType (label : String) : Ty → Ty
  | .record ls _ r => (ls.find? r label).getD .general
  | .base .unknown => .unknown
  | _ => .general

/-- The result type; `unknown` of `unknown`, and `general` of all that is no function. -/
def resultType : Ty → Ty
  | .function _ _ _ _ s => s
  | .base .unknown => .unknown
  | _ => .general

def recordType (labels : List String) (args : List Ty) : Except TypeError Ty :=
  if args.length = labels.length then Ty.recordOf (labels.zip args)
  else .error (.malformedOperand
    s!"recordOf expects {labels.length} arguments, got {args.length}")

def apply {m : Type → Type} [Monad m] (L : Lattice m) (op : Operator) (args : List Ty) :
    m (Except TypeError Ty) :=
  match op with
  | arrayOf => pure ((op.single args).map fun t => .arrayOf t none)
  | elementOf => pure ((op.single args).map fun t => t.element?.getD t)
  | recordOf labels _ => pure (recordType labels args)
  | fieldOf label => pure ((op.single args).map (fieldType label))
  | returnOf => pure ((op.single args).map resultType)
  | custom _ _ _ rule => (rule.value args).run L

end Operator

end DataflowTypes
