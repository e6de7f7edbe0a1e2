/-!
# Outcomes of comparing in a partial order
-/

namespace DataflowTypes

inductive Comparison where
  | lower
  | same
  | higher
  | incomparable
deriving DecidableEq, Repr

namespace Comparison

def all : List Comparison := [lower, same, higher, incomparable]

def reverse : Comparison → Comparison
  | lower => higher
  | higher => lower
  | other => other

@[simp] theorem reverse_reverse (o : Comparison) : o.reverse.reverse = o := by
  cases o <;> rfl

def isAtMost : Comparison → Bool
  | lower | same => true
  | _ => false

def isAtLeast : Comparison → Bool
  | higher | same => true
  | _ => false

def isComparable (o : Comparison) : Bool := o != incomparable

/-- The outcome for pairs, from the outcomes for their parts. -/
def combine : Comparison → Comparison → Comparison
  | same, o => o
  | o, same => o
  | lower, lower => lower
  | higher, higher => higher
  | _, _ => incomparable

def ofBounds (below above : Bool) : Comparison :=
  match below, above with
  | true, true => same
  | true, false => lower
  | false, true => higher
  | false, false => incomparable

def name : Comparison → String
  | lower => "LOWER"
  | same => "SAME"
  | higher => "HIGHER"
  | incomparable => "INCOMPARABLE"

def tag : Comparison → String
  | lower => "Lower"
  | same => "Same"
  | higher => "Higher"
  | incomparable => "Incomparable"

def ofName? (name : String) : Option Comparison := all.find? (·.name == name)

end Comparison

end DataflowTypes
