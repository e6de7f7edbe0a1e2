/-!
# Diagnostics

A record of why variables ended where they did, in the order in which things
happened.  Nothing is recorded unless the collector is enabled.
-/

namespace DataflowTypes

inductive DiagnosticReason where
  | constantConstraintViolated
  | notSubstitutionInstance (candidate : String)
  | fixedPointDivergence (passes : Nat)
  | unacceptableResolution
  | structuralMismatch
  | unsatisfiedConstraint
deriving DecidableEq, Repr

def DiagnosticReason.text : DiagnosticReason → String
  | constantConstraintViolated => "constraint between fixed types does not hold"
  | notSubstitutionInstance candidate =>
      "bound " ++ candidate ++ " does not fit the declared type"
  | fixedPointDivergence passes =>
      "resolution didn't converge after " ++ toString passes ++ " passes"
  | unacceptableResolution => "resolved to an abstract type"
  | structuralMismatch => "types have incompatible structure"
  | unsatisfiedConstraint => "constraint not satisfied"

/-- `context` is the owner or inequality in question, `resolvedTo` the value of the
variable at that time. -/
structure Diagnostic where
  reason : DiagnosticReason
  context : Option String := none
  resolvedTo : Option String := none
deriving DecidableEq, Repr

namespace Diagnostic

def text (d : Diagnostic) : String :=
  let context := match d.context with
    | some c => " (" ++ c ++ ")"
    | none => ""
  let value := match d.resolvedTo with
    | some t => " -> " ++ t
    | none => ""
  "type resolution: " ++ d.reason.text ++ context ++ value

def constantViolation (inequality : String) : Diagnostic :=
  { reason := .constantConstraintViolated, context := some inequality }

def notInstance (owner candidate kept : String) : Diagnostic :=
  { reason := .notSubstitutionInstance candidate, context := some owner, resolvedTo := some kept }

def divergence (passes : Nat) (owners : List String) : Diagnostic :=
  let context :=
    if owners.isEmpty then "constraint set"
    else "variables: " ++ String.intercalate ", " owners
  { reason := .fixedPointDivergence passes, context := some context }

def unacceptable (owner value : String) : Diagnostic :=
  { reason := .unacceptableResolution, context := some owner, resolvedTo := some value }

def unsatisfied (reason : DiagnosticReason) (inequality : String) : Diagnostic :=
  { reason, context := some inequality }

end Diagnostic

structure Collector where
  enabled : Bool := false
  entries : List Diagnostic := []
deriving DecidableEq, Repr

namespace Collector

def record (c : Collector) (ds : List Diagnostic) : Collector :=
  if c.enabled then { c with entries := c.entries ++ ds } else c

def clear (c : Collector) : Collector := { c with entries := [] }

def take (c : Collector) : List Diagnostic × Collector := (c.entries, c.clear)

end Collector

end DataflowTypes
