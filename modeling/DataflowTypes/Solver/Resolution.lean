import DataflowTypes.Json.Basic
import DataflowTypes.Names
import DataflowTypes.Error

/-!
# Outcomes of a resolution
-/

namespace DataflowTypes

inductive ConflictKind where
  /-- The sides are of different families, or functions of different arity. -/
  | structuralMismatch
  /-- The sides have the same structure, but are not in order. -/
  | unsatisfiedConstraint
  | unacceptableResolution
  | nonConvergent
deriving DecidableEq, Repr

namespace ConflictKind

def all : List ConflictKind :=
  [structuralMismatch, unsatisfiedConstraint, unacceptableResolution, nonConvergent]

def name : ConflictKind → String
  | structuralMismatch => "structural mismatch"
  | unsatisfiedConstraint => "unsatisfied constraint"
  | unacceptableResolution => "unacceptable resolution"
  | nonConvergent => "did not converge"

def tag : ConflictKind → String
  | structuralMismatch => "StructuralMismatch"
  | unsatisfiedConstraint => "UnsatisfiedConstraint"
  | unacceptableResolution => "UnacceptableResolution"
  | nonConvergent => "NonConvergent"

def ofTag? (tag : String) : Option ConflictKind := all.find? (·.tag == tag)

end ConflictKind

/-- A problem found by a resolution.  `lesser` and `greater` are the values of the sides
of the inequality that does not hold, if the problem is one. -/
structure Conflict where
  kind : ConflictKind
  owners : NameSet
  vars : List VarId
  lesser : Option String
  greater : Option String
  detail : String
deriving DecidableEq

namespace Conflict

def text (c : Conflict) : String :=
  let sides := match c.lesser, c.greater with
    | some lesser, some greater => " [" ++ lesser ++ " <= " ++ greater ++ "]"
    | _, _ => ""
  c.kind.name ++ ": " ++ c.detail ++ sides

def toJson (c : Conflict) : Json :=
  .object [("kind", .string c.kind.tag), ("owners", .strings c.owners.toList),
    ("variables", .array (c.vars.map fun v => .nat v.index)),
    ("lesser", .optional .string c.lesser), ("greater", .optional .string c.greater),
    ("detail", .string c.detail)]

def ofJson? (j : Json) : Option Conflict := do
  match ← j.parts? ["kind", "owners", "variables", "lesser", "greater", "detail"] with
  | [some kind, some owners, some vars, lesser, greater, some detail] =>
      return {
        kind := ← ConflictKind.ofTag? (← kind.unitTag?)
        owners := .ofList (← owners.strings?)
        vars := (← (← vars.array?).mapM Json.nat?).map VarId.mk
        lesser := ← Json.optional? Json.string? lesser
        greater := ← Json.optional? Json.string? greater
        detail := ← detail.string? }
  | _ => none

end Conflict

/-- The outcome of a run.  Conflicts do not make the run fail. -/
structure Resolution where
  conflicts : List Conflict := []
  passes : Nat := 0
  converged : Bool := false
deriving DecidableEq

namespace Resolution

def isSuccess (r : Resolution) : Bool := r.conflicts.isEmpty

def conflictedOwners (r : Resolution) : NameSet :=
  r.conflicts.foldl (fun owners c => owners.union c.owners) .empty

def countOf (r : Resolution) (kind : ConflictKind) : Nat :=
  (r.conflicts.filter (·.kind == kind)).length

def isConflicted (r : Resolution) (v : VarId) : Bool :=
  r.conflicts.any fun c => v ∈ c.vars

end Resolution

end DataflowTypes
