import DataflowTypes.Number.Round
import DataflowTypes.Solver.Resolution
import DataflowTypes.Solver.Store

/-!
# Reports

A snapshot of the variables and conflicts after a resolution, written as text or
as JSON.
-/

namespace DataflowTypes

structure ReportSummary where
  totalVariables : Nat
  resolvedCount : Nat
  conflictedCount : Nat
  unboundCount : Nat
  passes : Nat
  converged : Bool
deriving DecidableEq, Repr

structure VariableReport where
  owner : String
  declared : String
  value : String
  state : VarState
deriving DecidableEq, Repr

structure Report where
  summary : ReportSummary
  vars : List VariableReport
  conflicts : List Conflict
deriving DecidableEq

/-! ## Taking a snapshot -/

def VariableReport.ofVariable (x : Variable) : VariableReport :=
  { owner := x.owner, declared := x.declared.text, value := x.value.text, state := x.state }

namespace Report

def ofResolution (r : Resolution) (store : Store) : Report :=
  let vars := store.vars.map VariableReport.ofVariable
  let count (state : VarState) : Nat := (vars.filter (·.state == state)).length
  { summary :=
      { totalVariables := vars.length
        resolvedCount := count .resolved
        conflictedCount := count .conflicted
        unboundCount := count .unbound
        passes := r.passes
        converged := r.converged }
    vars
    conflicts := r.conflicts }

def isSuccess (r : Report) : Bool := r.conflicts.isEmpty

end Report

/-! ## Text -/

/-- The share of resolved variables in percent; all of none are resolved.  The quotient
and the product are each rounded to 53 significant bits. -/
def ReportSummary.resolvedPercent (s : ReportSummary) : Binary :=
  if s.totalVariables = 0 then .ofNat 100
  else ((Binary.ofNat s.resolvedCount).div (.ofNat s.totalVariables)).mul (.ofNat 100)

def VariableReport.text (v : VariableReport) : String :=
  let declared := if v.declared = v.value then "" else s!" (declared {v.declared})"
  s!"  {v.owner}: {v.value}{declared} [{v.state.name}]\n"

def Conflict.entry (number : Nat) (c : Conflict) : String :=
  let values := match c.lesser, c.greater with
    | some lesser, some greater => s!"   Values: {lesser} <= {greater}\n"
    | _, _ => ""
  let owners := String.intercalate ", " c.owners.toList
  s!"{number}. {c.kind.name}\n   Constraint: {c.detail}\n" ++ values ++ s!"   Owners: {owners}\n"

def ReportSummary.text (s : ReportSummary) : String :=
  let ifAny (title : String) (n : Nat) : String := if 0 < n then s!"  {title}: {n}\n" else ""
  let note := if s.converged then "" else " (not converged)"
  let percent := s.resolvedPercent.oneDecimal
  "Summary:\n" ++
    s!"  Variables: {s.totalVariables}\n" ++
    s!"  Resolved: {s.resolvedCount} ({percent}%)\n" ++
    ifAny "Conflicted" s.conflictedCount ++
    ifAny "Unbound" s.unboundCount ++
    s!"  Passes: {s.passes}{note}\n"

namespace Report

def text (r : Report) : String :=
  let conflicts :=
    if r.conflicts.isEmpty then "All constraints satisfied.\n"
    else "Conflicts:\n----------\n\n" ++
      String.join (r.conflicts.zipIdx.map fun (c, i) => c.entry (i + 1))
  "Type Resolution Report\n======================\n\n" ++ r.summary.text ++ "\n" ++
    "Variables:\n----------\n" ++ String.join (r.vars.map VariableReport.text) ++ "\n" ++
    conflicts

end Report

/-! ## JSON -/

namespace ReportSummary

def toJson (s : ReportSummary) : Json :=
  .object [("total_variables", .nat s.totalVariables), ("resolved_count", .nat s.resolvedCount),
    ("conflicted_count", .nat s.conflictedCount), ("unbound_count", .nat s.unboundCount),
    ("passes", .nat s.passes), ("converged", .bool s.converged)]

def ofJson? (j : Json) : Option ReportSummary := do
  match ← j.parts? ["total_variables", "resolved_count", "conflicted_count", "unbound_count",
      "passes", "converged"] with
  | [some total, some resolved, some conflicted, some unbound, some passes, some converged] =>
      return {
        totalVariables := ← total.nat?
        resolvedCount := ← resolved.nat?
        conflictedCount := ← conflicted.nat?
        unboundCount := ← unbound.nat?
        passes := ← passes.nat?
        converged := ← converged.bool? }
  | _ => none

end ReportSummary

namespace VariableReport

def toJson (v : VariableReport) : Json :=
  .object [("owner", .string v.owner), ("declared", .string v.declared),
    ("value", .string v.value), ("state", .string v.state.tag)]

def ofJson? (j : Json) : Option VariableReport := do
  match ← j.parts? ["owner", "declared", "value", "state"] with
  | [some owner, some declared, some value, some state] =>
      return {
        owner := ← owner.string?
        declared := ← declared.string?
        value := ← value.string?
        state := ← VarState.ofTag? (← state.unitTag?) }
  | _ => none

end VariableReport

inductive ReportFormat where
  | text
  | json
  | compactJson
deriving DecidableEq, Repr

namespace Report

def toJson (r : Report) : Json :=
  .object [("summary", r.summary.toJson),
    ("variables", .array (r.vars.map VariableReport.toJson)),
    ("conflicts", .array (r.conflicts.map Conflict.toJson))]

def ofJson? (j : Json) : Option Report := do
  match ← j.parts? ["summary", "variables", "conflicts"] with
  | [some summary, some vars, some conflicts] =>
      return {
        summary := ← ReportSummary.ofJson? summary
        vars := ← (← vars.array?).mapM VariableReport.ofJson?
        conflicts := ← (← conflicts.array?).mapM Conflict.ofJson? }
  | _ => none

def write (r : Report) : ReportFormat → String
  | .text => r.text
  | .json => r.toJson.pretty
  | .compactJson => r.toJson.compact

end Report

end DataflowTypes
