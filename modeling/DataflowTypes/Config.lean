import DataflowTypes.Json.Basic

/-!
# Settings of the solver
-/

namespace DataflowTypes

inductive SolveMode where
  | least
  | greatest
deriving DecidableEq, Repr

namespace SolveMode

def name : SolveMode → String
  | least => "least"
  | greatest => "greatest"

def ofName? (name : String) : Option SolveMode := [least, greatest].find? (·.name == name)

end SolveMode

structure Config where
  /-- The number of passes after which variables that still change are given up. -/
  maxPasses : Nat := 100
  /-- Whether variables that end in an abstract type are reported. -/
  checkAcceptability : Bool := true
  cacheComparisons : Bool := true
  mode : SolveMode := .least
deriving DecidableEq, Repr, Inhabited

namespace Config

def toJson (c : Config) : Json :=
  .object [("max_passes", .nat c.maxPasses),
    ("check_acceptability", .bool c.checkAcceptability),
    ("cache_comparisons", .bool c.cacheComparisons),
    ("mode", .string c.mode.name)]

def partOr {α : Type} (default : α) (read : Json → Option α) : Option Json → Option α
  | none => some default
  | some j => read j

/-- Settings from an object with any of the keys, or from a list of the first parts. -/
def ofJson? (j : Json) : Option Config := do
  let keys := ["max_passes", "check_acceptability", "cache_comparisons", "mode"]
  let parts ← match j with
    | .object members => some (keys.map fun key => members.lookup key)
    | .array items => if items.length ≤ keys.length then some (items.map some) else none
    | _ => none
  let part (i : Nat) : Option Json := (parts[i]?).join
  let c : Config := {}
  return {
    maxPasses := ← partOr c.maxPasses Json.nat? (part 0)
    checkAcceptability := ← partOr c.checkAcceptability Json.bool? (part 1)
    cacheComparisons := ← partOr c.cacheComparisons Json.bool? (part 2)
    mode := ← partOr c.mode (fun j => j.unitTag?.bind SolveMode.ofName?) (part 3) }

end Config

end DataflowTypes
