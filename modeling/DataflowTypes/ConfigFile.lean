import DataflowTypes.Config
import DataflowTypes.Error
import DataflowTypes.Toml.Document

/-!
# Settings from a TOML document

Every key is optional and other keys are ignored, but the whole document has to
be readable.
-/

namespace DataflowTypes.Config

open Toml

def passesOfToml? : Value → Option Nat
  | .integer n => if 0 ≤ n ∧ n < (wordLimit : Int) then some n.toNat else none
  | _ => none

def flagOfToml? : Value → Option Bool
  | .boolean b => some b
  | _ => none

/-- A mode is given by its name, or by a table whose only key is the name, with nothing
in it. -/
def modeOfToml? : Value → Option SolveMode
  | .string s => SolveMode.ofName? s
  | .table _ [(name, .table _ [])] | .table _ [(name, .array [])] => SolveMode.ofName? name
  | _ => none

def putEntry (c : Config) : String × Value → Option Config
  | ("max_passes", v) => return { c with maxPasses := ← passesOfToml? v }
  | ("check_acceptability", v) => return { c with checkAcceptability := ← flagOfToml? v }
  | ("cache_comparisons", v) => return { c with cacheComparisons := ← flagOfToml? v }
  | ("mode", v) => return { c with mode := ← modeOfToml? v }
  | (_, v) => if v.inRange then some c else none

def ofToml (source : String) : Except TypeError Config :=
  match (read? source).bind fun entries => entries.foldlM putEntry {} with
  | none => .error (.config .badToml)
  | some c => if c.maxPasses = 0 then .error (.config .noPasses) else .ok c

end DataflowTypes.Config
