import DataflowTypes.Expr.Error
import DataflowTypes.Ty.Text

/-!
# Errors

What can go wrong when types are built, refined or resolved.  A conflict that a
resolution finds is not an error; it is part of the resolution.
-/

namespace DataflowTypes

structure VarId where
  index : Nat
deriving DecidableEq, Repr

namespace VarId

def text (v : VarId) : String := "v" ++ toString v.index

end VarId

inductive ConfigError where
  | badToml
  | noPasses
deriving DecidableEq, Repr

inductive TypeError where
  | malformedOperand (detail : String)
  | unknownVariable (v : VarId)
  | notInstance (target candidate : Ty)
  | constantType (type candidate : Ty)
  | duplicateLabel (label : String)
  | unknownTypeName (name : String)
  | parse (e : ParseError)
  | config (e : ConfigError)

namespace ConfigError

def message : ConfigError → String
  | badToml => "not a valid settings document"
  | noPasses => "max_passes must be at least 1"

end ConfigError

namespace TypeError

def message : TypeError → String
  | malformedOperand detail => "malformed operand: " ++ detail
  | unknownVariable v => "unknown type variable " ++ v.text
  | notInstance target candidate =>
      "cannot update " ++ target.text ++ " to " ++ candidate.text ++
        ": not a substitution instance"
  | constantType type candidate =>
      "type " ++ type.text ++ " is constant and cannot be changed to " ++ candidate.text
  | duplicateLabel label => "duplicate label '" ++ label ++ "'"
  | unknownTypeName name => "unknown type name '" ++ name ++ "'"
  | parse e => e.message
  | config e => "invalid configuration: " ++ e.message

/-- Whether the error is one that ends a resolution. -/
def isMalformedOperand : TypeError → Bool
  | malformedOperand _ | unknownVariable _ => true
  | _ => false

end TypeError

end DataflowTypes
