import DataflowTypes.Ty.Basic

/-!
# The textual form of types

Labels are written in increasing order and parameters are numbered, so that
types that denote the same have the same text.
-/

namespace DataflowTypes.Ty

def fieldsText (opening closing : String) (fields : List (String × String)) : String :=
  opening ++ String.intercalate ", " (fields.map fun (label, type) => label ++ " = " ++ type) ++
    closing

def classText : ObjectClass → String
  | .unconstrained => "object"
  | .impossible => "object()"
  | .named path => "object(" ++ String.intercalate "/" path ++ ")"

/-- The text of a type; only what it denotes now is shown. -/
def text : Ty → String
  | base b => b.name
  | matrix k => k.name
  | array _ r _ none => "\x7b" ++ r.text ++ "\x7d"
  | array _ r _ (some n) => "arrayType(" ++ r.text ++ "," ++ toString n ++ ")"
  | record ls _ r => fieldsText "\x7b" "\x7d" (ls.members.map fun m => (m.1, (r m).text))
  | union ls _ r => fieldsText "\x7b|" "|\x7d" (ls.members.map fun m => (m.1, (r m).text))
  | function n _ r _ s =>
      let params := (List.finRange n).map fun i => "a" ++ toString i.1 ++ ":" ++ (r i).text
      "(function(" ++ String.intercalate ", " params ++ ") " ++ s.text ++ ")"
  | object c => classText c

end DataflowTypes.Ty
