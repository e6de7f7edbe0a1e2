import DataflowTypes.Text.Hidden

/-!
# Quoted text

A text between double quotes.  Quotes, backslashes and the common controls have
short escapes; any other character without a visible form is written by its
code point.
-/

namespace DataflowTypes.Text

def hexDigits (n : Nat) : String := String.ofList (Nat.toDigits 16 n)

def quoteChar (c : Char) : String :=
  if c = '\x22' then "\\\""
  else if c = '\\' then "\\\\"
  else if c = '\n' then "\\n"
  else if c = '\r' then "\\r"
  else if c = '\t' then "\\t"
  else if c = '\x00' then "\\0"
  else if isHidden c then "\\u\x7b" ++ hexDigits c.toNat ++ "\x7d"
  else c.toString

def quote (s : String) : String :=
  "\"" ++ String.join (s.toList.map quoteChar) ++ "\""

def bracketed (items : List String) : String :=
  "[" ++ String.intercalate ", " items ++ "]"

def structured (name : String) (parts : List (String × String)) (more : Bool) : String :=
  let shown := parts.map fun (key, value) => key ++ ": " ++ value
  let all := if more then shown ++ [".."] else shown
  name ++ " \x7b " ++ String.intercalate ", " all ++ " \x7d"

end DataflowTypes.Text
