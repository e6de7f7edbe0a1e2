import DataflowTypes.Number.Word

/-!
# JSON values

Values of the data format, their written form, and the conventions by which
records and tagged values are read from it.
-/

namespace DataflowTypes

inductive Json where
  | null
  | bool (b : Bool)
  | number (n : Int)
  /-- The number `mantissa * 10 ^ exponent`, written with a fraction or an exponent, or a
  zero with a minus sign; it does not count as an integer, whatever its value. -/
  | decimal (mantissa exponent : Int)
  | string (s : String)
  | array (items : List Json)
  | object (members : List (String × Json))
  deriving Inhabited

namespace Json

def nat (n : Nat) : Json := number n

def strings (ss : List String) : Json := array (ss.map string)

def optional {α : Type} (write : α → Json) : Option α → Json
  | none => null
  | some a => write a

mutual

def depth : Json → Nat
  | null | bool _ | number _ | decimal _ _ | string _ => 1
  | array items => 1 + itemsDepth items
  | object members => 1 + membersDepth members

def itemsDepth : List Json → Nat
  | [] => 0
  | j :: js => max j.depth (itemsDepth js)

def membersDepth : List (String × Json) → Nat
  | [] => 0
  | (_, j) :: js => max j.depth (membersDepth js)

end

/-! ## Written form -/

def hexDigit (n : Nat) : Char := (Nat.toDigits 16 n).headD '0'

def charText (c : Char) : String :=
  if c = '\x22' then "\\\""
  else if c = '\\' then "\\\\"
  else if c = '\n' then "\\n"
  else if c = '\r' then "\\r"
  else if c = '\t' then "\\t"
  else if c = '\x08' then "\\b"
  else if c = '\x0c' then "\\f"
  else if c.toNat < 0x20 then
    "\\u00" ++ String.ofList [hexDigit (c.toNat / 16), hexDigit (c.toNat % 16)]
  else c.toString

def stringText (s : String) : String := "\"" ++ String.join (s.toList.map charText) ++ "\""

def decimalText (mantissa exponent : Int) : String := toString mantissa ++ "e" ++ toString exponent

mutual

def compact : Json → String
  | null => "null"
  | bool b => if b then "true" else "false"
  | number n => toString n
  | decimal mantissa exponent => decimalText mantissa exponent
  | string s => stringText s
  | array items => "[" ++ String.intercalate "," (compactItems items) ++ "]"
  | object members => "\x7b" ++ String.intercalate "," (compactMembers members) ++ "\x7d"

def compactItems : List Json → List String
  | [] => []
  | j :: js => j.compact :: compactItems js

def compactMembers : List (String × Json) → List String
  | [] => []
  | (key, j) :: js => (stringText key ++ ":" ++ j.compact) :: compactMembers js

end

def block (opening closing : String) (level : Nat) (lines : List String) : String :=
  let indent (n : Nat) : String := "\n" ++ String.ofList (List.replicate (2 * n) ' ')
  if lines.isEmpty then opening ++ closing
  else
    opening ++ indent (level + 1) ++ String.intercalate ("," ++ indent (level + 1)) lines ++
      indent level ++ closing

mutual

/-- The text with each item and member on a line of its own, indented by two blanks
for each of the levels around it. -/
def prettyAt (level : Nat) : Json → String
  | null => "null"
  | bool b => if b then "true" else "false"
  | number n => toString n
  | decimal mantissa exponent => decimalText mantissa exponent
  | string s => stringText s
  | array items => block "[" "]" level (prettyItems (level + 1) items)
  | object members => block "\x7b" "\x7d" level (prettyMembers (level + 1) members)

def prettyItems (level : Nat) : List Json → List String
  | [] => []
  | j :: js => j.prettyAt level :: prettyItems level js

def prettyMembers (level : Nat) : List (String × Json) → List String
  | [] => []
  | (key, j) :: js => (stringText key ++ ": " ++ j.prettyAt level) :: prettyMembers level js

end

def pretty (j : Json) : String := j.prettyAt 0

/-! ## Reading -/

def string? : Json → Option String
  | string s => some s
  | _ => none

def bool? : Json → Option Bool
  | bool b => some b
  | _ => none

def array? : Json → Option (List Json)
  | array items => some items
  | _ => none

def object? : Json → Option (List (String × Json))
  | object members => some members
  | _ => none

/-- A whole number from zero to 2^64 - 1. -/
def nat? : Json → Option Nat
  | number n => if 0 ≤ n ∧ n < (wordLimit : Int) then some n.toNat else none
  | _ => none

def strings? (j : Json) : Option (List String) := do (← j.array?).mapM string?

/-- A value that may be missing or `null`. -/
def optional? {α : Type} (read : Json → Option α) : Option Json → Option (Option α)
  | none | some null => some none
  | some j => (read j).map some

/-- The parts of a record with the given keys: from an object, in which others are
ignored, or from a list of exactly these parts. -/
def parts? (keys : List String) : Json → Option (List (Option Json))
  | object members => some (keys.map fun key => members.lookup key)
  | array items => if items.length = keys.length then some (items.map some) else none
  | _ => none

def unitTag? : Json → Option String
  | string tag => some tag
  | object [(tag, null)] => some tag
  | _ => none

def tagged? : Json → Option (String × Json)
  | object [(tag, content)] => some (tag, content)
  | _ => none

end Json

end DataflowTypes
