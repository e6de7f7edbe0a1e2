/-!
# Digits
-/

namespace DataflowTypes.Digits

def isHexDigit (c : Char) : Bool :=
  c.isDigit || ('a' ≤ c && c ≤ 'f') || ('A' ≤ c && c ≤ 'F')

def digitValue (c : Char) : Nat :=
  if c.isDigit then c.toNat - '0'.toNat
  else if 'a' ≤ c && c ≤ 'f' then c.toNat - 'a'.toNat + 10
  else c.toNat - 'A'.toNat + 10

def natOfDigits (radix : Nat) (cs : List Char) : Nat :=
  cs.foldl (fun n c => radix * n + digitValue c) 0

end DataflowTypes.Digits
