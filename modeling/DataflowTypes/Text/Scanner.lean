import DataflowTypes.Number.Digits

/-!
# Scanners
-/

namespace DataflowTypes.Text

abbrev Scanner := StateT (List Char) Option

namespace Scanner

def sees (cs : List Char) : Scanner Bool := return cs.isPrefixOf (← get)

def accept (cs : List Char) : Scanner Bool := do
  if ← sees cs then
    modify (·.drop cs.length)
    return true
  else
    return false

def expect (cs : List Char) : Scanner Unit := do unless ← accept cs do failure

def takeWhile (p : Char → Bool) : Scanner (List Char) := do
  let cs ← get
  set (cs.dropWhile p)
  return cs.takeWhile p

def next : Scanner Char := do
  match ← get with
  | c :: cs =>
      set cs
      return c
  | [] => failure

def hexNumber (count : Nat) : Scanner Nat := do
  let cs ← get
  let ds := cs.take count
  if ds.length = count ∧ ds.all Digits.isHexDigit = true then
    set (cs.drop count)
    return Digits.natOfDigits 16 ds
  else failure

end Scanner

end DataflowTypes.Text
