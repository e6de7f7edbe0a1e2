import DataflowTypes.Json.Basic
import DataflowTypes.Text.Scanner

/-!
# Reading JSON

A reader for the whole format.  Whether a number was written as an integer is
kept, because lengths and counts have to be.
-/

namespace DataflowTypes.Json

open Text (Scanner)
open Text.Scanner

namespace Reader

def isBlank (c : Char) : Bool := c == ' ' || c == '\t' || c == '\n' || c == '\r'

def blanks : Scanner Unit := discard (takeWhile isBlank)

/-! ## Numbers -/

def digits : Scanner (List Char) := do
  let ds ← takeWhile Char.isDigit
  if ds.isEmpty then failure else return ds

def fraction : Scanner (Option (List Char)) := do
  if ← accept ['.'] then return some (← digits) else return none

def exponent : Scanner (Option Int) := do
  if (← get).head?.any fun c => c == 'e' || c == 'E' then
    discard next
    let negative ← accept ['-']
    unless negative do discard (accept ['+'])
    let n : Int := Digits.natOfDigits 10 (← digits)
    return some (if negative then -n else n)
  else return none

/-- A number; only a lone zero may begin with a zero. -/
def number : Scanner Json := do
  let negative ← accept ['-']
  let whole ← digits
  if whole.head? == some '0' && whole.length != 1 then failure
  let places ← fraction
  let shift ← exponent
  let n : Int := Digits.natOfDigits 10 (whole ++ places.getD [])
  let mantissa := if negative then -n else n
  if places.isNone && shift.isNone && !(negative && n == 0) then return .number mantissa
  else return .decimal mantissa (shift.getD 0 - (places.getD []).length)

/-! ## Strings -/

/-- The character of four digits, or of two surrogates with four digits each. -/
def codePoint : Scanner Char := do
  let high ← hexNumber 4
  if high < 0xd800 ∨ 0xdfff < high then return Char.ofNat high
  else if 0xdbff < high then failure
  else
    expect ['\\', 'u']
    let low ← hexNumber 4
    if 0xdc00 ≤ low ∧ low ≤ 0xdfff then
      return Char.ofNat (0x10000 + (high - 0xd800) * 0x400 + (low - 0xdc00))
    else failure

def escaped : Scanner Char := do
  match ← next with
  | '\x22' => return '\x22'
  | '\\' => return '\\'
  | '/' => return '/'
  | 'b' => return '\x08'
  | 'f' => return '\x0c'
  | 'n' => return '\n'
  | 'r' => return '\r'
  | 't' => return '\t'
  | 'u' => codePoint
  | _ => failure

def isPlain (c : Char) : Bool := 0x20 ≤ c.toNat && c != '\x22' && c != '\\'

/-- What follows the opening quote of a string; `fuel` bounds the number of escapes. -/
def stringRest : (fuel : Nat) → Scanner (List Char)
  | 0 => failure
  | fuel + 1 => do
      let plain ← takeWhile isPlain
      if ← accept ['\x22'] then return plain
      else
        expect ['\\']
        let c ← escaped
        return plain ++ c :: (← stringRest fuel)

def string (fuel : Nat) : Scanner String := do
  expect ['\x22']
  return String.ofList (← stringRest fuel)

/-! ## Values -/

def literal (word : List Char) (j : Json) : Scanner Json := do
  expect word
  return j

mutual

/-- A value; `fuel` bounds the number of values and escapes in it. -/
def value : (fuel : Nat) → Scanner Json
  | 0 => failure
  | fuel + 1 => do
      blanks
      match (← get).head? with
      | some '\x22' => return .string (← string fuel)
      | some '[' =>
          expect ['[']
          blanks
          if ← accept [']'] then return .array [] else return .array (← items fuel)
      | some '{' =>
          expect ['{']
          blanks
          if ← accept ['}'] then return .object [] else return .object (← members fuel)
      | some 'n' => literal ['n', 'u', 'l', 'l'] .null
      | some 't' => literal ['t', 'r', 'u', 'e'] (.bool true)
      | some 'f' => literal ['f', 'a', 'l', 's', 'e'] (.bool false)
      | _ => number

def items : (fuel : Nat) → Scanner (List Json)
  | 0 => failure
  | fuel + 1 => do
      let j ← value fuel
      blanks
      if ← accept [','] then return j :: (← items fuel)
      else
        expect [']']
        return [j]

def members : (fuel : Nat) → Scanner (List (String × Json))
  | 0 => failure
  | fuel + 1 => do
      blanks
      let key ← string fuel
      blanks
      expect [':']
      let j ← value fuel
      blanks
      if ← accept [','] then return (key, j) :: (← members fuel)
      else
        expect ['}']
        return [(key, j)]

end

end Reader

def read? (source : String) : Option Json := do
  let cs := source.toList
  let (j, rest) ← (Reader.value (2 * cs.length + 2)).run cs
  if rest.all Reader.isBlank then some j else none

end DataflowTypes.Json
