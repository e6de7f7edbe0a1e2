import DataflowTypes.Number.Digits
import DataflowTypes.Toml.Value

/-!
# Scalars without quotes

Booleans, integers, floats and dates, each as the whole run of characters that
makes it up.
-/

namespace DataflowTypes.Toml

open Digits

/-! ## Digits -/

def splitUnderscores : List Char → List (List Char)
  | [] => [[]]
  | '_' :: cs => [] :: splitUnderscores cs
  | c :: cs =>
      match splitUnderscores cs with
      | part :: parts => (c :: part) :: parts
      | [] => [[c]]

def digits? (isDigit : Char → Bool) (cs : List Char) : Option (List Char) :=
  let parts := splitUnderscores cs
  if parts.all fun part => !part.isEmpty && part.all isDigit then some parts.flatten else none

def splitSign : List Char → Option Char × List Char
  | '+' :: cs => (some '+', cs)
  | '-' :: cs => (some '-', cs)
  | cs => (none, cs)

def decimal? (cs : List Char) : Option (List Char) := do
  let ds ← digits? Char.isDigit cs
  if ds.length = 1 || ds.head? != some '0' then some ds else none

/-! ## Numbers -/

def integer? (cs : List Char) : Option Int :=
  match cs with
  | '0' :: 'x' :: cs => (digits? isHexDigit cs).map fun ds => natOfDigits 16 ds
  | '0' :: 'o' :: cs => (digits? (fun c => '0' ≤ c && c ≤ '7') cs).map fun ds => natOfDigits 8 ds
  | '0' :: 'b' :: cs => (digits? (fun c => c == '0' || c == '1') cs).map fun ds => natOfDigits 2 ds
  | cs =>
      let (sign, body) := splitSign cs
      (decimal? body).map fun ds =>
        let n : Int := natOfDigits 10 ds
        if sign = some '-' then -n else n

/-- Whether `digits * 10 ^ exponent` rounds to a finite number of 64 bits: it has to be
below the middle between the greatest of them and the next power of two. -/
def isFinite (digits : Nat) (exponent : Int) : Bool :=
  let limit := Nat.pow 2 1024 - Nat.pow 2 970
  let magnitude : Int := (toString digits).length + exponent
  if digits = 0 || magnitude < 309 then true
  else if 309 < magnitude then false
  else if 0 ≤ exponent then digits * Nat.pow 10 exponent.toNat < limit
  else digits < limit * Nat.pow 10 (-exponent).toNat

def cutAt (p : Char → Bool) (cs : List Char) : List Char × Option (List Char) :=
  match cs.dropWhile (fun c => !p c) with
  | [] => (cs, none)
  | _ :: rest => (cs.takeWhile (fun c => !p c), some rest)

def float? (cs : List Char) : Option Bool := do
  let (_, body) := splitSign cs
  if body = ['i', 'n', 'f'] ∨ body = ['n', 'a', 'n'] then return true
  let (mantissa, exponent) := cutAt (fun c => c == 'e' || c == 'E') body
  let (whole, fraction) := cutAt (· == '.') mantissa
  if exponent.isNone && fraction.isNone then none
  let wholeDigits ← decimal? whole
  let fractionDigits ← match fraction with
    | none => some []
    | some f => digits? Char.isDigit f
  let shift : Int ← match exponent with
    | none => some 0
    | some e => do
        let (sign, ds) := splitSign e
        let n : Int := natOfDigits 10 (← digits? Char.isDigit ds)
        some (if sign = some '-' then -n else n)
  return isFinite (natOfDigits 10 (wholeDigits ++ fractionDigits)) (shift - fractionDigits.length)

/-! ## Dates and times -/

def twoDigits? (greatest : Nat) : List Char → Option (Nat × List Char)
  | a :: b :: cs =>
      let n := 10 * digitValue a + digitValue b
      if a.isDigit && b.isDigit && n ≤ greatest then some (n, cs) else none
  | _ => none

def daysInMonth (year month : Nat) : Nat :=
  if month = 2 then
    if year % 4 = 0 ∧ (year % 100 ≠ 0 ∨ year % 400 = 0) then 29 else 28
  else if month = 4 ∨ month = 6 ∨ month = 9 ∨ month = 11 then 30
  else 31

def date? (cs : List Char) : Option (List Char) := do
  let year := cs.take 4
  if year.length != 4 || !year.all Char.isDigit then none
  let '-' :: cs := cs.drop 4 | none
  let (month, cs) ← twoDigits? 12 cs
  let '-' :: cs := cs | none
  let (day, cs) ← twoDigits? 31 cs
  if 1 ≤ month && 1 ≤ day && day ≤ daysInMonth (natOfDigits 10 year) month then some cs else none

def secondFraction? : List Char → Option (List Char)
  | '.' :: c :: cs => if c.isDigit then some (cs.dropWhile Char.isDigit) else none
  | '.' :: [] => none
  | cs => some cs

/-- A time at the start, and the rest.  Seconds may be left out. -/
def time? (cs : List Char) : Option (List Char) := do
  let (_, cs) ← twoDigits? 23 cs
  let ':' :: cs := cs | none
  let (_, cs) ← twoDigits? 59 cs
  match cs with
  | ':' :: cs => do
      let (_, cs) ← twoDigits? 60 cs
      secondFraction? cs
  | cs => some cs

def isOffset : List Char → Bool
  | ['Z'] | ['z'] => true
  | c :: cs =>
      (c == '+' || c == '-') &&
        match twoDigits? 23 cs with
        | some (_, ':' :: cs) => (twoDigits? 59 cs).any (·.2.isEmpty)
        | _ => false
  | [] => false

/-- Whether the characters are a date, a time or both, with an offset only after both. -/
def isDatetime (cs : List Char) : Bool :=
  match date? cs with
  | some [] => true
  | some (c :: rest) =>
      (c == 'T' || c == 't' || c == ' ') &&
        (time? rest).any fun rest => rest.isEmpty || isOffset rest
  | none => (time? cs).any (·.isEmpty)

/-! ## Any of them -/

def scalar? (cs : List Char) : Option Value :=
  if cs = ['t', 'r', 'u', 'e'] then some (.boolean true)
  else if cs = ['f', 'a', 'l', 's', 'e'] then some (.boolean false)
  else match integer? cs with
    | some n => some (.integer n)
    | none =>
        match float? cs with
        | some inRange => some (.float inRange)
        | none => if isDatetime cs then some .datetime else none

end DataflowTypes.Toml
