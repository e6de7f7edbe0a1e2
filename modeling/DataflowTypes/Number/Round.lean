/-!
# Rounding

Quotients rounded to the nearest whole number, and positive numbers in binary
floating point with 53 significant bits.  Ties go to the even neighbour.
-/

namespace DataflowTypes

/-- The whole number nearest to `num / den`; of two, the even one. -/
def roundQuotient (num den : Nat) : Nat :=
  let q := num / den
  let twice := 2 * (num % den)
  if twice < den then q
  else if den < twice then q + 1
  else if q % 2 = 0 then q else q + 1

structure Binary where
  mantissa : Nat
  exponent : Int
deriving DecidableEq, Repr

namespace Binary

def precision : Nat := 53

def toQuotient (x : Binary) : Nat × Nat :=
  match x.exponent with
  | .ofNat e => (x.mantissa * Nat.pow 2 e, 1)
  | .negSucc e => (x.mantissa, Nat.pow 2 (e + 1))

/-- The number nearest to `num / den` with 53 significant bits.  The exponent is chosen
such that the mantissa has 53 bits, so that one rounding gives the result. -/
def ofQuotient (num den : Nat) : Binary :=
  if num = 0 ∨ den = 0 then ⟨0, 0⟩
  else
    let guess : Int := (Nat.log2 num : Int) - (Nat.log2 den : Int) - (precision : Int)
    let scaled (e : Int) : Nat × Nat :=
      if 0 ≤ e then (num, den * Nat.pow 2 e.toNat) else (num * Nat.pow 2 (-e).toNat, den)
    let fits (e : Int) : Bool := (scaled e).1 / (scaled e).2 < Nat.pow 2 precision
    let e := if fits guess then guess else guess + 1
    ⟨roundQuotient (scaled e).1 (scaled e).2, e⟩

def ofNat (n : Nat) : Binary := ofQuotient n 1

def div (x y : Binary) : Binary :=
  let (a, b) := x.toQuotient
  let (c, d) := y.toQuotient
  ofQuotient (a * d) (b * c)

def mul (x y : Binary) : Binary :=
  let (a, b) := x.toQuotient
  let (c, d) := y.toQuotient
  ofQuotient (a * c) (b * d)

def oneDecimal (x : Binary) : String :=
  let (a, b) := x.toQuotient
  let tenths := roundQuotient (10 * a) b
  toString (tenths / 10) ++ "." ++ toString (tenths % 10)

end Binary

end DataflowTypes
