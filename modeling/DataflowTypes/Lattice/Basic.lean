import DataflowTypes.Lattice.Bounds
import DataflowTypes.Lattice.Cache

/-!
# Lattices of types

A lattice of types is a way to compare them in a monad.  `Lattice.plain` computes
each comparison anew; `Lattice.memoized` looks it up in a memo table first, if
there is one, and enters what it computes.
-/

namespace DataflowTypes

structure Lattice (m : Type → Type) where
  compare : Ty → Ty → m Comparison

namespace Lattice

section

variable {m : Type → Type} [Monad m] (L : Lattice m)

/-- Whether `source` can be converted into `target` without loss. -/
def isCompatible (target source : Ty) : m Bool := return (← L.compare source target).isAtMost

/-- The greatest lower bound. -/
def meet (a b : Ty) : m Ty := Ty.meetWith L.compare a b

def join (a b : Ty) : m Ty := Ty.joinWith L.compare a b

/-- The least upper bound of a list, found from `unknown` on. -/
def joinAll (ts : List Ty) : m Ty := ts.foldlM L.join .unknown

/-- The greatest lower bound of a list, found from `general` on. -/
def meetAll (ts : List Ty) : m Ty := ts.foldlM L.meet .general

/-- The least upper bound of a list, found from its first type on. -/
def joinOf (ts : List Ty) : m Ty := Extremes.boundOf L.join .unknown ts

/-- The greatest lower bound of a list, found from its first type on. -/
def meetOf (ts : List Ty) : m Ty := Extremes.boundOf L.meet .general ts

def least? (ts : List Ty) : m (Option Ty) := Extremes.least? L.compare ts

def greatest? (ts : List Ty) : m (Option Ty) := Extremes.greatest? L.compare ts

/-! ## The rules of the families

Two types of one family can be given to its rule right away.  Their components are
compared and bounded as usual. -/

def familyCompare? : Ty → Ty → Option (m Comparison)
  | .array _ x _ n, .array _ y _ k => some (Rules.compareArrays n k (L.compare x y))
  | .record ls _ x, .record ls' _ y =>
      some (Rules.compareRecords (a := ls) (b := ls') fun l h => L.compare (x l) (y ⟨l.1, h⟩))
  | .union ls _ x, .union ls' _ y =>
      some (Rules.compareUnions (a := ls) (b := ls') fun l h => L.compare (x l) (y ⟨l.1, h⟩))
  | .function n _ x _ r, .function k _ y _ s =>
      some (if h : n = k then
        Rules.compareFunctions (fun i => L.compare (x i) (y (i.cast h))) (L.compare r s)
      else pure .incomparable)
  | .object c, .object c' => some (pure (c.compare c'))
  | _, _ => none

def familyMeet? : Ty → Ty → Option (m Ty)
  | .array _ x _ n, .array _ y _ k => some (Rules.meetArrays n k (L.meet x y))
  | .record _ _ x, .record _ _ y => some do
      return .ofFields (← Rules.unitedRow x y fun l h => L.meet (x l) (y ⟨l.1, h⟩))
  | .union ls _ x, .union ls' _ y => some do
      return .ofAlternatives (← Rules.sharedRow (a := ls) (b := ls') fun l h =>
        L.meet (x l) (y ⟨l.1, h⟩))
  | .function n _ x _ r, .function k _ y _ s =>
      some (if h : n = k then
        Rules.combineFunctions (fun i => L.meet (x i) (y (i.cast h))) (L.meet r s)
      else pure .unknown)
  | .object c, .object c' => some (pure (.object (c.meet c')))
  | _, _ => none

def familyJoin? : Ty → Ty → Option (m Ty)
  | .array _ x _ n, .array _ y _ k => some (Rules.joinArrays n k (L.join x y))
  | .record ls _ x, .record ls' _ y => some do
      return .ofFields (← Rules.sharedRow (a := ls) (b := ls') fun l h =>
        L.join (x l) (y ⟨l.1, h⟩))
  | .union _ _ x, .union _ _ y => some do
      return .ofAlternatives (← Rules.unitedRow x y fun l h => L.join (x l) (y ⟨l.1, h⟩))
  | .function n _ x _ r, .function k _ y _ s =>
      some (if h : n = k then
        Rules.combineFunctions (fun i => L.join (x i) (y (i.cast h))) (L.join r s)
      else pure .general)
  | .object c, .object c' => some (pure (.object (c.join c')))
  | _, _ => none

end

/-! ## Without a memo table -/

def plain : Lattice Id where
  compare := Ty.compareWith fun _ _ outcome => outcome

/-! ## With a memo table -/

abbrev Memo := StateM (Option Cache)

def lookUp (a b : Ty) (outcome : Memo Comparison) : Memo Comparison := do
  match ← get with
  | none => outcome
  | some cache =>
      match cache.get? a b with
      | some o => return o
      | none =>
          let o ← outcome
          modify (·.map (·.insert a b o))
          return o

def memoized : Lattice Memo where
  compare := Ty.compareWith lookUp

end Lattice

namespace Ty

def compare (a b : Ty) : Comparison := Id.run (Lattice.plain.compare a b)

def meet (a b : Ty) : Ty := Id.run (Lattice.plain.meet a b)

def join (a b : Ty) : Ty := Id.run (Lattice.plain.join a b)

/-! ## The rules of the families on their own -/

def familyCompare? (a b : Ty) : Option Comparison :=
  (Lattice.plain.familyCompare? a b).map Id.run

def familyMeet? (a b : Ty) : Option Ty := (Lattice.plain.familyMeet? a b).map Id.run

def familyJoin? (a b : Ty) : Option Ty := (Lattice.plain.familyJoin? a b).map Id.run

end Ty

end DataflowTypes
