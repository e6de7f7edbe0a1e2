import DataflowTypes.Order.Comparison

/-!
# Extreme elements and bounds of lists

Written over a monad, because a comparison may consult and extend a memo table.
-/

namespace DataflowTypes.Extremes

variable {m : Type → Type} [Monad m] {α : Type}

def holdsForAll (test : α → m Bool) : List α → m Bool
  | [] => pure true
  | x :: xs => do if ← test x then holdsForAll test xs else pure false

def firstThat (test : α → m Bool) : List α → m (Option α)
  | [] => pure none
  | x :: xs => do if ← test x then pure (some x) else firstThat test xs

def least? (compare : α → α → m Comparison) (xs : List α) : m (Option α) :=
  firstThat (fun c => holdsForAll (fun x => return (← compare c x).isAtMost) xs) xs

def greatest? (compare : α → α → m Comparison) (xs : List α) : m (Option α) :=
  firstThat (fun c => holdsForAll (fun x => return (← compare c x).isAtLeast) xs) xs

/-- Combines a list from the left; `start` stands for the empty list. -/
def boundOf (bound : α → α → m α) (start : α) : List α → m α
  | [] => pure start
  | x :: xs => xs.foldlM bound x

end DataflowTypes.Extremes
