import DataflowTypes.Lattice.Basic

/-!
# Inquiries

A computation that asks how types compare, as a tree of questions.  It does not
say how the answers are found, so it can be carried out with any lattice of types.
-/

namespace DataflowTypes

inductive Inquiry (α : Type) where
  | done (a : α)
  | ask (a b : Ty) (next : Comparison → Inquiry α)

namespace Inquiry

variable {α β : Type}

protected def bind : Inquiry α → (α → Inquiry β) → Inquiry β
  | done a, f => f a
  | ask a b next, f => ask a b fun o => (next o).bind f

instance : Monad Inquiry where
  pure := done
  bind := Inquiry.bind

def lattice : Lattice Inquiry where
  compare a b := ask a b done

def run {m : Type → Type} [Monad m] (L : Lattice m) : Inquiry α → m α
  | done a => pure a
  | ask a b next => do
      let o ← L.compare a b
      (next o).run L

end Inquiry

end DataflowTypes
