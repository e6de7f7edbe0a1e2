import DataflowTypes.Order.Digraph
import DataflowTypes.Order.Extremes

/-!
# Finite partial orders

The order generated by an acyclic graph: `a` is at most `b` if there is a path
from `a` to `b`.  It is kept as the list of nodes above each node.  A node that
is not in the order is comparable with none, and has no bounds.
-/

namespace DataflowTypes

/-- `ranked` lists the nodes with lower ones first; `upper` gives the nodes at or above
each node. -/
structure FinOrder (α : Type) where
  nodes : List α
  ranked : List α
  upper : List (α × List α)
deriving Repr

namespace FinOrder

variable {α : Type} [DecidableEq α]

def lookUpper (upper : List (α × List α)) (a : α) : List α := (upper.lookup a).getD []

/-- Extends a table that covers all successors of `a` by the nodes above `a`. -/
def extendUpper (g : Digraph α) (a : α) (upper : List (α × List α)) : List (α × List α) :=
  let rows := (g.successors a).map (lookUpper upper)
  let above := g.nodes.filter fun b => a == b || rows.any fun row => row.contains b
  (a, above) :: upper

def ofDigraph (g : Digraph α) : Except (GraphError α) (FinOrder α) := do
  let ranked ← g.topological
  return { nodes := g.nodes, ranked, upper := ranked.foldr (extendUpper g) [] }

def contains (p : FinOrder α) (a : α) : Bool := a ∈ p.nodes

def above (p : FinOrder α) (a : α) : List α := lookUpper p.upper a

def le (p : FinOrder α) (a b : α) : Bool := (p.above a).contains b

def compare (p : FinOrder α) (a b : α) : Comparison := .ofBounds (p.le a b) (p.le b a)

def rank? (p : FinOrder α) (a : α) : Option Nat := p.ranked.idxOf? a

def bottom? (p : FinOrder α) : Option α := p.nodes.find? fun a => p.nodes.all fun b => p.le a b

def top? (p : FinOrder α) : Option α := p.nodes.find? fun b => p.nodes.all fun a => p.le a b

def upSet (p : FinOrder α) (a : α) : List α := p.ranked.filter fun b => p.le a b

def downSet (p : FinOrder α) (b : α) : List α := p.ranked.filter fun a => p.le a b

/-- A list with lower nodes first; nodes of equal rank keep their places, and those not
in the order come last. -/
def sortAscending (p : FinOrder α) (xs : List α) : List α :=
  let key (a : α) : Nat := (p.rank? a).getD p.ranked.length
  xs.mergeSort fun a b => key a ≤ key b

def joinOf? (p : FinOrder α) (xs : List α) : Option α :=
  if xs.all p.contains then
    let rows := xs.map p.above
    let bounds := p.nodes.filter fun u => rows.all fun row => row.contains u
    bounds.find? fun c =>
      let row := p.above c
      bounds.all fun u => row.contains u
  else none

def meetOf? (p : FinOrder α) (xs : List α) : Option α :=
  if xs.all p.contains then
    let bounds := p.upper.filter fun (_, row) => xs.all fun x => row.contains x
    (bounds.find? fun (c, _) => bounds.all fun (_, row) => row.contains c).map (·.1)
  else none

def join? (p : FinOrder α) (a b : α) : Option α := p.joinOf? [a, b]

def meet? (p : FinOrder α) (a b : α) : Option α := p.meetOf? [a, b]

/-- Whether each member of a list passes a test with itself and with all later ones. -/
def eachWithLater (test : α → α → Bool) : List α → Bool
  | [] => true
  | a :: later => (a :: later).all (test a) && eachWithLater test later

def isLattice (p : FinOrder α) : Bool :=
  eachWithLater (fun a b => (p.join? a b).isSome && (p.meet? a b).isSome) p.nodes

def least? (p : FinOrder α) (xs : List α) : Option α :=
  Id.run (Extremes.least? (fun a b => pure (p.compare a b)) xs)

def greatest? (p : FinOrder α) (xs : List α) : Option α :=
  Id.run (Extremes.greatest? (fun a b => pure (p.compare a b)) xs)

end FinOrder

end DataflowTypes
