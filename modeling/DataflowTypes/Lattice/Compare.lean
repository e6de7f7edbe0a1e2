import DataflowTypes.Lattice.BaseOrder
import DataflowTypes.Lattice.Rules

/-!
# The order of types

Types of one family are compared by the rule of the family.  A type that is not
an array is below an array if it is at most the element and the array can have
one element.  All other pairs are compared through the base order.

`compareWith` is written over a monad and a hook `memo`, through which every
comparison of two different types passes of which one is structured.  With the
hook that does nothing it is the order itself.
-/

namespace DataflowTypes

variable {m : Type → Type} [Monad m]

namespace Ty

def compareNodes (a b : Ty) : Comparison := BaseOrder.order.compare a.node b.node

def compareWith (memo : Ty → Ty → m Comparison → m Comparison) (a b : Ty) : m Comparison :=
  if a == b then pure .same
  else if !a.isStructured && !b.isStructured then pure (compareNodes a b)
  else memo a b <|
    match a, b with
    | array _ x _ n, array _ y _ k => Rules.compareArrays n k (compareWith memo x y)
    | record ls _ x, record ls' _ y =>
        Rules.compareRecords (b := ls') fun l h => compareWith memo (x l) (y ⟨l.1, h⟩)
    | union ls _ x, union ls' _ y =>
        Rules.compareUnions (b := ls') fun l h => compareWith memo (x l) (y ⟨l.1, h⟩)
    | function n _ x _ r, function k _ y _ s =>
        if h : n = k then
          Rules.compareFunctions (fun i => compareWith memo (x i) (y (i.cast h)))
            (compareWith memo r s)
        else pure .incomparable
    | object c, object c' => pure (c.compare c')
    | s, array d y dl k =>
        if s.isBound then pure (compareNodes s (array d y dl k))
        else if Length.acceptsScalar k then do
          if (← compareWith memo s y).isAtMost then pure .lower else pure .incomparable
        else pure .incomparable
    | array d x dl n, s =>
        if s.isBound then pure (compareNodes (array d x dl n) s)
        else if Length.acceptsScalar n then do
          if (← compareWith memo s x).isAtMost then pure .higher else pure .incomparable
        else pure .incomparable
    | a, b => pure (compareNodes a b)
termination_by a.depth + b.depth
decreasing_by
  · exact Nat.add_lt_add (depth_element_lt ..) (depth_element_lt ..)
  · exact Nat.add_lt_add (depth_field_lt ..) (depth_field_lt ..)
  · exact Nat.add_lt_add (depth_alternative_lt ..) (depth_alternative_lt ..)
  · exact Nat.add_lt_add (depth_param_lt ..) (depth_param_lt ..)
  · exact Nat.add_lt_add (depth_result_lt ..) (depth_result_lt ..)
  · exact Nat.add_lt_add_left (depth_element_lt ..) _
  · rw [Nat.add_comm]
    exact Nat.add_lt_add_right (depth_element_lt ..) _

theorem compareWith_of_beq (memo : Ty → Ty → m Comparison → m Comparison) {a b : Ty}
    (h : (a == b) = true) : compareWith memo a b = pure .same := by
  rw [compareWith.eq_def, if_pos h]

end Ty

end DataflowTypes
