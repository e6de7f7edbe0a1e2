import DataflowTypes.Lattice.Compare

/-!
# Bounds of types

The greatest lower and the least upper bound of two types, over a monad in which
types are compared.  Of two comparable types one is the bound; otherwise the rule
of the family, of widening into an array, or of the base order gives it.
-/

namespace DataflowTypes

variable {m : Type → Type} [Monad m]

namespace Ty

def meetWith (compare : Ty → Ty → m Comparison) (a b : Ty) : m Ty := do
  match ← compare a b with
  | .lower | .same => pure a
  | .higher => pure b
  | .incomparable =>
    match a, b with
    | array _ x _ n, array _ y _ k => Rules.meetArrays n k (meetWith compare x y)
    | record ls _ x, record ls' _ y =>
        return ofFields (← Rules.unitedRow (b := ls') x y fun l h =>
          meetWith compare (x l) (y ⟨l.1, h⟩))
    | union ls _ x, union ls' _ y =>
        return ofAlternatives (← Rules.sharedRow (b := ls') fun l h =>
          meetWith compare (x l) (y ⟨l.1, h⟩))
    | function n _ x _ r, function k _ y _ s =>
        if h : n = k then
          Rules.combineFunctions (fun i => meetWith compare (x i) (y (i.cast h)))
            (meetWith compare r s)
        else pure unknown
    | object c, object c' => pure (object (c.meet c'))
    | s, array _ y _ k =>
        if Length.acceptsScalar k then meetWith compare s y else pure unknown
    | array _ x _ n, s =>
        if Length.acceptsScalar n then meetWith compare s x else pure unknown
    | a, b => pure (ofNode (BaseOrder.meet BaseOrder.order a.node b.node))
termination_by a.depth + b.depth
decreasing_by
  · exact Nat.add_lt_add (depth_element_lt ..) (depth_element_lt ..)
  · exact Nat.add_lt_add (depth_field_lt ..) (depth_field_lt ..)
  · exact Nat.add_lt_add (depth_alternative_lt ..) (depth_alternative_lt ..)
  · exact Nat.add_lt_add (depth_param_lt ..) (depth_param_lt ..)
  · exact Nat.add_lt_add (depth_result_lt ..) (depth_result_lt ..)
  · exact Nat.add_lt_add_left (depth_element_lt ..) _
  · rw [Nat.add_comm]
    exact Nat.add_lt_add_right (depth_element_lt ..) _

/-- The length of the array into which a single value and an array both widen. -/
def widenedLength (length : Option Nat) : Option Nat := if length = some 1 then some 1 else none

def joinWith (compare : Ty → Ty → m Comparison) (a b : Ty) : m Ty := do
  match ← compare a b with
  | .lower | .same => pure b
  | .higher => pure a
  | .incomparable =>
    match a, b with
    | array _ x _ n, array _ y _ k => Rules.joinArrays n k (joinWith compare x y)
    | record ls _ x, record ls' _ y =>
        return ofFields (← Rules.sharedRow (b := ls') fun l h =>
          joinWith compare (x l) (y ⟨l.1, h⟩))
    | union ls _ x, union ls' _ y =>
        return ofAlternatives (← Rules.unitedRow (b := ls') x y fun l h =>
          joinWith compare (x l) (y ⟨l.1, h⟩))
    | function n _ x _ r, function k _ y _ s =>
        if h : n = k then
          Rules.combineFunctions (fun i => joinWith compare (x i) (y (i.cast h)))
            (joinWith compare r s)
        else pure general
    | object c, object c' => pure (object (c.join c'))
    | s, array _ y _ k => return arrayOf (← joinWith compare s y) (widenedLength k)
    | array _ x _ n, s => return arrayOf (← joinWith compare s x) (widenedLength n)
    | a, b => pure (ofNode (BaseOrder.join BaseOrder.order a.node b.node))
termination_by a.depth + b.depth
decreasing_by
  · exact Nat.add_lt_add (depth_element_lt ..) (depth_element_lt ..)
  · exact Nat.add_lt_add (depth_field_lt ..) (depth_field_lt ..)
  · exact Nat.add_lt_add (depth_alternative_lt ..) (depth_alternative_lt ..)
  · exact Nat.add_lt_add (depth_param_lt ..) (depth_param_lt ..)
  · exact Nat.add_lt_add (depth_result_lt ..) (depth_result_lt ..)
  · exact Nat.add_lt_add_left (depth_element_lt ..) _
  · rw [Nat.add_comm]
    exact Nat.add_lt_add_right (depth_element_lt ..) _

end Ty

end DataflowTypes
