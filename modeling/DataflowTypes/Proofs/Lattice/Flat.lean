import DataflowTypes.Proofs.Lattice.Join
import DataflowTypes.Proofs.Lattice.Meet
import Mathlib.Data.List.Chain
import Mathlib.Order.Bounds.Basic

/-!
# Flat types

Base types and matrices among themselves.  The meet and the join of two of them is one of them
again.  Each point of the base order has a level, which grows along the order, so that a flat
type can be raised or lowered only so often: the longest chain of covering pairs has nine steps.
-/

namespace DataflowTypes

namespace BaseOrder

def Covers (a b : Node) : Prop := (a, b) ∈ edges

/-- The number of steps of the longest chain of covering pairs up to the point. -/
def level : Node → Nat
  | .base .unknown => 0
  | .base .boolean | .base .unsignedByte | .base .fixedPoint => 1
  | .base .event | .base .xmlToken | .base .nil | .family _ => 1
  | .base .short | .matrix .boolean | .matrix .fixedPoint => 2
  | .base .int | .base .float => 3
  | .base .long | .base .double | .matrix .int => 4
  | .base .complex | .matrix .long | .matrix .double => 5
  | .base .scalar | .matrix .complex => 6
  | .matrix .generic => 7
  | .base .string => 8
  | .base .general => 9

private theorem level_table :
    (∀ a ∈ Node.all, level a ≤ 9 ∧
      ∀ b ∈ Node.all, le a b = true → a = b ∨ level a < level b) ∧
    ∀ e ∈ edges, level e.1 < level e.2 := by
  decide +kernel

theorem level_le (a : Node) : level a ≤ 9 := (level_table.1 a a.mem_all).1

theorem level_lt {a b : Node} (below : le a b = true) (different : a ≠ b) : level a < level b :=
  ((level_table.1 a a.mem_all).2 b b.mem_all below).resolve_left different

theorem Covers.level_lt {a b : Node} (h : Covers a b) : level a < level b := level_table.2 (a, b) h

private theorem level_add_length_le {a : Node} {chain : List Node}
    (h : (a :: chain).IsChain Covers) : level a + chain.length ≤ 9 := by
  induction chain generalizing a with
  | nil => exact level_le a
  | cons b chain ih =>
      obtain ⟨covers, rest⟩ := List.isChain_cons_cons.1 h
      have step := covers.level_lt
      have bound := ih rest
      rw [List.length_cons]
      omega

def longestChain : List Node :=
  [.base .unknown, .base .unsignedByte, .base .short, .base .int, .base .double, .base .complex,
    .base .scalar, .matrix .generic, .base .string, .base .general]

private theorem longestChain_isChain : longestChain.IsChain Covers := by
  simp only [longestChain, List.isChain_cons_cons, List.IsChain.singleton, Covers]
  decide

theorem height_isGreatest : IsGreatest {steps | ∃ chain : List Node,
    chain.IsChain Covers ∧ chain.length = steps + 1} 9 := by
  refine ⟨⟨longestChain, longestChain_isChain, rfl⟩, ?_⟩
  rintro steps ⟨chain, isChain, length⟩
  cases chain with
  | nil => cases length
  | cons a chain =>
      have bound := level_add_length_le isChain
      rw [List.length_cons] at length
      omega

end BaseOrder

namespace Ty

variable {a b : Ty}

theorem level_lt_of_below (ha : a.isStructured = false) (hb : b.isStructured = false)
    (below : Below a b) (different : (a == b) = false) :
    BaseOrder.level a.node < BaseOrder.level b.node := by
  refine BaseOrder.level_lt ((below_flat_iff ha hb).1 below) fun same => ?_
  rw [eq_of_node_eq ha hb same, BEq.rfl] at different
  cases different

theorem isStructured_join (ha : a.isStructured = false) (hb : b.isStructured = false) :
    (a.join b).isStructured = false := by
  refine join_cases (P := fun t => t.isStructured = false) (fun _ => ha) (fun _ => hb) ?_
  intro notBelow notAbove outcome
  have single := isArray_eq_false ha
  have single' := isArray_eq_false hb
  have families : a.family? = b.family? → a.family? = none := fun _ => by
    simpa [isStructured] using ha
  rw [join_nodes outcome single single' families]
  exact (ofNode_flat (join_node_ne_family notBelow notAbove families)).1

theorem isStructured_meet (ha : a.isStructured = false) (hb : b.isStructured = false) :
    (a.meet b).isStructured = false := by
  by_cases below : Below a b
  · rwa [meet_eq_left below]
  · by_cases top : a = general
    · subst top
      rwa [meet_eq_right (.top b) below]
    · -- Nothing but flat types lies below a flat type other than `general`.
      exact (meet_isMeet a b).left.isStructured_eq_false ha top

end Ty

end DataflowTypes
