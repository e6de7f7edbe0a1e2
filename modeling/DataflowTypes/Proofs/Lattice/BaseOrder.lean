import DataflowTypes.Lattice.BaseOrder
import DataflowTypes.Proofs.Order.Bounds

/-!
# The base order is a lattice

The base order is a partial order between `unknown` and `general` in which the
families are isolated, and `meet` and `join` are the bounds of any two points.
The finitely many facts about its table are decided; all others follow from these.
-/

namespace DataflowTypes

theorem Node.mem_all (a : Node) : a ∈ Node.all := by
  rcases a with b | k | f
  · cases b <;> decide
  · cases k <;> decide
  · cases f <;> decide

namespace BaseOrder

abbrev le (a b : Node) : Bool := order.le a b

/-! ## Facts about the table -/

-- One decision for all of them, so that the table is computed once.
private theorem table_facts :
    (∀ a ∈ Node.all, a ∈ order.nodes ∧ (a, order.above a) ∈ order.upper ∧
      le a a = true ∧ le (.base .unknown) a = true ∧ le a (.base .general) = true) ∧
    (∀ a ∈ Node.all, ∀ b ∈ Node.all, le a b = true →
      (le b a = true → a = b) ∧ ∀ c ∈ Node.all, le b c = true → le a c = true) ∧
    (∀ f ∈ Family.all, ∀ a ∈ Node.all,
      (le (.family f) a = true → a = .family f ∨ a = .base .general) ∧
      (le a (.family f) = true → a = .family f ∨ a = .base .unknown)) ∧
    (∀ entry ∈ order.upper, order.above entry.1 = entry.2) := by
  decide +kernel

private theorem isLattice : order.isLattice = true := by decide +kernel

private theorem node_facts (a : Node) :
    a ∈ order.nodes ∧ (a, order.above a) ∈ order.upper ∧
      le a a = true ∧ le (.base .unknown) a = true ∧ le a (.base .general) = true :=
  table_facts.1 a a.mem_all

private theorem consistent : order.Consistent where
  row := table_facts.2.2.2
  listed a _ := (node_facts a).2.1

@[simp] theorem le_refl (a : Node) : le a a = true := (node_facts a).2.2.1

@[simp] theorem unknown_le (a : Node) : le (.base .unknown) a = true := (node_facts a).2.2.2.1

@[simp] theorem le_general (a : Node) : le a (.base .general) = true := (node_facts a).2.2.2.2

theorem le_antisymm {a b : Node} (below : le a b = true) (above : le b a = true) : a = b :=
  (table_facts.2.1 a a.mem_all b b.mem_all below).1 above

theorem le_trans {a b c : Node} (first : le a b = true) (second : le b c = true) :
    le a c = true :=
  (table_facts.2.1 a a.mem_all b b.mem_all first).2 c c.mem_all second

theorem eq_of_family_le {f : Family} {a : Node} (h : le (.family f) a = true) :
    a = .family f ∨ a = .base .general :=
  (table_facts.2.2.1 f (by cases f <;> decide) a a.mem_all).1 h

theorem eq_of_le_family {f : Family} {a : Node} (h : le a (.family f) = true) :
    a = .family f ∨ a = .base .unknown :=
  (table_facts.2.2.1 f (by cases f <;> decide) a a.mem_all).2 h

/-! ## Bounds -/

theorem eq_unknown_of_le {a : Node} (h : le a (.base .unknown) = true) : a = .base .unknown :=
  le_antisymm h (unknown_le a)

theorem eq_general_of_le {a : Node} (h : le (.base .general) a = true) : a = .base .general :=
  le_antisymm (le_general a) h

private theorem exists_bounds (a b : Node) :
    (∃ u, order.join? a b = some u) ∧ ∃ l, order.meet? a b = some l :=
  FinOrder.isLattice_iff_exists.1 isLattice a (node_facts a).1 b (node_facts b).1

theorem meet_isGreatest (a b : Node) :
    le (meet order a b) a = true ∧ le (meet order a b) b = true ∧
      ∀ c, le c a = true → le c b = true → le c (meet order a b) = true := by
  obtain ⟨-, l, found⟩ := exists_bounds a b
  obtain ⟨lower, greatest⟩ := FinOrder.meetOf?_isGreatest consistent found
  simp only [meet, found, Option.getD_some]
  refine ⟨lower a (by simp), lower b (by simp), fun c ca cb => ?_⟩
  exact greatest c (node_facts c).1 (by simp [ca, cb])

theorem join_isLeast (a b : Node) :
    le a (join order a b) = true ∧ le b (join order a b) = true ∧
      ∀ c, le a c = true → le b c = true → le (join order a b) c = true := by
  obtain ⟨⟨u, found⟩, -⟩ := exists_bounds a b
  obtain ⟨upper, least⟩ := FinOrder.joinOf?_isLeast found
  simp only [join, found, Option.getD_some]
  refine ⟨upper a (by simp), upper b (by simp), fun c ac bc => ?_⟩
  exact least c (node_facts c).1 (by simp [ac, bc])

theorem join_comm (a b : Node) : join order a b = join order b a := by
  obtain ⟨left, right, least⟩ := join_isLeast a b
  obtain ⟨left', right', least'⟩ := join_isLeast b a
  exact le_antisymm (least _ right' left') (least' _ right left)

end BaseOrder

end DataflowTypes
