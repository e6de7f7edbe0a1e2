import DataflowTypes.Order.Digraph
import Mathlib.Data.Fintype.Card
import Mathlib.Data.Fintype.EquivFin
import Mathlib.Logic.Relation

/-!
# Paths and cycles

The paths of a graph, and what its finitely many nodes say about them: going back from node
to node without an end comes upon a cycle.
-/

namespace DataflowTypes.Digraph

variable {α : Type} {g : Digraph α} {a b c : α}

def Edge (g : Digraph α) (a b : α) : Prop := (a, b) ∈ g.edges

def Path (g : Digraph α) : α → α → Prop := Relation.TransGen g.Edge

def Leads (g : Digraph α) : α → α → Prop := Relation.ReflTransGen g.Edge

def Acyclic (g : Digraph α) : Prop := ∀ a, ¬g.Path a a

/-- The node lies on a cycle, or at the end of a path from one. -/
def AfterCycle (g : Digraph α) (a : α) : Prop := ∃ c, g.Path c c ∧ g.Leads c a

/-! ## Edges -/

theorem Edge.left_mem (h : g.Edge a b) : a ∈ g.nodes := (g.edges_sound _ h).1

theorem Edge.right_mem (h : g.Edge a b) : b ∈ g.nodes := (g.edges_sound _ h).2.1

theorem Edge.ne (h : g.Edge a b) : a ≠ b := (g.edges_sound _ h).2.2

section

variable [DecidableEq α]

instance (g : Digraph α) (a b : α) : Decidable (g.Edge a b) :=
  inferInstanceAs (Decidable ((a, b) ∈ g.edges))

theorem mem_successors : b ∈ g.successors a ↔ g.Edge a b := by
  simp [successors, Edge]

theorem mem_predecessors : a ∈ g.predecessors b ↔ g.Edge a b := by
  simp [predecessors, Edge]

private theorem nodup_ends (near far : α × α → α)
    (determined : ∀ e e', near e = near e' → far e = far e' → e = e') (a : α) :
    ((g.edges.filter (near · == a)).map far).Nodup := by
  rw [List.Nodup, List.pairwise_map]
  refine (g.edges_nodup.filter _).imp_of_mem ?_
  intro e e' he he' different same
  have here : near e = a := by simpa using (List.mem_filter.1 he).2
  have here' : near e' = a := by simpa using (List.mem_filter.1 he').2
  exact different (determined e e' (here.trans here'.symm) same)

theorem nodup_successors (g : Digraph α) (a : α) : (g.successors a).Nodup :=
  nodup_ends _ _ (fun _ _ => Prod.ext) a

theorem nodup_predecessors (g : Digraph α) (a : α) : (g.predecessors a).Nodup :=
  nodup_ends _ _ (fun _ _ target source => Prod.ext source target) a

end

/-! ## Paths -/

theorem leads_iff : g.Leads a b ↔ b = a ∨ g.Path a b :=
  Relation.reflTransGen_iff_eq_or_transGen

theorem Path.right_mem (h : g.Path a b) : b ∈ g.nodes := by
  cases h with
  | single e => exact e.right_mem
  | tail _ e => exact e.right_mem

theorem Path.left_mem (h : g.Path a b) : a ∈ g.nodes := by
  obtain ⟨c, edge, -⟩ := Relation.TransGen.head'_iff.1 h
  exact edge.left_mem

theorem Leads.mem (h : g.Leads a b) (ha : a ∈ g.nodes) : b ∈ g.nodes := by
  rcases leads_iff.1 h with rfl | path
  · exact ha
  · exact path.right_mem

theorem Leads.left_mem (h : g.Leads a b) (hb : b ∈ g.nodes) : a ∈ g.nodes := by
  rcases leads_iff.1 h with rfl | path
  · exact hb
  · exact path.left_mem

theorem Acyclic.antisymm (acyclic : g.Acyclic) (there : g.Leads a b) (back : g.Leads b a) :
    a = b := by
  rcases leads_iff.1 there with same | path
  · exact same.symm
  · exact absurd (path.trans_left back) (acyclic a)

/-! ## Cycles -/

theorem Path.afterCycle (h : g.Path a a) : g.AfterCycle a := ⟨a, h, .refl⟩

theorem AfterCycle.mem (h : g.AfterCycle a) : a ∈ g.nodes := by
  obtain ⟨c, cycle, leads⟩ := h
  exact leads.mem cycle.right_mem

theorem acyclic_iff : g.Acyclic ↔ ∀ a, ¬g.AfterCycle a := by
  constructor
  · rintro acyclic a ⟨c, cycle, -⟩
    exact acyclic c cycle
  · intro none a cycle
    exact none a cycle.afterCycle

/-- Where each node has a predecessor of the same kind, there is a cycle behind each. -/
theorem afterCycle_of_predecessors {S : α → Prop} (back : ∀ b, S b → ∃ a, g.Edge a b ∧ S a)
    (start : S a) : g.AfterCycle a := by
  classical
  by_contra none
  -- Without a cycle that leads to `a`, the nodes on the way to `a` are well-founded.
  let Before (b c : { x // x ∈ g.nodes }) : Prop := g.Path b.1 c.1 ∧ g.Leads c.1 a
  have : IsTrans _ Before := ⟨fun _ _ _ h h' => ⟨h.1.trans h'.1, h'.2⟩⟩
  have : Std.Irrefl Before := ⟨fun b h => none ⟨b.1, h.1, h.2⟩⟩
  have impossible : ∀ b : { x // x ∈ g.nodes }, S b.1 → ¬g.Leads b.1 a := by
    intro b
    induction b using (Finite.wellFounded_of_trans_of_irrefl Before).induction with
    | _ b ih =>
        intro hb leads
        obtain ⟨p, edge, hp⟩ := back b.1 hb
        exact ih ⟨p, edge.left_mem⟩ ⟨.single edge, leads⟩ hp (.head edge leads)
  obtain ⟨p, edge, hp⟩ := back a start
  exact impossible ⟨p, edge.left_mem⟩ hp (.single edge)

end DataflowTypes.Digraph
