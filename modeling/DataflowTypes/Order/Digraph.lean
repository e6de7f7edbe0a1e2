/-!
# Directed graphs

A graph is put together node by node and edge by edge.  An edge from `a` to `b`
says that `a` is to come below `b`.  `topological` lists the nodes so that all
edges point forward, if there is such a list.
-/

namespace DataflowTypes

structure Digraph (α : Type) where
  nodes : List α
  edges : List (α × α)
  nodes_nodup : nodes.Nodup
  edges_nodup : edges.Nodup
  edges_sound : ∀ e ∈ edges, e.1 ∈ nodes ∧ e.2 ∈ nodes ∧ e.1 ≠ e.2

inductive GraphError (α : Type) where
  | selfLoop (node : α)
  | cyclic (node : α)
  | unknownNode (node : α)
deriving DecidableEq, Repr

def GraphError.message {α : Type} (shown : α → String) : GraphError α → String
  | selfLoop a => "self loop on node " ++ shown a
  | cyclic a => "graph contains a cycle through " ++ shown a
  | unknownNode a => "node " ++ shown a ++ " is not in the graph"

namespace Digraph

variable {α : Type}

def empty : Digraph α where
  nodes := []
  edges := []
  nodes_nodup := List.Pairwise.nil
  edges_nodup := List.Pairwise.nil
  edges_sound := by simp

instance : Inhabited (Digraph α) := ⟨empty⟩

variable [DecidableEq α]

theorem nodup_append_singleton {β : Type} {xs : List β} {x : β} (h : xs.Nodup) (hx : x ∉ xs) :
    (xs ++ [x]).Nodup := by
  rw [List.nodup_append]
  refine ⟨h, by simp, ?_⟩
  intro a ha b hb
  rw [List.mem_singleton.1 hb]
  exact fun same => hx (same ▸ ha)

def addNode (g : Digraph α) (a : α) : Digraph α :=
  if h : a ∈ g.nodes then g
  else
    { nodes := g.nodes ++ [a]
      edges := g.edges
      nodes_nodup := nodup_append_singleton g.nodes_nodup h
      edges_nodup := g.edges_nodup
      edges_sound := fun e he => by
        obtain ⟨left, right, different⟩ := g.edges_sound e he
        exact ⟨List.mem_append_left _ left, List.mem_append_left _ right, different⟩ }

def addEdge (g : Digraph α) (a b : α) : Except (GraphError α) (Digraph α) :=
  if ha : a ∈ g.nodes then
    if hb : b ∈ g.nodes then
      if same : a = b then .error (.selfLoop a)
      else if h : (a, b) ∈ g.edges then .ok g
      else .ok
        { nodes := g.nodes
          edges := g.edges ++ [(a, b)]
          nodes_nodup := g.nodes_nodup
          edges_nodup := nodup_append_singleton g.edges_nodup h
          edges_sound := fun e he => by
            rcases List.mem_append.1 he with he | he
            · exact g.edges_sound e he
            · rw [List.mem_singleton.1 he]
              exact ⟨ha, hb, same⟩ }
    else .error (.unknownNode b)
  else .error (.unknownNode a)

def indexOf (g : Digraph α) (a : α) : Nat := g.nodes.idxOf a

def contains (g : Digraph α) (a : α) : Bool := a ∈ g.nodes

def successors (g : Digraph α) (a : α) : List α :=
  (g.edges.filter (·.1 == a)).map (·.2)

def predecessors (g : Digraph α) (a : α) : List α :=
  (g.edges.filter (·.2 == a)).map (·.1)

/-- The state of the sort: the nodes taken so far, those that can be taken next, and a counter
for each node, of its predecessors that are still to be taken. -/
structure Sorting (α : Type) where
  taken : List α
  waiting : List α
  counters : List (α × Nat)

namespace Sorting

def start (g : Digraph α) : Sorting α :=
  let counters := g.nodes.map fun a => (a, (g.predecessors a).length)
  { taken := []
    waiting := (counters.filter (·.2 == 0)).map (·.1)
    counters }

def counter (s : Sorting α) (a : α) : Nat := (s.counters.lookup a).getD 0

/-- One predecessor less; with the last one, the node joins the queue. -/
def release (s : Sorting α) (a : α) : Sorting α :=
  let left := s.counter a - 1
  { s with
    waiting := if left = 0 then s.waiting ++ [a] else s.waiting
    counters := s.counters.map fun e => if e.1 = a then (e.1, left) else e }

/-- Takes nodes off the front of the queue; `fuel` bounds how many there can be. -/
def run (g : Digraph α) : (fuel : Nat) → Sorting α → Sorting α
  | 0, s => s
  | fuel + 1, s =>
      match s.waiting with
      | [] => s
      | a :: waiting =>
          run g fuel ((g.successors a).foldl release { s with taken := s.taken ++ [a], waiting })

end Sorting

def sorted (g : Digraph α) : Sorting α := .run g g.nodes.length (.start g)

/-- All nodes, ordered so that edges point forward; nodes that can be taken at the same time
stay in the order in which they were added.  Fails at the first node whose counter is left
positive. -/
def topological (g : Digraph α) : Except (GraphError α) (List α) :=
  let s := g.sorted
  if short : s.taken.length < g.nodes.length then
    let stuck := g.nodes.find? fun a => 0 < s.counter a
    .error (.cyclic (stuck.getD (g.nodes.get ⟨0, by omega⟩)))
  else .ok s.taken

end Digraph

end DataflowTypes
