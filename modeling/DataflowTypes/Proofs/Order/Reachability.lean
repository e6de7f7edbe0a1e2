import DataflowTypes.Proofs.Order.Topological

/-!
# The order generated by a graph

The table of a finite order is filled from the last node of the topological order to the first
one, so that the rows of all successors are there when a row is put together.  Main statement:
a row lists the nodes that can be reached from its node, and so the order is that of
reachability, with the least and the greatest node as its bounds.
-/

namespace DataflowTypes.FinOrder

variable {α : Type} [DecidableEq α] {g : Digraph α} {p : FinOrder α} {a b x : α}

/-! ## The table -/

theorem lookUpper_cons (row : List α) (upper : List (α × List α)) :
    lookUpper ((b, row) :: upper) a = if a = b then row else lookUpper upper a := by
  by_cases same : a = b
  · simp [lookUpper, same]
  · have other : (a == b) = false := by simpa using same
    simp [lookUpper, List.lookup_cons, same, other]

private theorem mem_lookUpper_extendUpper {upper : List (α × List α)} :
    b ∈ lookUpper (extendUpper g x upper) x ↔
      b ∈ g.nodes ∧ (x = b ∨ ∃ y, g.Edge x y ∧ b ∈ lookUpper upper y) := by
  simp [extendUpper, lookUpper_cons, Digraph.mem_successors]

private theorem lookUpper_extendUpper {upper : List (α × List α)} (other : a ≠ x) :
    lookUpper (extendUpper g x upper) a = lookUpper upper a := by
  simp [extendUpper, lookUpper_cons, other]

private theorem mem_after_of_edge (acyclic : g.Acyclic) {after : List α}
    (latter : x :: after <:+ g.ordered) (edge : g.Edge x b) : b ∈ after := by
  obtain ⟨before, split⟩ := latter
  have placed : b ∈ g.ordered :=
    Digraph.mem_ordered_iff.2 ⟨edge.right_mem, Digraph.acyclic_iff.1 acyclic b⟩
  have fresh : x ∉ before := by
    have nodup := Digraph.nodup_ordered g
    rw [← split, List.nodup_append] at nodup
    exact fun hx => nodup.2.2 x hx x List.mem_cons_self rfl
  have later := Digraph.idxOf_ordered_lt edge placed
  rw [← split, List.mem_append, List.mem_cons] at placed
  rw [← split, List.idxOf_append_of_notMem fresh] at later
  rcases placed with earlier | same | after
  · rw [List.idxOf_append_of_mem earlier] at later
    have := List.idxOf_lt_length_of_mem earlier
    omega
  · exact absurd same.symm edge.ne
  · exact after

/-- The rows of the latter part of the order are complete: no edge leads out of this part. -/
theorem mem_lookUpper_foldr (acyclic : g.Acyclic) {after : List α}
    (latter : after <:+ g.ordered) :
    b ∈ lookUpper (after.foldr (extendUpper g) []) a ↔ a ∈ after ∧ g.Leads a b := by
  induction after generalizing a with
  | nil => simp [lookUpper]
  | cons x after ih =>
      have rest (y : α) : b ∈ lookUpper (after.foldr (extendUpper g) []) y ↔
          y ∈ after ∧ g.Leads y b := ih ((List.suffix_cons x after).trans latter)
      rw [List.foldr_cons]
      by_cases same : a = x
      · subst same
        have inside : a ∈ g.nodes :=
          (Digraph.mem_ordered_iff.1 (latter.subset List.mem_cons_self)).1
        have leads : g.Leads a b ↔ a = b ∨ ∃ y, g.Edge a y ∧ g.Leads y b :=
          Relation.ReflTransGen.cases_head_iff
        rw [mem_lookUpper_extendUpper, leads]
        simp only [rest, List.mem_cons_self, true_and]
        constructor
        · rintro ⟨-, here | ⟨y, edge, -, onward⟩⟩
          · exact .inl here
          · exact .inr ⟨y, edge, onward⟩
        · intro reached
          refine ⟨(leads.2 reached).mem inside, ?_⟩
          rcases reached with here | ⟨y, edge, onward⟩
          · exact .inl here
          · exact .inr ⟨y, edge, mem_after_of_edge acyclic latter edge, onward⟩
      · rw [lookUpper_extendUpper same, rest a, List.mem_cons]
        simp [same]

/-! ## The order -/

theorem of_ofDigraph (frozen : ofDigraph g = .ok p) :
    g.Acyclic ∧ p.nodes = g.nodes ∧ p.ranked = g.ordered ∧
      p.upper = g.ordered.foldr (extendUpper g) [] := by
  rw [Digraph.ofDigraph_eq] at frozen
  cases sorted : g.topological with
  | error e => simp [sorted, Except.map] at frozen
  | ok order =>
      obtain ⟨acyclic, rfl⟩ := Digraph.topological_eq_ok_iff.1 sorted
      rw [sorted] at frozen
      cases frozen
      exact ⟨acyclic, rfl, rfl, rfl⟩

theorem mem_ranked_iff (frozen : ofDigraph g = .ok p) : a ∈ p.ranked ↔ a ∈ g.nodes := by
  obtain ⟨acyclic, -, ranked, -⟩ := of_ofDigraph frozen
  simp [ranked, Digraph.mem_ordered_iff, Digraph.acyclic_iff.1 acyclic a]

theorem nodup_ranked (frozen : ofDigraph g = .ok p) : p.ranked.Nodup := by
  obtain ⟨-, -, ranked, -⟩ := of_ofDigraph frozen
  rw [ranked]
  exact Digraph.nodup_ordered g

theorem le_iff_leads (frozen : ofDigraph g = .ok p) :
    p.le a b = true ↔ a ∈ g.nodes ∧ g.Leads a b := by
  obtain ⟨acyclic, -, -, upper⟩ := of_ofDigraph frozen
  rw [le, above, List.contains_iff_mem, upper,
    mem_lookUpper_foldr acyclic (List.suffix_refl _), Digraph.mem_ordered_iff]
  simp [Digraph.acyclic_iff.1 acyclic a]

theorem le_antisymm (frozen : ofDigraph g = .ok p) (below : p.le a b = true)
    (above : p.le b a = true) : a = b :=
  (of_ofDigraph frozen).1.antisymm ((le_iff_leads frozen).1 below).2
    ((le_iff_leads frozen).1 above).2

theorem compare_of_foreign (frozen : ofDigraph g = .ok p) (foreign : a ∉ g.nodes ∨ b ∉ g.nodes) :
    p.compare a b = .incomparable := by
  have unrelated {a b : α} (foreign : a ∉ g.nodes ∨ b ∉ g.nodes) : p.le a b = false := by
    rw [Bool.eq_false_iff, ne_eq, le_iff_leads frozen]
    rintro ⟨ha, leads⟩
    exact foreign.elim (absurd ha) (absurd (leads.mem ha))
  rw [compare, unrelated foreign, unrelated foreign.symm]
  rfl

theorem compare_of_mem (frozen : ofDigraph g = .ok p) (ha : a ∈ g.nodes) (hb : b ∈ g.nodes) :
    (p.compare a b = .same ↔ a = b) ∧
      (p.compare a b = .lower ↔ a ≠ b ∧ g.Path a b) ∧
      (p.compare a b = .higher ↔ a ≠ b ∧ g.Path b a) ∧
      (p.compare a b = .incomparable ↔ a ≠ b ∧ ¬g.Path a b ∧ ¬g.Path b a) := by
  obtain ⟨acyclic, -⟩ := of_ofDigraph frozen
  by_cases same : a = b
  · subst same
    have reflexive : p.le a a = true := (le_iff_leads frozen).2 ⟨ha, .refl⟩
    simp [compare, reflexive, Comparison.ofBounds]
  have below : p.le a b = true ↔ g.Path a b := by
    simp [le_iff_leads frozen, ha, Digraph.leads_iff, Ne.symm same]
  have above : p.le b a = true ↔ g.Path b a := by
    simp [le_iff_leads frozen, hb, Digraph.leads_iff, same]
  by_cases path : g.Path a b
  · have back : ¬g.Path b a := fun back => acyclic a (path.trans back)
    have outcome : p.compare a b = .lower := by
      rw [compare, below.2 path, Bool.eq_false_iff.2 (mt above.1 back)]
      rfl
    simp [outcome, same, path, back]
  rw [compare, Bool.eq_false_iff.2 (mt below.1 path)]
  by_cases back : g.Path b a
  · simp [above.2 back, Comparison.ofBounds, same, path, back]
  · simp [Bool.eq_false_iff.2 (mt above.1 back), Comparison.ofBounds, same, path, back]

/-! ## Bounds -/

omit [DecidableEq α] in
theorem find?_eq_some_iff_of_unique {xs : List α} {test : α → Bool}
    (unique : ∀ a ∈ xs, ∀ b ∈ xs, test a = true → test b = true → a = b) :
    xs.find? test = some x ↔ x ∈ xs ∧ test x = true := by
  constructor
  · intro found
    exact ⟨List.mem_of_find?_eq_some found, List.find?_some found⟩
  · rintro ⟨hx, passes⟩
    obtain ⟨y, found⟩ := Option.isSome_iff_exists.1 (List.find?_isSome.2 ⟨x, hx, passes⟩)
    rw [found, unique y (List.mem_of_find?_eq_some found) x hx (List.find?_some found) passes]

theorem bottom?_eq_some_iff (frozen : ofDigraph g = .ok p) :
    p.bottom? = some x ↔ x ∈ g.nodes ∧ ∀ a ∈ g.nodes, g.Leads x a := by
  obtain ⟨-, nodes, -⟩ := of_ofDigraph frozen
  rw [bottom?, find?_eq_some_iff_of_unique, nodes]
  · refine and_congr_right fun hx => ?_
    simp [le_iff_leads frozen, hx]
  · intro a ha b hb least least'
    exact le_antisymm frozen (List.all_eq_true.1 least b hb) (List.all_eq_true.1 least' a ha)

theorem top?_eq_some_iff (frozen : ofDigraph g = .ok p) :
    p.top? = some x ↔ x ∈ g.nodes ∧ ∀ a ∈ g.nodes, g.Leads a x := by
  obtain ⟨-, nodes, -⟩ := of_ofDigraph frozen
  rw [top?, find?_eq_some_iff_of_unique, nodes]
  · refine and_congr_right fun _ => ?_
    simp +contextual [le_iff_leads frozen]
  · intro a ha b hb greatest greatest'
    exact le_antisymm frozen (List.all_eq_true.1 greatest' a ha) (List.all_eq_true.1 greatest b hb)

/-- The order generated by a graph is that of its paths. -/
theorem compare_iff_path (frozen : ofDigraph g = .ok p) :
    (∀ a ∈ g.nodes, ∀ b ∈ g.nodes,
        (p.compare a b = .same ↔ a = b) ∧
        (p.compare a b = .lower ↔ a ≠ b ∧ g.Path a b) ∧
        (p.compare a b = .higher ↔ a ≠ b ∧ g.Path b a) ∧
        (p.compare a b = .incomparable ↔ a ≠ b ∧ ¬g.Path a b ∧ ¬g.Path b a)) ∧
      (∀ a b, a ∉ g.nodes ∨ b ∉ g.nodes → p.compare a b = .incomparable) ∧
      (∀ x, p.bottom? = some x ↔ x ∈ g.nodes ∧ ∀ a ∈ g.nodes, g.Leads x a) ∧
      (∀ x, p.top? = some x ↔ x ∈ g.nodes ∧ ∀ a ∈ g.nodes, g.Leads a x) := by
  refine ⟨?_, fun a b => compare_of_foreign frozen, fun x => bottom?_eq_some_iff frozen,
    fun x => top?_eq_some_iff frozen⟩
  intro a ha b hb
  exact compare_of_mem frozen ha hb

def diamond : Digraph Nat where
  nodes := [0, 1, 2, 3]
  edges := [(0, 1), (0, 2), (1, 3), (2, 3)]
  nodes_nodup := by decide
  edges_nodup := by decide
  edges_sound := by decide

theorem compare_iff_path_diamond :
    ∃ p, ofDigraph diamond = .ok p ∧ p.compare 0 3 = .lower ∧ p.compare 1 7 = .incomparable ∧
      (p.top? = some 3 ↔ 3 ∈ diamond.nodes ∧ ∀ a ∈ diamond.nodes, diamond.Leads a 3) := by
  obtain ⟨p, frozen⟩ : ∃ p, ofDigraph diamond = .ok p := ⟨_, rfl⟩
  obtain ⟨nodes, foreign, -, top⟩ := compare_iff_path frozen
  obtain ⟨-, lower, -⟩ := nodes 0 (by decide) 3 (by decide)
  have up : diamond.Edge 0 1 := by decide
  have path : diamond.Path 0 3 := .head up (.single (by decide))
  exact ⟨p, frozen, lower.2 ⟨by decide, path⟩, foreign 1 7 (.inr (by decide)), top 3⟩

end DataflowTypes.FinOrder
