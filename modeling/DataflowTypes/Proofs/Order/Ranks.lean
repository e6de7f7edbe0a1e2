import DataflowTypes.Proofs.Order.Reachability

/-!
# Ranks

The rank of a node is its place in the topological order.  Main statement: ranks number the nodes
so that lower nodes have lower ranks, and every listing follows them: the nodes above and below a
node by increasing rank, and any list sorted by rank, with what is not in the order at its end.
-/

namespace DataflowTypes.FinOrder

variable {α : Type} [DecidableEq α] {g : Digraph α} {p : FinOrder α} {a b x : α} {xs : List α}

def Precedes (p : FinOrder α) (a b : α) : Prop :=
  ∃ i j, p.rank? a = some i ∧ p.rank? b = some j ∧ i < j

/-! ## Numbering -/

theorem rank?_eq_some_iff (frozen : ofDigraph g = .ok p) {i : Nat} :
    p.rank? a = some i ↔ p.ranked[i]? = some a := by
  rw [rank?, List.idxOf?_eq_some_iff, List.getElem?_eq_some_iff]
  constructor
  · rintro ⟨bound, here, -⟩
    exact ⟨bound, here⟩
  · rintro ⟨bound, here⟩
    refine ⟨bound, here, fun j earlier other => ?_⟩
    have same := (nodup_ranked frozen).getElem_inj_iff.1 (other.trans here.symm)
    omega

theorem length_ranked (frozen : ofDigraph g = .ok p) : p.ranked.length = g.nodes.length :=
  ((List.perm_ext_iff_of_nodup (nodup_ranked frozen) g.nodes_nodup).2
    fun _ => mem_ranked_iff frozen).length_eq

theorem exists_rank? (frozen : ofDigraph g = .ok p) (ha : a ∈ g.nodes) :
    ∃ i < g.nodes.length, p.rank? a = some i := by
  obtain ⟨i, bound, here⟩ := List.getElem_of_mem ((mem_ranked_iff frozen).2 ha)
  refine ⟨i, length_ranked frozen ▸ bound, ?_⟩
  rw [rank?_eq_some_iff frozen, List.getElem?_eq_getElem bound, here]

private theorem rank?_eq_none (frozen : ofDigraph g = .ok p) (foreign : a ∉ g.nodes) :
    p.rank? a = none := by
  rw [rank?, List.idxOf?_eq_none_iff, mem_ranked_iff frozen]
  exact foreign

private theorem existsUnique_of_lt (frozen : ofDigraph g = .ok p) {i : Nat}
    (bound : i < g.nodes.length) : ∃! a, a ∈ g.nodes ∧ p.rank? a = some i := by
  rw [← length_ranked frozen] at bound
  have here : p.ranked[i]? = some p.ranked[i] := List.getElem?_eq_getElem bound
  refine ⟨p.ranked[i], ⟨?_, (rank?_eq_some_iff frozen).2 here⟩, ?_⟩
  · exact (mem_ranked_iff frozen).1 (List.getElem_mem bound)
  · rintro b ⟨-, rank⟩
    rw [rank?_eq_some_iff frozen, here] at rank
    exact (Option.some.inj rank).symm

theorem idxOf_ranked (p : FinOrder α) (a : α) :
    p.ranked.idxOf a = (p.rank? a).getD p.ranked.length :=
  List.idxOf_eq_getD_idxOf? a p.ranked

private theorem Precedes.idxOf_lt (h : p.Precedes a b) : p.ranked.idxOf a < p.ranked.idxOf b := by
  obtain ⟨i, j, hi, hj, earlier⟩ := h
  rw [idxOf_ranked, idxOf_ranked, hi, hj]
  exact earlier

theorem precedes_of_idxOf_lt (frozen : ofDigraph g = .ok p) (ha : a ∈ g.nodes) (hb : b ∈ g.nodes)
    (earlier : p.ranked.idxOf a < p.ranked.idxOf b) : p.Precedes a b := by
  obtain ⟨i, -, hi⟩ := exists_rank? frozen ha
  obtain ⟨j, -, hj⟩ := exists_rank? frozen hb
  rw [idxOf_ranked, idxOf_ranked, hi, hj] at earlier
  exact ⟨i, j, hi, hj, earlier⟩

theorem precedes_of_path (frozen : ofDigraph g = .ok p) (path : g.Path a b) : p.Precedes a b := by
  obtain ⟨-, -, ranked, -⟩ := of_ofDigraph frozen
  apply precedes_of_idxOf_lt frozen path.left_mem path.right_mem
  have placed := (mem_ranked_iff frozen).2 path.right_mem
  rw [ranked] at placed ⊢
  exact Digraph.idxOf_ordered_lt_of_path path placed

theorem pairwise_ranked (frozen : ofDigraph g = .ok p) : p.ranked.Pairwise p.Precedes := by
  rw [List.pairwise_iff_getElem]
  intro i j hi hj before
  exact ⟨i, j, (rank?_eq_some_iff frozen).2 (List.getElem?_eq_getElem hi),
    (rank?_eq_some_iff frozen).2 (List.getElem?_eq_getElem hj), before⟩

/-! ## Nodes above and below -/

theorem mem_upSet_iff (frozen : ofDigraph g = .ok p) :
    b ∈ p.upSet x ↔ x ∈ g.nodes ∧ g.Leads x b := by
  rw [upSet, List.mem_filter, mem_ranked_iff frozen, le_iff_leads frozen, and_iff_right_iff_imp]
  rintro ⟨hx, leads⟩
  exact leads.mem hx

theorem mem_downSet_iff (frozen : ofDigraph g = .ok p) :
    a ∈ p.downSet x ↔ x ∈ g.nodes ∧ g.Leads a x := by
  rw [downSet, List.mem_filter, mem_ranked_iff frozen, le_iff_leads frozen]
  constructor
  · rintro ⟨ha, -, leads⟩
    exact ⟨leads.mem ha, leads⟩
  · rintro ⟨hx, leads⟩
    have ha : a ∈ g.nodes := leads.left_mem hx
    exact ⟨ha, ha, leads⟩

/-! ## Sorting -/

omit [DecidableEq α] in
theorem key_trans (key : α → Nat) (a b c : α) (hab : decide (key a ≤ key b) = true)
    (hbc : decide (key b ≤ key c) = true) : decide (key a ≤ key c) = true := by
  simp only [decide_eq_true_eq] at *
  omega

omit [DecidableEq α] in
theorem key_total (key : α → Nat) (a b : α) :
    (decide (key a ≤ key b) || decide (key b ≤ key a)) = true := by
  simpa using Nat.le_total (key a) (key b)

omit [DecidableEq α] in
private theorem filter_mergeSort_of_key {key : α → Nat} {n : Nat} {q : α → Bool}
    (same : ∀ a, q a = true → key a = n) (xs : List α) :
    (xs.mergeSort fun a b => key a ≤ key b).filter q = xs.filter q := by
  have kept : (xs.filter q).Sublist (xs.mergeSort fun a b => key a ≤ key b) := by
    refine List.sublist_mergeSort (key_trans key) (key_total key) ?_ List.filter_sublist
    refine List.pairwise_of_forall_mem_list fun a ha b hb => ?_
    rw [same a (List.mem_filter.1 ha).2, same b (List.mem_filter.1 hb).2]
    simp
  -- One list is a part of the other, and both have the same length.
  have inner := kept.filter q
  simp only [List.filter_filter, Bool.and_self] at inner
  exact (inner.eq_of_length ((List.mergeSort_perm _ _).filter q).length_eq.symm).symm

omit [DecidableEq α] in
private theorem filter_append_filter_not {q : α → Bool}
    (sorted : xs.Pairwise fun a b => q b = true → q a = true) :
    xs.filter q ++ xs.filter (fun a => !q a) = xs := by
  induction xs with
  | nil => rfl
  | cons x xs ih =>
      obtain ⟨first, sorted⟩ := List.pairwise_cons.1 sorted
      cases hx : q x with
      | true => simp [hx, ih sorted]
      | false =>
          have none : xs.filter q = [] := by
            rw [List.filter_eq_nil_iff]
            intro y hy inside
            rw [first y hy inside] at hx
            cases hx
          have rest := ih sorted
          rw [none, List.nil_append] at rest
          simp [hx, none, rest]

theorem pairwise_sortAscending (p : FinOrder α) (xs : List α) :
    (p.sortAscending xs).Pairwise fun a b => p.ranked.idxOf a ≤ p.ranked.idxOf b := by
  simp only [sortAscending, ← idxOf_ranked]
  exact (List.pairwise_mergeSort (key_trans p.ranked.idxOf) (key_total p.ranked.idxOf) xs).imp
    of_decide_eq_true

private theorem sortAscending_eq_append (frozen : ofDigraph g = .ok p) (xs : List α) :
    p.sortAscending xs =
      (p.sortAscending xs).filter (fun a => a ∈ g.nodes) ++ xs.filter (fun a => a ∉ g.nodes) := by
  have sorted : (p.sortAscending xs).Pairwise fun a b =>
      decide (b ∈ g.nodes) = true → decide (a ∈ g.nodes) = true := by
    refine (pairwise_sortAscending p xs).imp fun {a b} before hb => ?_
    simp only [decide_eq_true_eq, ← mem_ranked_iff frozen, ← List.idxOf_lt_length_iff] at hb ⊢
    omega
  have foreign : (p.sortAscending xs).filter (fun a => a ∉ g.nodes) =
      xs.filter (fun a => a ∉ g.nodes) := by
    -- All of them share one key, which is beyond every rank.
    refine filter_mergeSort_of_key (n := p.ranked.length) (fun a outside => ?_) xs
    rw [rank?_eq_none frozen (by simpa using outside)]
    rfl
  rw [← foreign]
  simpa using (filter_append_filter_not sorted).symm

/-- Ranks number the nodes along the order, and listings are by rank. -/
theorem ranks_extend_order (frozen : ofDigraph g = .ok p) :
    (∀ a ∈ g.nodes, ∃ i < g.nodes.length, p.rank? a = some i) ∧
      (∀ i < g.nodes.length, ∃! a, a ∈ g.nodes ∧ p.rank? a = some i) ∧
      (∀ a b, g.Path a b → p.Precedes a b) ∧
      (∀ x, (p.upSet x).Nodup ∧ (p.upSet x).Pairwise p.Precedes ∧
        ∀ b, b ∈ p.upSet x ↔ x ∈ g.nodes ∧ g.Leads x b) ∧
      (∀ x, (p.downSet x).Nodup ∧ (p.downSet x).Pairwise p.Precedes ∧
        ∀ a, a ∈ p.downSet x ↔ x ∈ g.nodes ∧ g.Leads a x) ∧
      ∀ xs, (p.sortAscending xs).Perm xs ∧
        (p.sortAscending xs).Pairwise (fun a b => ¬g.Path b a) ∧
        ∃ front, p.sortAscending xs = front ++ xs.filter (fun a => a ∉ g.nodes) ∧
          (∀ a ∈ front, a ∈ g.nodes) ∧ front.Pairwise fun a b => a = b ∨ p.Precedes a b := by
  have ranked := pairwise_ranked frozen
  refine ⟨fun a => exists_rank? frozen, fun i => existsUnique_of_lt frozen,
    fun a b => precedes_of_path frozen,
    fun x => ⟨(nodup_ranked frozen).filter _, ranked.filter _, fun b => mem_upSet_iff frozen⟩,
    fun x => ⟨(nodup_ranked frozen).filter _, ranked.filter _, fun a => mem_downSet_iff frozen⟩,
    fun xs => ⟨List.mergeSort_perm _ _, ?_, _, sortAscending_eq_append frozen xs, ?_, ?_⟩⟩
  · refine (pairwise_sortAscending p xs).imp fun before path => ?_
    have := (precedes_of_path frozen path).idxOf_lt
    omega
  · intro a ha
    simpa using (List.mem_filter.1 ha).2
  · refine ((pairwise_sortAscending p xs).filter _).imp_of_mem fun {a b} ha hb before => ?_
    have inside {c : α} (hc : c ∈ (p.sortAscending xs).filter (fun a => a ∈ g.nodes)) :
        c ∈ g.nodes := by simpa using (List.mem_filter.1 hc).2
    rcases Nat.eq_or_lt_of_le before with same | earlier
    · exact .inl ((List.idxOf_inj ((mem_ranked_iff frozen).2 (inside ha))).1 same)
    · exact .inr (precedes_of_idxOf_lt frozen (inside ha) (inside hb) earlier)

theorem ranks_extend_order_diamond :
    ∃ p, ofDigraph diamond = .ok p ∧ (∃ i < 4, p.rank? 2 = some i) ∧
      (∃! a, a ∈ diamond.nodes ∧ p.rank? a = some 3) ∧ p.Precedes 0 3 ∧
      ∃ front, p.sortAscending [9, 3, 0, 9, 3] = front ++ [9, 9] ∧
        front.Pairwise fun a b => a = b ∨ p.Precedes a b := by
  obtain ⟨p, frozen⟩ : ∃ p, ofDigraph diamond = .ok p := ⟨_, rfl⟩
  obtain ⟨numbered, unique, forward, -, -, sorted⟩ := ranks_extend_order frozen
  have up : diamond.Edge 0 1 := by decide
  obtain ⟨-, -, front, split, -, byRank⟩ := sorted [9, 3, 0, 9, 3]
  exact ⟨p, frozen, numbered 2 (by decide), unique 3 (by decide),
    forward 0 3 (.head up (.single (by decide))), front, split, byRank⟩

end DataflowTypes.FinOrder
