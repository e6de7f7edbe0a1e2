import DataflowTypes.Order.FinOrder

/-!
# Bounds in finite orders

`joinOf?` and `meetOf?` search the table of a finite order.  What they find is a
least upper or a greatest lower bound with respect to `le`.  The second needs the
table to be in step with its look-up, which `Consistent` says.
-/

namespace DataflowTypes.FinOrder

variable {α : Type} [DecidableEq α] {p : FinOrder α}

structure Consistent (p : FinOrder α) : Prop where
  row : ∀ entry ∈ p.upper, p.above entry.1 = entry.2
  listed : ∀ a ∈ p.nodes, (a, p.above a) ∈ p.upper

theorem joinOf?_isLeast {xs : List α} {u : α} (found : p.joinOf? xs = some u) :
    (∀ x ∈ xs, p.le x u = true) ∧
      ∀ v ∈ p.nodes, (∀ x ∈ xs, p.le x v = true) → p.le u v = true := by
  simp only [joinOf?] at found
  split at found
  · have bound := List.mem_of_find?_eq_some found
    have least := List.find?_some found
    simp only [List.mem_filter, List.all_map, List.all_eq_true, Function.comp_apply] at bound
    refine ⟨fun x hx => bound.2 x hx, fun v hv above => ?_⟩
    refine List.all_eq_true.1 least v ?_
    simp only [List.mem_filter, List.all_map, List.all_eq_true, Function.comp_apply]
    exact ⟨hv, above⟩
  · cases found

theorem meetOf?_isGreatest (h : p.Consistent) {xs : List α} {l : α}
    (found : p.meetOf? xs = some l) :
    (∀ x ∈ xs, p.le l x = true) ∧
      ∀ v ∈ p.nodes, (∀ x ∈ xs, p.le v x = true) → p.le v l = true := by
  simp only [meetOf?] at found
  split at found
  · obtain ⟨⟨a, row⟩, chosen, rfl⟩ := Option.map_eq_some_iff.1 found
    have bound := List.mem_of_find?_eq_some chosen
    have greatest := List.find?_some chosen
    simp only [List.mem_filter, List.all_eq_true] at bound
    have looked : p.above a = row := h.row _ bound.1
    refine ⟨fun x hx => ?_, fun v hv below => ?_⟩
    · simpa only [le, looked] using bound.2 x hx
    · refine List.all_eq_true.1 greatest (v, p.above v) ?_
      simp only [List.mem_filter, List.all_eq_true]
      exact ⟨h.listed v hv, below⟩
  · cases found

private theorem all_swap {β : Type} (f : β → Bool) (x y : β) : [x, y].all f = [y, x].all f := by
  simp only [List.all_cons, List.all_nil, Bool.and_true]
  exact Bool.and_comm (f x) (f y)

theorem join?_comm (a b : α) : p.join? a b = p.join? b a := by
  simp only [join?, joinOf?, List.map_cons, List.map_nil, all_swap _ a b,
    all_swap _ (p.above a) (p.above b)]

theorem meet?_comm (a b : α) : p.meet? a b = p.meet? b a := by
  simp only [meet?, meetOf?, all_swap _ a b]

omit [DecidableEq α] in
theorem eachWithLater_iff {test : α → α → Bool} (symm : ∀ a b, test a b = test b a)
    {xs : List α} :
    eachWithLater test xs = true ↔ ∀ a ∈ xs, ∀ b ∈ xs, test a b = true := by
  induction xs with
  | nil => simp [eachWithLater]
  | cons x xs ih =>
      simp only [eachWithLater, Bool.and_eq_true, ih, List.all_eq_true, List.forall_mem_cons]
      constructor
      · rintro ⟨⟨self, first⟩, rest⟩
        exact ⟨⟨self, first⟩, fun a ha => ⟨(symm a x).trans (first a ha), rest a ha⟩⟩
      · rintro ⟨first, rest⟩
        exact ⟨first, fun a ha => (rest a ha).2⟩

theorem isLattice_iff_exists :
    p.isLattice = true ↔ ∀ a ∈ p.nodes, ∀ b ∈ p.nodes,
      (∃ u, p.join? a b = some u) ∧ ∃ l, p.meet? a b = some l := by
  have symm (a b : α) : ((p.join? a b).isSome && (p.meet? a b).isSome) =
      ((p.join? b a).isSome && (p.meet? b a).isSome) := by
    rw [join?_comm a, meet?_comm a]
  simp only [isLattice, eachWithLater_iff symm, Bool.and_eq_true, Option.isSome_iff_exists]

end DataflowTypes.FinOrder
