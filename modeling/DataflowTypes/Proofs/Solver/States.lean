import DataflowTypes.Proofs.Solver.Conflict
import DataflowTypes.Proofs.Solver.Rest
import DataflowTypes.Report

/-!
# Final states

What the states of the variables say after a run.  A variable is conflicted if some conflict
lists it or the run has rejected it; of all others, those that were moved or cannot be moved
are resolved, and the rest are as they were at the start.  Main statement: the states mean
what their names say, so that the counts of a report add up to all variables.
-/

namespace DataflowTypes

namespace Run

section

variable {conflicts : List Conflict} {v : VarId} {x : Variable} {cell : Cell}

theorem finalState_eq_conflicted_iff :
    finalState conflicts v x cell = .conflicted ↔
      (∃ c ∈ conflicts, v ∈ c.vars) ∨ cell.state = .conflicted := by
  unfold finalState
  split
  · next blamed => simpa using blamed
  · next clear =>
      have none : ¬((∃ c ∈ conflicts, v ∈ c.vars) ∨ cell.state = .conflicted) := by
        simpa using clear
      simp only [none, iff_false]
      split <;> simp

theorem finalState_ne_tentative : finalState conflicts v x cell ≠ .tentative := by
  unfold finalState
  split
  · simp
  · split <;> simp

theorem unlisted_of_finalState (h : finalState conflicts v x cell ≠ .conflicted) :
    ∀ c ∈ conflicts, v ∉ c.vars :=
  fun c mem listed => h (finalState_eq_conflicted_iff.2 (.inl ⟨c, mem, listed⟩))

private theorem of_finalState_eq_unbound (h : finalState conflicts v x cell = .unbound) :
    x.isSettable = true ∧ cell.state ≠ .tentative ∧ cell.state ≠ .conflicted := by
  have free : cell.state ≠ .conflicted := fun conflicted => by
    rw [finalState_eq_conflicted_iff.2 (.inr conflicted)] at h
    cases h
  unfold finalState at h
  split at h
  · cases h
  · split at h
    · cases h
    · next idle => exact ⟨by simp_all, by simp_all, free⟩

end

namespace Completed

variable {p : Problem} {settled : Settled} {r : Resolution} {after : Store} {v : VarId}
  (h : Completed p settled r after)

include h

theorem exists_of_get? {y : Variable} (found : after.get? v = some y) :
    ∃ x cell, p.store.get? v = some x ∧ settled.cells[v.index]? = some cell ∧
      y = { x with value := cell.value, state := finalState r.conflicts v x cell } := by
  rw [h.after_eq, get?_commit, ← h.conflicts_eq] at found
  obtain ⟨x, original, found⟩ := Option.bind_eq_some_iff.1 found
  obtain ⟨cell, cell_eq, same⟩ := Option.map_eq_some_iff.1 found
  exact ⟨x, cell, original, cell_eq, same.symm⟩

theorem exists_get? {x : Variable} (found : p.store.get? v = some x) :
    ∃ cell, settled.cells[v.index]? = some cell ∧ after.get? v =
      some { x with value := cell.value, state := finalState r.conflicts v x cell } := by
  have inside : v.index < settled.cells.length := h.length_eq ▸ Store.index_lt_size found
  refine ⟨_, List.getElem?_eq_getElem inside, ?_⟩
  rw [h.after_eq, get?_commit, ← h.conflicts_eq, found, List.getElem?_eq_getElem inside]
  rfl

theorem holds_of_unlisted (unlisted : ∀ c ∈ r.conflicts, v ∉ c.vars) {q : Inequality}
    (mem : q ∈ p.constraints) (read : v ∈ q.vars) : q.holds after.valuation = true := by
  have satisfied : q.conflict? p.store after.valuation = none ↔ q.holds after.valuation = true :=
    Inequality.conflict?_eq_none_iff (h.hasValues mem)
  refine satisfied.1 (Option.eq_none_iff_forall_ne_some.2 fun c violated => ?_)
  have reported : c ∈ r.conflicts.filter (·.isViolation) := by
    rw [h.filter_isViolation]
    exact List.mem_filterMap.2 ⟨q, Problem.mem_constraints_iff.1 mem, violated⟩
  have vars := (Inequality.conflict?_eq_some violated).2
  exact unlisted c (List.mem_filter.1 reported).1 (vars ▸ read)

private theorem accepts_of_unlisted (unlisted : ∀ c ∈ r.conflicts, v ∉ c.vars)
    (checked : p.config.checkAcceptability = true) {x : Variable}
    (found : p.store.get? v = some x) (settable : x.isSettable = true) :
    (after.valuation v).any x.acceptance.accepts = true := by
  by_contra refused
  have reported : [v] ∈ (r.conflicts.filter (·.kind == .unacceptableResolution)).map (·.vars) := by
    rw [h.vars_unacceptable, if_pos checked]
    exact List.mem_map.2 ⟨(v, x), List.mem_filter.2 ⟨mem_entries_iff.2 found, by simp_all⟩, rfl⟩
  obtain ⟨c, listed, vars⟩ := List.mem_map.1 reported
  exact unlisted c (List.mem_filter.1 listed).1 (vars ▸ List.mem_singleton_self v)

private theorem exists_of_listed (defect : p.defect? = none) {c : Conflict} (mem : c ∈ r.conflicts)
    (listed : v ∈ c.vars) : ∃ x, p.store.get? v = some x := by
  have violated {qs : List Inequality} {σ : Valuation} (part : ∀ q ∈ qs, q ∈ p.constraints)
      (mem : c ∈ qs.filterMap (·.conflict? p.store σ)) : ∃ x, p.store.get? v = some x := by
    obtain ⟨q, mem, violated⟩ := List.mem_filterMap.1 mem
    rw [(Inequality.conflict?_eq_some violated).2] at listed
    exact Store.exists_of_contains (Problem.contains_of_mem_vars defect (part q mem) listed)
  rw [h.conflicts_eq] at mem
  simp only [conflictsOf, List.mem_append] at mem
  rcases mem with ((mem | mem) | mem) | mem
  · exact violated (fun q => (List.mem_filter.1 · |>.1)) mem
  · obtain ⟨w, changing, rfl⟩ := List.mem_map.1 mem
    obtain rfl := List.mem_singleton.1 listed
    obtain ⟨pass, reaches⟩ := h.reaches defect
    obtain ⟨x, found, -⟩ := Problem.exists_of_mem_active (reaches.changing_active v changing)
    exact ⟨x, found⟩
  · exact violated (fun q => (List.mem_filter.1 · |>.1)) mem
  · have reported : c.vars ∈
        (r.conflicts.filter (·.kind == .unacceptableResolution)).map (·.vars) := by
      rw [h.conflicts_eq, filter_unacceptable_conflictsOf]
      exact List.mem_map_of_mem mem
    rw [h.vars_unacceptable] at reported
    split at reported
    · obtain ⟨e, entry, vars⟩ := List.mem_map.1 reported
      rw [← vars] at listed
      obtain rfl := List.mem_singleton.1 listed
      exact ⟨e.2, mem_entries_iff.1 (List.mem_filter.1 entry).1⟩
    · cases reported

end Completed

end Run

/-! ## Counting states -/

theorem Report.counts_eq (r : Resolution) (store : Store) :
    let s := (ofResolution r store).summary
    s.totalVariables = store.size ∧
      s.resolvedCount = store.vars.countP (·.state = .resolved) ∧
      s.conflictedCount = store.vars.countP (·.state = .conflicted) ∧
      s.unboundCount = store.vars.countP (·.state = .unbound) := by
  have count (state : VarState) :
      ((store.vars.map VariableReport.ofVariable).filter (·.state == state)).length =
        store.vars.countP (·.state = state) := by
    rw [← List.countP_eq_length_filter, List.countP_map]
    rfl
  exact ⟨List.length_map _, count _, count _, count _⟩

private theorem sum_countP_states {xs : List Variable} (settled : ∀ x ∈ xs, x.state ≠ .tentative) :
    xs.countP (·.state = .resolved) + xs.countP (·.state = .conflicted) +
      xs.countP (·.state = .unbound) = xs.length := by
  induction xs with
  | nil => rfl
  | cons x xs ih =>
      obtain ⟨first, rest⟩ := List.forall_mem_cons.1 settled
      have counts := ih rest
      cases state : x.state with
      | tentative => exact absurd state first
      | unbound | resolved | conflicted =>
          simp only [List.countP_cons, state, List.length_cons]
          simp
          omega

namespace Problem

/-- Final states mean what they say.  Whatever the store, the inequalities and the settings, a
run that returns leaves no variable tentative; a resolved variable is read only by inequalities
that hold under the values left, and accepts its value if that is checked and it is settable;
an unbound one is settable, still has the value with which its mode starts, and is read only by
inequalities that hold; a variable is conflicted if and only if some conflict lists it or the run
has rejected it, and conflicts list no others than variables of the store.  A report counts the
variables of the store, each once and by its state. -/
theorem states_sound {p : Problem} {r : Resolution} {after : Store}
    (h : p.outcome.result = .ok (r, after)) :
    (∀ v y, after.get? v = some y → y.state ≠ .tentative ∧
      (y.state = .resolved →
        (∀ q ∈ p.constraints, v ∈ q.vars → q.holds after.valuation = true) ∧
        (p.config.checkAcceptability = true → y.isSettable = true →
          y.acceptance.accepts y.value = true)) ∧
      (y.state = .unbound →
        y.isSettable = true ∧
        y.value = (if y.declared.isUnknown then p.config.mode.start
          else Ty.fill p.config.mode.start y.declared) ∧
        ∀ q ∈ p.constraints, v ∈ q.vars → q.holds after.valuation = true) ∧
      (y.state = .conflicted ↔ (∃ c ∈ r.conflicts, v ∈ c.vars) ∨ Run.Rejects p v)) ∧
    (∀ c ∈ r.conflicts, ∀ v ∈ c.vars, ∃ y, after.get? v = some y ∧ y.state = .conflicted) ∧
    let s := (Report.ofResolution r after).summary
    s.totalVariables = p.store.size ∧
      s.resolvedCount = after.vars.countP (·.state = .resolved) ∧
      s.conflictedCount = after.vars.countP (·.state = .conflicted) ∧
      s.unboundCount = after.vars.countP (·.state = .unbound) ∧
      s.resolvedCount + s.conflictedCount + s.unboundCount = s.totalVariables := by
  obtain ⟨defect, settled, completed⟩ := completed_of_outcome h
  refine ⟨fun v y found => ?_, fun c mem v listed => ?_, ?_⟩
  · have value : after.valuation v = some y.value := by simp [Store.valuation, found]
    obtain ⟨x, cell, original, cell_eq, rfl⟩ := completed.exists_of_get? found
    refine ⟨Run.finalState_ne_tentative, fun resolved => ?_, fun unbound => ?_, ?_⟩
    · have clear := Run.unlisted_of_finalState (resolved.trans_ne (by decide))
      refine ⟨fun q => completed.holds_of_unlisted clear, fun checked settable => ?_⟩
      have accepted := completed.accepts_of_unlisted clear checked original settable
      rwa [value] at accepted
    · obtain ⟨settable, unmoved, free⟩ := Run.of_finalState_eq_unbound unbound
      have clear := Run.unlisted_of_finalState (unbound.trans_ne (by decide))
      obtain ⟨pass, reaches⟩ := completed.reaches defect
      refine ⟨settable, ?_, fun q => completed.holds_of_unlisted clear⟩
      simp [reaches.eq_start original cell_eq unmoved free, Cell.start, settable]
    · rw [Run.finalState_eq_conflicted_iff, completed.conflicted_iff defect original cell_eq]
  · obtain ⟨x, found⟩ := completed.exists_of_listed defect mem listed
    obtain ⟨cell, -, left⟩ := completed.exists_get? found
    exact ⟨_, left, Run.finalState_eq_conflicted_iff.2 (.inl ⟨c, mem, listed⟩)⟩
  · have settled : ∀ y ∈ after.vars, y.state ≠ .tentative := by
      intro y mem
      obtain ⟨i, found⟩ := List.mem_iff_getElem?.1 mem
      obtain ⟨x, cell, -, -, rfl⟩ := completed.exists_of_get? (v := ⟨i⟩) found
      exact Run.finalState_ne_tentative
    obtain ⟨total, resolved, conflicted, unbound⟩ := Report.counts_eq r after
    refine ⟨total.trans completed.size_after, resolved, conflicted, unbound, ?_⟩
    rw [total, resolved, conflicted, unbound]
    exact sum_countP_states settled

/-- Three variables: one between `general` and a number, one that nothing bounds, and one above
a number. -/
def threefold : Problem where
  config := { checkAcceptability := false }
  store := ⟨[{ owner := "x", declared := .unknown, value := .unknown },
    { owner := "y", declared := .unknown, value := .unknown },
    { owner := "z", declared := .unknown, value := .unknown }]⟩
  constraints := [⟨.const .general, .var ⟨0⟩⟩, ⟨.var ⟨0⟩, .const (.base .int)⟩,
    ⟨.const (.base .int), .var ⟨2⟩⟩]

theorem states_sound_threefold :
    ∃ r after x y z, threefold.outcome.result = .ok (r, after) ∧ after.vars = [x, y, z] ∧
      x.state = .conflicted ∧ (∃ c ∈ r.conflicts, ⟨0⟩ ∈ c.vars) ∧
      y.state = .unbound ∧ y.value = .unknown ∧
      z.state = .resolved ∧
        (Inequality.mk (.const (.base .int)) (.var ⟨2⟩)).holds after.valuation = true ∧
      let s := (Report.ofResolution r after).summary
      s.totalVariables = 3 ∧ s.resolvedCount = 1 ∧ s.conflictedCount = 1 ∧ s.unboundCount = 1 := by
  have verdict : (threefold.outcome.result.toOption.any fun o =>
      o.2.vars.map (fun x => (x.state, x.declared.isUnknown)) =
        [(.conflicted, true), (.unbound, true), (.resolved, true)]) = true := by
    decide +kernel
  obtain ⟨r, after, h, test⟩ := exists_of_verdict verdict
  have left := of_decide_eq_true test
  simp only [List.map_eq_cons_iff, List.map_eq_nil_iff, Prod.mk.injEq] at left
  obtain ⟨x, _, vars, ⟨conflicted, -⟩, y, _, rfl, ⟨unbound, unknown⟩, z, _, rfl,
    ⟨resolved, -⟩, rfl⟩ := left
  obtain ⟨sound, -, total, counts⟩ := states_sound h
  obtain ⟨-, -, -, blamed⟩ := sound ⟨0⟩ x (by simp [Store.get?, vars])
  obtain ⟨-, -, idle, -⟩ := sound ⟨1⟩ y (by simp [Store.get?, vars])
  obtain ⟨-, met, -⟩ := sound ⟨2⟩ z (by simp [Store.get?, vars])
  rw [vars] at counts
  refine ⟨r, after, x, y, z, h, vars, conflicted, ?_, unbound, ?_, resolved, ?_, total, ?_⟩
  · refine (blamed.1 conflicted).resolve_right fun rejects => ?_
    cases rejects.isUnknown_eq_false rfl
  · exact (idle unbound).2.1.trans (if_pos unknown)
  · exact (met resolved).1 _ (by simp [threefold]) (by decide)
  · obtain ⟨one, two, three, -⟩ := counts
    simp only [one, two, three, List.countP_cons, List.countP_nil, conflicted, unbound, resolved]
    decide

end Problem

end DataflowTypes
