import DataflowTypes.Proofs.Solver.Outcome

/-!
# Conflicts

The conflicts of a run against the values it leaves behind.  Inequalities without a
settable variable are judged before the passes and all others after them; no pass moves
what the former read, so both are judged on the final values.  Main statement: the
conflicts are exactly the inequalities that the final values violate, the variables
that were still changing, and the settable variables with a value they do not accept.
-/

namespace DataflowTypes

def Conflict.isViolation (c : Conflict) : Bool :=
  c.kind == .structuralMismatch || c.kind == .unsatisfiedConstraint

namespace Inequality

variable {store : Store} {σ τ : Valuation} {q : Inequality}

theorem conflict?_eq_some {c : Conflict} (h : q.conflict? store σ = some c) :
    c.isViolation = true ∧ c.vars = q.vars := by
  unfold conflict? at h
  split at h
  · next a b _ _ =>
      split at h
      · cases h
      · cases h
        refine ⟨?_, rfl⟩
        cases mismatch : isStructuralMismatch a b <;>
          simp [Conflict.isViolation, Run.violation, mismatch]
  · cases h

theorem conflict?_eq_none_iff (values : q.HasValues σ) :
    q.conflict? store σ = none ↔ q.holds σ = true := by
  obtain ⟨⟨a, ha⟩, b, hb⟩ := values
  simp [conflict?, holds, ha, hb]

private theorem conflict?_congr (agree : ∀ v ∈ q.vars, σ v = τ v) :
    q.conflict? store σ = q.conflict? store τ := by
  rw [conflict?, lesser_value_congr agree, greater_value_congr agree, conflict?]

private theorem vars_filterMap_conflict? {qs : List Inequality} (values : ∀ q ∈ qs, q.HasValues σ) :
    (qs.filterMap (·.conflict? store σ)).map (·.vars) =
      (qs.filter (!·.holds σ)).map (·.vars) := by
  induction qs with
  | nil => rfl
  | cons q qs ih =>
      obtain ⟨first, rest⟩ := List.forall_mem_cons.1 values
      cases found : q.conflict? store σ with
      | none =>
          have holds := (conflict?_eq_none_iff first).1 found
          simp [found, holds, ih rest]
      | some c =>
          have violated : q.holds σ = false := by
            cases holds : q.holds σ with
            | false => rfl
            | true => simp [(conflict?_eq_none_iff first).2 holds] at found
          simp [found, violated, ih rest, (conflict?_eq_some found).2]

end Inequality

namespace Problem

theorem mem_constraints_iff {p : Problem} {q : Inequality} :
    q ∈ p.constraints ↔ q ∈ p.fixedConstraints ++ p.openConstraints := by
  simp only [List.mem_append, fixedConstraints, openConstraints, List.mem_filter]
  cases q.readsSettable p.store <;> simp

theorem isSettable_eq_false {p : Problem} {q : Inequality} (mem : q ∈ p.fixedConstraints)
    {v : VarId} (read : v ∈ q.vars) : p.store.isSettable v = false := by
  simp only [fixedConstraints, List.mem_filter, Inequality.readsSettable, Bool.not_eq_true',
    List.any_eq_false, Bool.not_eq_true] at mem
  exact mem.2 v read

end Problem

namespace Run

theorem kind_of_mem_divergence {store : Store} {s : Settled} {c : Conflict}
    (mem : c ∈ divergenceConflicts store s) : c.kind = .nonConvergent := by
  obtain ⟨v, -, rfl⟩ := List.mem_map.1 mem
  rfl

theorem kind_of_mem_unacceptable {p : Problem} {cells : List Cell} {c : Conflict}
    (mem : c ∈ unacceptable p cells) : c.kind = .unacceptableResolution := by
  obtain ⟨e, listed, rfl⟩ := List.mem_map.1 mem
  split at listed
  · obtain ⟨⟨⟨v, x⟩, cell⟩, -, found⟩ := List.mem_filterMap.1 listed
    dsimp only at found
    split at found
    · cases found
      rfl
    · cases found
  · cases listed

theorem isViolation_of_mem {store : Store} {σ : Valuation} {qs : List Inequality} {c : Conflict}
    (mem : c ∈ qs.filterMap (·.conflict? store σ)) : c.isViolation = true := by
  obtain ⟨q, -, found⟩ := List.mem_filterMap.1 mem
  exact (Inequality.conflict?_eq_some found).1

private theorem valuation_of_mem_zip {store : Store} {cells : List Cell} {v : VarId} {x : Variable}
    {cell : Cell} (mem : ((v, x), cell) ∈ store.entries.zip cells) :
    valuation cells v = some cell.value := by
  obtain ⟨i, found⟩ := List.mem_iff_getElem?.1 mem
  obtain ⟨entry, here⟩ := List.getElem?_zip_eq_some.1 found
  rw [getElem?_entries] at entry
  obtain ⟨y, -, same⟩ := Option.map_eq_some_iff.1 entry
  obtain ⟨rfl, rfl⟩ := Prod.mk.inj same
  simp [valuation, here]

private theorem vars_acceptabilityConflicts {store : Store} {cells : List Cell}
    (length : cells.length = store.size) :
    (acceptabilityConflicts store cells).map (·.1.vars) =
      (store.entries.filter fun e =>
        e.2.isSettable && !(valuation cells e.1).any e.2.acceptance.accepts).map
          fun e => [e.1] := by
  have whole : store.entries = (store.entries.zip cells).map (·.1) := by
    rw [List.map_fst_zip]
    simp [Store.entries, length, Store.size]
  conv_rhs => rw [whole]
  rw [acceptabilityConflicts, ← List.filterMap_eq_filter, List.map_filterMap, List.map_filterMap,
    List.filterMap_map]
  refine List.filterMap_congr ?_
  rintro ⟨⟨v, x⟩, cell⟩ mem
  simp [Option.guard, valuation_of_mem_zip mem]

variable (p : Problem) (settled : Settled)

theorem filter_isViolation_conflictsOf :
    (conflictsOf p settled).filter (·.isViolation) =
      p.fixedConstraints.filterMap (·.conflict? p.store (valuation (startCells p))) ++
        p.openConstraints.filterMap (·.conflict? p.store (valuation settled.cells)) := by
  have diverging : (divergenceConflicts p.store settled).filter (·.isViolation) = [] := by
    rw [List.filter_eq_nil_iff]
    intro c mem
    simp [Conflict.isViolation, kind_of_mem_divergence mem]
  have rejected : (unacceptable p settled.cells).filter (·.isViolation) = [] := by
    rw [List.filter_eq_nil_iff]
    intro c mem
    simp [Conflict.isViolation, kind_of_mem_unacceptable mem]
  simp only [conflictsOf, List.filter_append, diverging, rejected, List.append_nil]
  rw [List.filter_eq_self.2 fun _ => isViolation_of_mem,
    List.filter_eq_self.2 fun _ => isViolation_of_mem]

theorem filter_violations_eq_nil (kind : ConflictKind)
    (other : kind ≠ .structuralMismatch ∧ kind ≠ .unsatisfiedConstraint) (qs : List Inequality)
    (σ : Valuation) :
    (qs.filterMap (·.conflict? p.store σ)).filter (·.kind == kind) = [] := by
  rw [List.filter_eq_nil_iff]
  intro c mem same
  have violation := isViolation_of_mem mem
  simp [Conflict.isViolation, beq_iff_eq.1 same, other] at violation

theorem filter_unacceptable_conflictsOf :
    (conflictsOf p settled).filter (·.kind == .unacceptableResolution) =
      unacceptable p settled.cells := by
  have diverging :
      (divergenceConflicts p.store settled).filter (·.kind == .unacceptableResolution) = [] := by
    rw [List.filter_eq_nil_iff]
    intro c mem
    simp [kind_of_mem_divergence mem]
  have violated := filter_violations_eq_nil p .unacceptableResolution (by decide)
  simp only [conflictsOf, List.filter_append, violated, diverging, List.nil_append]
  rw [List.filter_eq_self]
  intro c mem
  simp [kind_of_mem_unacceptable mem]

theorem filter_nonConvergent_conflictsOf :
    (conflictsOf p settled).filter (·.kind == .nonConvergent) =
      divergenceConflicts p.store settled := by
  have rejected : (unacceptable p settled.cells).filter (·.kind == .nonConvergent) = [] := by
    rw [List.filter_eq_nil_iff]
    intro c mem
    simp [kind_of_mem_unacceptable mem]
  have violated := filter_violations_eq_nil p .nonConvergent (by decide)
  simp only [conflictsOf, List.filter_append, violated, rejected, List.nil_append, List.append_nil]
  rw [List.filter_eq_self]
  intro c mem
  simp [kind_of_mem_divergence mem]

private theorem exists_nonConvergent_iff :
    (∃ c ∈ conflictsOf p settled, c.kind = .nonConvergent) ↔ settled.changing ≠ [] := by
  have listed : (∃ c ∈ conflictsOf p settled, c.kind = .nonConvergent) ↔
      (conflictsOf p settled).filter (·.kind == .nonConvergent) ≠ [] := by
    simp [List.filter_eq_nil_iff]
  rw [listed, filter_nonConvergent_conflictsOf, divergenceConflicts, ne_eq, List.map_eq_nil_iff]

namespace Completed

variable {p settled} {r : Resolution} {after : Store} (h : Completed p settled r after)

include h

theorem hasValues {q : Inequality} (mem : q ∈ p.constraints) : q.HasValues after.valuation := by
  rcases List.mem_append.1 (Problem.mem_constraints_iff.1 mem) with mem | mem
  · have agree : ∀ v ∈ q.vars, after.valuation v = valuation (startCells p) v :=
      fun v read => h.pinned (Problem.isSettable_eq_false mem read)
    exact (Inequality.hasValues_congr agree).2 (h.fixed q mem)
  · rw [h.valuation_eq]
    exact h.opened q mem

/-- What was judged before the passes would be judged the same after them. -/
theorem fixed_conflicts :
    p.fixedConstraints.filterMap (·.conflict? p.store (valuation (startCells p))) =
      p.fixedConstraints.filterMap (·.conflict? p.store after.valuation) := by
  refine List.filterMap_congr fun q mem => Inequality.conflict?_congr fun v read => ?_
  exact (h.pinned (Problem.isSettable_eq_false mem read)).symm

theorem filter_isViolation : r.conflicts.filter (·.isViolation) =
    (p.fixedConstraints ++ p.openConstraints).filterMap (·.conflict? p.store after.valuation) := by
  rw [h.conflicts_eq, filter_isViolation_conflictsOf, List.filterMap_append, h.fixed_conflicts,
    h.valuation_eq]

theorem vars_unacceptable :
    (r.conflicts.filter (·.kind == .unacceptableResolution)).map (·.vars) =
      if p.config.checkAcceptability then
        (p.store.entries.filter fun e =>
          e.2.isSettable && !(after.valuation e.1).any e.2.acceptance.accepts).map fun e => [e.1]
      else [] := by
  rw [h.conflicts_eq, filter_unacceptable_conflictsOf, unacceptable, h.valuation_eq]
  split
  · rw [List.map_map]
    exact vars_acceptabilityConflicts h.length_eq
  · rfl

theorem isSuccess_iff : r.isSuccess = true ↔
    r.converged = true ∧ (∀ q ∈ p.constraints, q.holds after.valuation = true) ∧
      (p.config.checkAcceptability = true → ∀ v x, p.store.get? v = some x →
        x.isSettable = true → (after.valuation v).any x.acceptance.accepts = true) := by
  have parts : r.isSuccess = true ↔ r.conflicts.filter (·.isViolation) = [] ∧
      settled.changing = [] ∧
      (r.conflicts.filter (·.kind == .unacceptableResolution)).map (·.vars) = [] := by
    rw [h.conflicts_eq, filter_isViolation_conflictsOf, filter_unacceptable_conflictsOf,
      Resolution.isSuccess, h.conflicts_eq, List.isEmpty_iff]
    simp only [conflictsOf, divergenceConflicts, List.append_eq_nil_iff, List.map_eq_nil_iff]
    tauto
  have satisfied : r.conflicts.filter (·.isViolation) = [] ↔
      ∀ q ∈ p.constraints, q.holds after.valuation = true := by
    rw [h.filter_isViolation, List.filterMap_eq_nil_iff]
    simp only [← Problem.mem_constraints_iff]
    exact forall₂_congr fun q mem => Inequality.conflict?_eq_none_iff (h.hasValues mem)
  have accepted : (r.conflicts.filter (·.kind == .unacceptableResolution)).map (·.vars) = [] ↔
      (p.config.checkAcceptability = true → ∀ v x, p.store.get? v = some x →
        x.isSettable = true → (after.valuation v).any x.acceptance.accepts = true) := by
    rw [h.vars_unacceptable]
    split
    · next checked => simp [checked, mem_entries_iff]
    · next unchecked => simp [unchecked]
  rw [parts, satisfied, accepted, h.converged_eq, List.isEmpty_iff]
  tauto

end Completed

end Run

/-- Conflicts are reported exactly.  Whatever the store, the inequalities and the mode, a
run that returns leaves values under which both sides of every inequality have a value.
There is one conflict for each inequality that these values violate, with its variables,
first for those without a settable variable and then for the others, in order; some
variable is reported as not convergent if and only if the run did not converge; and the
values reported as unacceptable are those of the settable variables that do not accept
them, none if that is not checked. -/
theorem Problem.conflicts_exact {p : Problem} {r : Resolution} {after : Store}
    (h : p.outcome.result = .ok (r, after)) :
    (∀ q ∈ p.constraints, q.HasValues after.valuation) ∧
      r.conflicts.filter (·.isViolation) =
        (p.fixedConstraints ++ p.openConstraints).filterMap
          (·.conflict? p.store after.valuation) ∧
      (r.conflicts.filter (·.isViolation)).map (·.vars) =
        ((p.fixedConstraints ++ p.openConstraints).filter
          (!·.holds after.valuation)).map (·.vars) ∧
      ((∃ c ∈ r.conflicts, c.kind = .nonConvergent) ↔ r.converged = false) ∧
      ((r.conflicts.filter (·.kind == .unacceptableResolution)).map (·.vars) =
        if p.config.checkAcceptability then
          (p.store.entries.filter fun e =>
            e.2.isSettable && !(after.valuation e.1).any e.2.acceptance.accepts).map fun e => [e.1]
        else []) ∧
      (r.isSuccess = true ↔
        r.converged = true ∧ (∀ q ∈ p.constraints, q.holds after.valuation = true) ∧
          (p.config.checkAcceptability = true → ∀ v x, p.store.get? v = some x →
            x.isSettable = true → (after.valuation v).any x.acceptance.accepts = true)) := by
  obtain ⟨-, settled, completed⟩ := completed_of_outcome h
  refine ⟨fun q => completed.hasValues, completed.filter_isViolation, ?_, ?_,
    completed.vars_unacceptable, completed.isSuccess_iff⟩
  · rw [completed.filter_isViolation]
    refine Inequality.vars_filterMap_conflict? fun q mem => ?_
    exact completed.hasValues (mem_constraints_iff.2 mem)
  · rw [completed.conflicts_eq, Run.exists_nonConvergent_iff, completed.converged_eq,
      List.isEmpty_eq_false_iff]

def Problem.clash : Problem where
  config := {}
  store := ⟨[{ owner := "x", declared := .unknown, value := .unknown }]⟩
  constraints := [⟨.const .general, .var ⟨0⟩⟩, ⟨.var ⟨0⟩, .const (.base .int)⟩]

theorem Problem.conflicts_exact_clash :
    ∃ r after, clash.outcome.result = .ok (r, after) ∧ r.isSuccess = false ∧
      ∃ c ∈ r.conflicts, c.isViolation = true ∧ c.vars = [⟨0⟩] := by
  have builtIn : ∀ q ∈ clash.constraints, q.IsBuiltIn := by
    simp [clash, Inequality.IsBuiltIn, Term.IsBuiltIn]
  obtain ⟨r, after, h⟩ := exists_outcome rfl (evaluable_of_builtIn rfl builtIn)
  obtain ⟨-, -, vars, -, -, success⟩ := conflicts_exact h
  have unsatisfiable : ¬∀ q ∈ clash.constraints, q.holds after.valuation = true := by
    intro all
    obtain ⟨_, a, ⟨⟩, value, lower⟩ := Inequality.holds_iff.1 (all _ (List.mem_cons_self ..))
    obtain ⟨b, _, value', ⟨⟩, upper⟩ :=
      Inequality.holds_iff.1 (all _ (List.mem_cons_of_mem _ (List.mem_singleton_self _)))
    obtain rfl : a = b := Except.ok.inj (value.symm.trans value')
    have through := (Ty.le_iff_below.1 lower).trans (Ty.le_iff_below.1 upper)
    cases Ty.general_below_iff.1 through
  have failed : r.isSuccess = false :=
    Bool.eq_false_iff.2 fun h => unsatisfiable (success.1 h).2.1
  obtain ⟨q, mem, violated⟩ : ∃ q ∈ clash.constraints, q.holds after.valuation = false := by
    simpa using unsatisfiable
  have reads : q.vars = [⟨0⟩] := by
    rcases List.mem_cons.1 mem with rfl | mem
    · rfl
    · rw [List.mem_singleton.1 mem]
      rfl
  have reported : [⟨0⟩] ∈ (r.conflicts.filter (·.isViolation)).map (·.vars) := by
    rw [vars, List.mem_map]
    exact ⟨q, List.mem_filter.2 ⟨mem_constraints_iff.1 mem, by simp [violated]⟩, reads⟩
  obtain ⟨c, listed, same⟩ := List.mem_map.1 reported
  obtain ⟨listed, violation⟩ := List.mem_filter.1 listed
  exact ⟨r, after, h, failed, c, listed, violation, same⟩

end DataflowTypes
