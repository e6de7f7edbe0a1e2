import DataflowTypes.Proofs.Solver.Directed

/-!
# Runs that come to rest

A pass in which no value changes has looked at every variable with the values that the run
leaves.  Main statement: a converged run satisfies every inequality that moves a variable,
unless the variable was rejected on the way; and variables declared with `unknown` are never
rejected.
-/

namespace DataflowTypes

namespace Run

private theorem Move.eq_refuse {m : Move} {cell : Cell} (free : cell.state ≠ .conflicted)
    (conflicted : (m.after cell).state = .conflicted) : ∃ candidate, m = .refuse candidate := by
  cases m with
  | stay => exact absurd conflicted free
  | goTo value => cases conflicted
  | refuse candidate => exact ⟨candidate, rfl⟩

/-- The run rejects the variable: it comes to a point where the variable is moved next, and
where the bounds lead to a candidate that does not fit the declared form. -/
def Rejects (p : Problem) (v : VarId) : Prop :=
  ∃ pt waiting cell x bounds candidate, Reaches p pt ∧ pt.waiting = v :: waiting ∧
    Turn p pt.cells v cell x bounds ∧
    Id.run (move Lattice.plain p.config.mode x.declared cell bounds) = .refuse candidate ∧
    conform x.declared candidate = none

theorem Rejects.isUnknown_eq_false {p : Problem} {v : VarId} {x : Variable} (h : Rejects p v)
    (found : p.store.get? v = some x) : x.declared.isUnknown = false := by
  obtain ⟨pt, waiting, cell, y, bounds, candidate, -, -, turn, -, unfit⟩ := h
  obtain rfl := Option.some.inj (found.symm.trans turn.variable_eq)
  by_contra unknown
  simp [conform_unknown (by simpa using unknown)] at unfit

section

variable {p : Problem} {pt : Point} {v : VarId}

private theorem Reaches.rejects_of_step {pass : Nat} {waiting changing : List VarId}
    {cells cells' : List Cell} {changed : Bool} {t t' : List Diagnostic} {old new : Cell}
    (h : Reaches p ⟨pass, v :: waiting, changing, cells⟩)
    (step : Yields (step Lattice.plain p cells v) t (cells', changed) t')
    (before : cells[v.index]? = some old) (after : cells'[v.index]? = some new)
    (free : old.state ≠ .conflicted) (conflicted : new.state = .conflicted) : Rejects p v := by
  obtain ⟨x, found, -⟩ := Problem.exists_of_mem_active (h.mem_active v List.mem_cons_self)
  obtain ⟨bounds, turn, rfl⟩ := step_eq before found free step
  have inside : v.index < cells.length := (List.getElem?_eq_some_iff.1 before).1
  rw [List.getElem?_set_self inside] at after
  obtain rfl := Option.some.inj after
  obtain ⟨candidate, refused⟩ := Move.eq_refuse free conflicted
  have moves := moves_move p.config.mode x.declared old bounds
  rw [refused] at moves
  cases moves with
  | refuse unfit _ => exact ⟨_, waiting, old, x, bounds, _, h, rfl, turn, refused, unfit⟩

theorem Reaches.rejects_of_conflicted (h : Reaches p pt) {x : Variable} {cell : Cell}
    (found : p.store.get? v = some x) (after : pt.cells[v.index]? = some cell)
    (conflicted : cell.state = .conflicted) : Rejects p v := by
  induction h generalizing cell with
  | refl =>
      obtain rfl := Option.some.inj ((getElem?_startCells found).symm.trans after)
      cases conflicted
  | tail reached last ih =>
      cases last with
      | again => exact ih after conflicted
      | @move pass w waiting changing cells cells' changed t t' step =>
          obtain ⟨old, before⟩ := Reaches.exists_cell reached found
          by_cases old_conflicted : old.state = .conflicted
          · exact ih before old_conflicted
          · obtain ⟨ds, steps, -⟩ := steps_of_yields step
            by_cases same : w = v
            · subst same
              exact Reaches.rejects_of_step reached step before after old_conflicted conflicted
            · have other : w.index ≠ v.index := fun index => same (congrArg VarId.mk index)
              rw [steps.getElem?_eq other, before] at after
              exact absurd (Option.some.inj after ▸ conflicted) old_conflicted

/-- What a run rejects keeps its value to the end, and is marked. -/
theorem Completed.refused {settled : Settled} {r : Resolution} {after : Store}
    (h : Completed p settled r after) (defect : p.defect? = none) (reached : Reaches p pt)
    {waiting : List VarId} (next : pt.waiting = v :: waiting) {cell : Cell} {x : Variable}
    {bounds : List Ty} (turn : Turn p pt.cells v cell x bounds) {candidate : Ty}
    (refused : Id.run (move Lattice.plain p.config.mode x.declared cell bounds) =
      .refuse candidate) :
    settled.cells[v.index]? = some { cell with state := .conflicted } := by
  obtain ⟨pass, leads⟩ := h.leads defect reached
  rcases leads.cases_head with rfl | ⟨pt', first, rest⟩
  · cases next
  · cases first with
    | again => cases next
    | @move pass w others changing cells cells' changed t t' step =>
        obtain ⟨rfl, rfl⟩ := List.cons.inj next
        obtain ⟨bounds', turn', rfl⟩ := step_eq turn.cell_eq turn.variable_eq turn.free step
        obtain rfl := Except.ok.inj (turn.bounds_eq.symm.trans turn'.bounds_eq)
        have inside : w.index < cells.length := (List.getElem?_eq_some_iff.1 turn.cell_eq).1
        rw [refused] at rest
        exact Leads.conflicted rest (List.getElem?_set_self inside) rfl

theorem Completed.conflicted_iff {settled : Settled} {r : Resolution} {after : Store}
    (h : Completed p settled r after) (defect : p.defect? = none) {x : Variable} {cell : Cell}
    (found : p.store.get? v = some x) (cell_eq : settled.cells[v.index]? = some cell) :
    cell.state = .conflicted ↔ Rejects p v := by
  obtain ⟨pass, reaches⟩ := h.reaches defect
  constructor
  · exact reaches.rejects_of_conflicted found cell_eq
  · rintro ⟨pt, waiting, old, y, bounds, candidate, reached, next, turn, refused, -⟩
    have marked := h.refused defect reached next turn refused
    obtain rfl := Option.some.inj (cell_eq.symm.trans marked)
    rfl

end

end Run

namespace Problem

/-- A converged run satisfies every driving inequality that it could.  In either mode, whatever
the declared types and the operators, an inequality whose driven side is a settable variable
holds under the values that the run leaves, unless the run rejected the variable; so it holds
whenever the variable is declared with `unknown`. -/
theorem converged_holds {p : Problem} {r : Resolution} {after : Store}
    (h : p.outcome.result = .ok (r, after)) (converged : r.converged = true) {q : Inequality}
    (mem : q ∈ p.constraints) {v : VarId} (driven : q.driven p.config.mode = .var v)
    (settable : p.store.isSettable v = true) :
    (q.holds after.valuation = true ∨ Run.Rejects p v) ∧
      ∀ x, p.store.get? v = some x → x.declared.isUnknown = true →
        q.holds after.valuation = true := by
  obtain ⟨defect, settled, completed⟩ := completed_of_outcome h
  obtain ⟨pass, reaches⟩ := completed.reaches defect
  have quiet : settled.changing = [] := by simpa [completed.converged_eq] using converged
  have listed := mem_driving_iff.2 ⟨settable, mem, driven⟩
  have active := mem_active_iff.2 ⟨q, listed⟩
  have met : q.holds after.valuation = true ∨ Run.Rejects p v := by
    obtain ⟨x, found, -⟩ := exists_of_mem_active active
    obtain ⟨cell, cell_eq⟩ := reaches.exists_cell found
    rw [completed.valuation_eq]
    by_cases conflicted : cell.state = .conflicted
    · exact .inr (reaches.rejects_of_conflicted found cell_eq conflicted)
    · exact .inl ((reaches.rests quiet active (by simp) cell_eq conflicted).holds listed)
  refine ⟨met, fun x found unknown => met.resolve_right fun rejects => ?_⟩
  simp [rejects.isUnknown_eq_false found] at unknown

theorem converged_holds_misfit :
    ∃ r after, misfit.outcome.result = .ok (r, after) ∧ r.converged = true ∧
      Run.Rejects misfit ⟨0⟩ ∧
      (Inequality.mk (.var ⟨0⟩) (.var ⟨1⟩)).holds after.valuation = true := by
  have verdict : (misfit.outcome.result.toOption.any fun o => o.1.converged &&
      !(Inequality.mk (.const (.arrayOf (.base .int) (some 2))) (.var ⟨0⟩)).holds
        o.2.valuation) = true := by
    decide +kernel
  cases h : misfit.outcome.result with
  | error e =>
      rw [h] at verdict
      cases verdict
  | ok o =>
      rw [h] at verdict
      obtain ⟨converged, violated⟩ := Bool.and_eq_true_iff.1 verdict
      have first := converged_holds h converged List.mem_cons_self (v := ⟨0⟩) rfl rfl
      have second := converged_holds h converged (List.mem_cons_of_mem _ List.mem_cons_self)
        (v := ⟨1⟩) rfl rfl
      rw [Bool.not_eq_eq_eq_not.1 violated] at first
      exact ⟨o.1, o.2, rfl, converged, first.1.resolve_left nofun, second.2 _ rfl rfl⟩

end Problem

end DataflowTypes
