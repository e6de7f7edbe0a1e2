import DataflowTypes.Proofs.Solver.Run

/-!
# Whole runs

What a complete run consists of, and when there is one: a problem whose inequalities
have values as long as the variables of its store have does not fail.  The store after
a run has the values with which the passes ended.
-/

namespace DataflowTypes

theorem Store.index_lt_size {s : Store} {v : VarId} {x : Variable} (found : s.get? v = some x) :
    v.index < s.size :=
  (List.getElem?_eq_some_iff.1 found).1

theorem Store.isSettable_eq {s : Store} {v : VarId} {x : Variable} (found : s.get? v = some x) :
    s.isSettable v = x.isSettable := by
  simp [isSettable, found]

theorem Store.exists_of_contains {s : Store} {v : VarId} (h : s.contains v = true) :
    ∃ x, s.get? v = some x :=
  ⟨_, List.getElem?_eq_getElem (of_decide_eq_true h)⟩

namespace Problem

/-- The outcome of resolving a problem, each comparison computed anew. -/
def outcome (p : Problem) : Outcome := Id.run (p.resolve Lattice.plain)

/-- The inequalities have values wherever the variables of the store have. -/
def Evaluable (p : Problem) : Prop :=
  ∀ σ : Valuation, (∀ v, p.store.contains v = true → (σ v).isSome = true) →
    ∀ q ∈ p.constraints, q.HasValues σ

theorem mem_driving_iff {p : Problem} {v : VarId} {q : Inequality} :
    q ∈ p.driving v ↔
      p.store.isSettable v = true ∧ q ∈ p.constraints ∧ q.driven p.config.mode = .var v := by
  have driven : (q.driven p.config.mode).var? == some v ↔ q.driven p.config.mode = .var v := by
    cases q.driven p.config.mode <;> simp [Term.var?]
  unfold driving
  split
  · next settable => simp [settable, driven]
  · next fixed => simp [fixed]

theorem mem_active_iff {p : Problem} {v : VarId} : v ∈ p.active ↔ ∃ q, q ∈ p.driving v := by
  simp only [active, List.mem_filter, Bool.not_eq_true', List.isEmpty_eq_false_iff]
  constructor
  · rintro ⟨-, some⟩
    exact List.exists_mem_of_ne_nil _ some
  · rintro ⟨q, mem⟩
    have settable := (mem_driving_iff.1 mem).1
    obtain ⟨x, found, -⟩ := (Option.any_eq_true _ _).1 settable
    have inside := List.mem_range.2 (Store.index_lt_size found)
    exact ⟨List.mem_map.2 ⟨v.index, inside, rfl⟩, List.ne_nil_of_mem mem⟩

theorem isSettable_of_mem_active {p : Problem} {v : VarId} (h : v ∈ p.active) :
    p.store.isSettable v = true := by
  obtain ⟨q, mem⟩ := mem_active_iff.1 h
  exact (mem_driving_iff.1 mem).1

theorem exists_of_mem_active {p : Problem} {v : VarId} (h : v ∈ p.active) :
    ∃ x, p.store.get? v = some x ∧ x.isSettable = true :=
  (Option.any_eq_true _ _).1 (isSettable_of_mem_active h)

end Problem

theorem Problem.defect?_eq_none_iff {p : Problem} :
    p.defect? = none ↔ p.config.maxPasses ≠ 0 ∧
      ∀ q ∈ p.constraints, ∀ v ∈ q.vars, p.store.contains v = true := by
  by_cases none : p.config.maxPasses = 0
  · simp [Problem.defect?, none]
  · simp [Problem.defect?, Problem.missing?, none]

section

variable {p : Problem} (defect : p.defect? = none)

include defect

theorem Problem.maxPasses_ne_zero : p.config.maxPasses ≠ 0 := (defect?_eq_none_iff.1 defect).1

theorem Problem.contains_of_mem_vars {q : Inequality} (mem : q ∈ p.constraints) {v : VarId}
    (read : v ∈ q.vars) : p.store.contains v = true :=
  (defect?_eq_none_iff.1 defect).2 q mem v read

end

def Inequality.IsBuiltIn (q : Inequality) : Prop := q.lesser.IsBuiltIn ∧ q.greater.IsBuiltIn

theorem Problem.evaluable_of_builtIn {p : Problem} (defect : p.defect? = none)
    (builtIn : ∀ q ∈ p.constraints, q.IsBuiltIn) : p.Evaluable := by
  intro σ known q mem
  have read (v : VarId) (h : v ∈ q.vars) : (σ v).isSome = true :=
    known v (contains_of_mem_vars defect mem h)
  constructor
  · exact Term.exists_value (builtIn q mem).1 fun v h => read v (Inequality.mem_vars.2 (.inl h))
  · exact Term.exists_value (builtIn q mem).2 fun v h => read v (Inequality.mem_vars.2 (.inr h))

theorem Inequality.mem_vars_of_bound {q : Inequality} {mode : SolveMode} {v : VarId}
    (read : v ∈ (q.bound mode).vars) : v ∈ q.vars := by
  cases mode with
  | least => exact mem_vars.2 (.inl read)
  | greatest => exact mem_vars.2 (.inr read)

theorem Inequality.HasValues.bound {σ : Valuation} {q : Inequality} (h : q.HasValues σ)
    (mode : SolveMode) : ∃ a, (q.bound mode).value σ = .ok a := by
  cases mode with
  | least => exact h.1
  | greatest => exact h.2

namespace Run

def startCells (p : Problem) : List Cell := p.store.vars.map (Cell.start p.config.mode)

theorem length_startCells (p : Problem) : (startCells p).length = p.store.size := by
  simp [startCells, Store.size]

theorem getElem?_startCells {p : Problem} {v : VarId} {x : Variable}
    (found : p.store.get? v = some x) :
    (startCells p)[v.index]? = some (Cell.start p.config.mode x) := by
  rw [startCells, List.getElem?_map]
  exact congrArg (Option.map _) found

theorem exists_of_valuation_start {p : Problem} {v : VarId} {t : Ty}
    (value : valuation (startCells p) v = some t) :
    ∃ x, p.store.get? v = some x ∧ (Cell.start p.config.mode x).value = t := by
  simpa [valuation, startCells, Store.get?] using value

/-! ## Runs that do not fail -/

section

variable {p : Problem} {vs : List VarId} {cells : List Cell}

theorem isSome_valuation (length : cells.length = p.store.size) (v : VarId)
    (h : p.store.contains v = true) : (valuation cells v).isSome = true := by
  have bound : v.index < cells.length := by
    simpa [Store.contains, Store.size, length] using h
  simp [valuation, bound]

theorem step_returns (evaluable : p.Evaluable) (length : cells.length = p.store.size)
    (v : VarId) : Returns (step Lattice.plain p cells v) := by
  unfold step
  split
  · split
    · exact returns_pure _
    · have values : ∀ q ∈ p.driving v,
          ∃ a, (q.bound p.config.mode).value (valuation cells) = .ok a := by
        intro q mem
        obtain ⟨-, mem, -⟩ := Problem.mem_driving_iff.1 mem
        exact (evaluable _ (isSome_valuation length) q mem).bound _
      obtain ⟨bounds, bounds_eq⟩ := exists_mapM_eq_ok values
      have given := Gives.mapM (fun q => eval_gives cells (q.bound p.config.mode)) (p.driving v)
      rw [bounds_eq] at given
      refine given.returns.bind fun _ bounds _ _ => ?_
      refine (returns_query _).bind fun _ movement _ _ => ?_
      cases movement with
      | stay => exact returns_pure _
      | goTo value => exact returns_pure _
      | refuse candidate => exact (returns_emit _).bind fun _ _ _ _ => returns_pure _
  · exact returns_pure _

theorem kept_length (p : Problem) (vs : List VarId) (n : Nat) :
    Kept p vs (fun cells => cells.length = n) :=
  fun _ _ _ _ _ _ length steps => steps.length_eq.trans length

private theorem pass_returns (evaluable : p.Evaluable) (length : cells.length = p.store.size) :
    Returns (pass Lattice.plain p vs cells) := by
  induction vs generalizing cells with
  | nil => exact returns_pure _
  | cons v vs ih =>
      refine (step_returns evaluable length v).bind fun t moved t' first => ?_
      obtain ⟨ds, steps, -⟩ := steps_of_yields first
      exact (ih (steps.length_eq.trans length)).bind fun _ _ _ _ => returns_pure _

private theorem iterate_returns (evaluable : p.Evaluable) (left : Nat) {s : Settled}
    (length : s.cells.length = p.store.size) : Returns (iterate Lattice.plain p vs left s) := by
  induction left generalizing s with
  | zero => exact returns_pure _
  | succ left ih =>
      refine (pass_returns evaluable length).bind fun t after t' run => ?_
      have length' := (kept_length p vs _).pass run length
      dsimp only
      split
      · exact returns_pure _
      · exact ih length'

private theorem settle_returns (evaluable : p.Evaluable) (length : cells.length = p.store.size) :
    Returns (settle Lattice.plain p cells) := by
  simp only [settle]
  split
  · exact returns_pure _
  · exact iterate_returns evaluable _ length

theorem checkAll_returns {fixed : Bool} {qs : List Inequality}
    (values : ∀ q ∈ qs, q.HasValues (valuation cells)) :
    Returns (checkAll Lattice.plain p.store cells fixed qs) :=
  fun _ => ⟨_, _, yields_checkAll_iff.2 ⟨values, rfl, rfl⟩⟩

theorem yields_forM_emit_iff {α : Type} {f : α → Diagnostic} {as : List α} {u : Unit}
    {t t' : List Diagnostic} :
    Yields (as.forM fun a => emit (f a)) t u t' ↔ t' = t ++ as.map f := by
  induction as generalizing t with
  | nil => simp
  | cons a as ih =>
      change Yields (emit (f a) >>= fun _ => as.forM fun a => emit (f a)) t u t' ↔ _
      simp only [yields_bind_iff, yields_emit_iff, ih]
      simp

private theorem execute_returns (evaluable : p.Evaluable) : Returns (execute Lattice.plain p) := by
  have length := length_startCells p
  have values {cells : List Cell} (length : cells.length = p.store.size)
      (keep : Inequality → Bool) :
      ∀ q ∈ p.constraints.filter keep, q.HasValues (valuation cells) := fun q mem =>
    evaluable _ (isSome_valuation length) q (List.mem_filter.1 mem).1
  refine (checkAll_returns (values length _)).bind fun _ _ _ _ => ?_
  refine (settle_returns evaluable length).bind fun _ settled _ run => ?_
  have length' := (kept_length p _ _).settle run length
  have reported : Returns (reportDivergence p.store settled : RunM Id Unit) := by
    unfold reportDivergence
    split
    · exact returns_pure _
    · exact returns_emit _
  refine reported.bind fun _ _ _ _ => ?_
  refine (checkAll_returns (values length' _)).bind fun _ _ _ _ => ?_
  refine Returns.bind (fun t => ⟨(), _, yields_forM_emit_iff.2 rfl⟩) fun _ _ _ _ => ?_
  exact returns_pure _

end

/-! ## The parts of a run -/

def unacceptable (p : Problem) (cells : List Cell) : List Conflict :=
  (if p.config.checkAcceptability then acceptabilityConflicts p.store cells else []).map (·.1)

def conflictsOf (p : Problem) (settled : Settled) : List Conflict :=
  p.fixedConstraints.filterMap (·.conflict? p.store (valuation (startCells p))) ++
    divergenceConflicts p.store settled ++
    p.openConstraints.filterMap (·.conflict? p.store (valuation settled.cells)) ++
    unacceptable p settled.cells

structure Completed (p : Problem) (settled : Settled) (r : Resolution) (after : Store) : Prop where
  run : ∃ t t', Yields (settle Lattice.plain p (startCells p)) t settled t'
  fixed : ∀ q ∈ p.fixedConstraints, q.HasValues (valuation (startCells p))
  opened : ∀ q ∈ p.openConstraints, q.HasValues (valuation settled.cells)
  conflicts_eq : r.conflicts = conflictsOf p settled
  passes_eq : r.passes = settled.passes
  converged_eq : r.converged = settled.changing.isEmpty
  after_eq : after = commit p.store (conflictsOf p settled) settled.cells

def preludeOf (p : Problem) : List Diagnostic :=
  (p.fixedConstraints.filterMap (·.conflict? p.store (valuation (startCells p)))).map
    (violationDiagnostic true)

def conclusionOf (p : Problem) (settled : Settled) : List Diagnostic :=
  (if settled.changing.isEmpty then []
    else [.divergence settled.passes (settled.changing.map p.store.ownerText)]) ++
    (p.openConstraints.filterMap (·.conflict? p.store (valuation settled.cells))).map
      (violationDiagnostic false) ++
    (if p.config.checkAcceptability then acceptabilityConflicts p.store settled.cells
      else []).map (·.2)

private theorem yields_reportDivergence_iff {store : Store} {s : Settled} {u : Unit}
    {t t' : List Diagnostic} :
    Yields (reportDivergence store s) t u t' ↔ t' = t ++ if s.changing.isEmpty then []
      else [.divergence s.passes (s.changing.map store.ownerText)] := by
  unfold reportDivergence
  split <;> simp

theorem completed_of_yields {p : Problem} {r : Resolution} {after : Store}
    {t t' : List Diagnostic} (h : Yields (execute Lattice.plain p) t (r, after) t') :
    ∃ settled t₁, Completed p settled r after ∧
      Yields (settle Lattice.plain p (startCells p)) (t ++ preludeOf p) settled t₁ ∧
      t' = t₁ ++ conclusionOf p settled := by
  simp only [execute, yields_bind_iff, yields_checkAll_iff, yields_reportDivergence_iff,
    yields_forM_emit_iff, yields_pure_iff, Prod.mk.injEq] at h
  obtain ⟨_, _, ⟨fixed, rfl, rfl⟩, settled, t₁, run, -, _, rfl, _, _, ⟨opened, rfl, rfl⟩, -, _, rfl,
    ⟨rfl, rfl⟩, rfl⟩ := h
  exact ⟨settled, t₁, ⟨⟨_, t₁, run⟩, fixed, opened, rfl, rfl, rfl, rfl⟩, run,
    by simp [conclusionOf]⟩

/-! ## The store after a run -/

theorem getElem?_entries (s : Store) (i : Nat) :
    s.entries[i]? = (s.vars[i]?).map fun x => (⟨i⟩, x) := by
  simp [Store.entries, Function.comp_def]

theorem mem_entries_iff {s : Store} {v : VarId} {x : Variable} :
    (v, x) ∈ s.entries ↔ s.get? v = some x := by
  simp only [List.mem_iff_getElem?, getElem?_entries, Store.get?, Option.map_eq_some_iff,
    Prod.mk.injEq]
  constructor
  · rintro ⟨i, _, found, rfl, rfl⟩
    exact found
  · intro found
    exact ⟨v.index, x, found, rfl, rfl⟩

theorem get?_commit (store : Store) (conflicts : List Conflict) (cells : List Cell) (v : VarId) :
    (commit store conflicts cells).get? v =
      (store.get? v).bind fun x => (cells[v.index]?).map fun cell =>
        { x with value := cell.value, state := finalState conflicts v x cell } := by
  simp only [commit, Store.get?, List.getElem?_map, List.zip, List.getElem?_zipWith,
    getElem?_entries]
  cases store.vars[v.index]? <;> cases cells[v.index]? <;> rfl

namespace Completed

variable {p : Problem} {settled : Settled} {r : Resolution} {after : Store}
  (h : Completed p settled r after)

include h

theorem keeps {I : List Cell → Prop} (kept : Kept p p.active I) (start : I (startCells p)) :
    I settled.cells := by
  obtain ⟨t, t', run⟩ := h.run
  exact kept.settle run start

theorem length_eq : settled.cells.length = p.store.size :=
  h.keeps (kept_length p p.active _) (length_startCells p)

theorem size_after : after.size = p.store.size := by
  have entries : p.store.entries.length = p.store.size := by simp [Store.entries, Store.size]
  rw [h.after_eq, Store.size, commit, List.length_map, List.length_zip, entries, h.length_eq,
    Nat.min_self]

theorem valuation_eq : after.valuation = valuation settled.cells := by
  funext v
  have length := h.length_eq
  rw [h.after_eq, Store.valuation, get?_commit, valuation]
  cases hx : p.store.get? v with
  | some x => cases settled.cells[v.index]? <;> rfl
  | none =>
      have outside : settled.cells.length ≤ v.index := by
        simpa [Store.get?, Store.size, length] using hx
      simp [outside]

theorem pinned {v : VarId} (fixed : p.store.isSettable v = false) :
    after.valuation v = valuation (startCells p) v := by
  have kept : Kept p p.active (fun cells => cells[v.index]? = (startCells p)[v.index]?) := by
    intro w active cells cells' changed ds same steps
    -- Only active variables are moved, and these are settable.
    have other : w.index ≠ v.index := by
      intro equal
      have settable := Problem.isSettable_of_mem_active active
      have both : p.store.isSettable w = p.store.isSettable v := by
        simp [Store.isSettable, Store.get?, equal]
      simp [both, fixed] at settable
    exact (steps.getElem?_eq other).trans same
  rw [h.valuation_eq, valuation, valuation, h.keeps kept rfl]

end Completed

end Run

namespace Problem

theorem outcome_eq (p : Problem) (defect : p.defect? = none) :
    p.outcome.result = (Id.run ((Run.execute Lattice.plain p).run.run [])).1 := by
  simp only [outcome, resolve, defect]
  rfl

theorem yields_of_outcome {p : Problem} {r : Resolution} {after : Store}
    (h : p.outcome.result = .ok (r, after)) :
    p.defect? = none ∧ Run.Yields (Run.execute Lattice.plain p) [] (r, after) p.outcome.trace := by
  cases defect : p.defect? with
  | some e =>
      have failed : p.outcome.result = .error e := by simp [outcome, resolve, defect]
      rw [failed] at h
      cases h
  | none =>
      rw [outcome_eq p defect] at h
      have trace : p.outcome.trace = (Id.run ((Run.execute Lattice.plain p).run.run [])).2 := by
        simp only [outcome, resolve, defect]
        rfl
      exact ⟨rfl, Prod.ext h trace.symm⟩

theorem completed_of_outcome {p : Problem} {r : Resolution} {after : Store}
    (h : p.outcome.result = .ok (r, after)) :
    p.defect? = none ∧ ∃ settled, Run.Completed p settled r after := by
  obtain ⟨defect, run⟩ := yields_of_outcome h
  obtain ⟨settled, _, completed, -⟩ := Run.completed_of_yields run
  exact ⟨defect, settled, completed⟩

theorem exists_outcome {p : Problem} (defect : p.defect? = none) (evaluable : p.Evaluable) :
    ∃ r after, p.outcome.result = .ok (r, after) := by
  obtain ⟨⟨r, after⟩, t, run⟩ := Run.execute_returns evaluable []
  refine ⟨r, after, ?_⟩
  rw [outcome_eq p defect, run]

theorem test_of_verdict {p : Problem} {test : Resolution × Store → Bool} {r : Resolution}
    {after : Store} (verdict : p.outcome.result.toOption.any test = true)
    (h : p.outcome.result = .ok (r, after)) : test (r, after) = true := by
  rw [h] at verdict
  exact verdict

theorem exists_of_verdict {p : Problem} {test : Resolution × Store → Bool}
    (verdict : p.outcome.result.toOption.any test = true) :
    ∃ r after, p.outcome.result = .ok (r, after) ∧ test (r, after) = true := by
  cases h : p.outcome.result with
  | error e =>
      rw [h] at verdict
      cases verdict
  | ok o => exact ⟨o.1, o.2, rfl, test_of_verdict verdict h⟩

end Problem

end DataflowTypes
