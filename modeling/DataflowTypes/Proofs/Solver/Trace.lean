import DataflowTypes.Proofs.Solver.Declarations
import DataflowTypes.Proofs.Solver.States
import DataflowTypes.Solver.Session

/-!
# What a run records

Diagnostics are recorded in five places of a run.  The passes record each variable that refuses a
candidate, once, with the value that it keeps to the end.  Main statement: what an enabled
collector holds after a run follows from the resolution and the store that the run leaves, and
neither of them depends on the collector.
-/

namespace DataflowTypes

namespace Run

structure Refusal where
  id : VarId
  subject : Variable
  candidate : Ty
  kept : Ty

def Refusal.diagnostic (e : Refusal) : Diagnostic :=
  .notInstance e.subject.owner e.candidate.text e.kept.text

/-- The refusals are those of the variables that are marked in the cells, one for each. -/
structure Logged (p : Problem) (cells : List Cell) (es : List Refusal) : Prop where
  nodup : (es.map (·.id)).Nodup
  subject_eq : ∀ e ∈ es, p.store.get? e.id = some e.subject
  unfit : ∀ e ∈ es, conform e.subject.declared e.candidate = none
  cell_eq : ∀ e ∈ es, cells[e.id.index]? = some ⟨e.kept, .conflicted⟩
  complete : ∀ (v : VarId) (cell : Cell), cells[v.index]? = some cell →
    cell.state = .conflicted → v ∈ es.map (·.id)

namespace Logged

variable {p : Problem} {cells cells' : List Cell} {es : List Refusal} {v : VarId}

theorem start (p : Problem) : Logged p (startCells p) [] where
  nodup := by simp
  subject_eq := by simp
  unfit := by simp
  cell_eq := by simp
  complete v cell cell_eq conflicted := by
    rw [startCells, List.getElem?_map] at cell_eq
    obtain ⟨x, -, rfl⟩ := Option.map_eq_some_iff.1 cell_eq
    cases conflicted

theorem not_mem (h : Logged p cells es) {cell : Cell} (cell_eq : cells[v.index]? = some cell)
    (free : cell.state ≠ .conflicted) : v ∉ es.map (·.id) := by
  intro listed
  obtain ⟨e, mem, rfl⟩ := List.mem_map.1 listed
  obtain rfl := Option.some.inj (cell_eq.symm.trans (h.cell_eq e mem))
  exact free rfl

theorem frame (h : Logged p cells es) {cell : Cell} (cell_eq : cells[v.index]? = some cell)
    (free : cell.state ≠ .conflicted) (new : Cell) :
    (∀ e ∈ es, (cells.set v.index new)[e.id.index]? = some ⟨e.kept, .conflicted⟩) ∧
      ∀ (w : VarId) (cell' : Cell), (cells.set v.index new)[w.index]? = some cell' →
        cell'.state = .conflicted → w ∈ es.map (·.id) ∨ w = v ∧ cell' = new := by
  have inside : v.index < cells.length := (List.getElem?_eq_some_iff.1 cell_eq).1
  constructor
  · intro e mem
    have other : v.index ≠ e.id.index := by
      intro same
      obtain rfl : v = e.id := congrArg VarId.mk same
      exact h.not_mem cell_eq free (List.mem_map_of_mem mem)
    rw [List.getElem?_set_ne other]
    exact h.cell_eq e mem
  · intro w cell' after conflicted
    by_cases same : v.index = w.index
    · obtain rfl : v = w := congrArg VarId.mk same
      rw [List.getElem?_set_self inside] at after
      exact .inr ⟨rfl, (Option.some.inj after).symm⟩
    · rw [List.getElem?_set_ne same] at after
      exact .inl (h.complete w cell' after conflicted)

theorem goTo (h : Logged p cells es) {cell : Cell} (cell_eq : cells[v.index]? = some cell)
    (free : cell.state ≠ .conflicted) (value : Ty) :
    Logged p (cells.set v.index ⟨value, .tentative⟩) es where
  nodup := h.nodup
  subject_eq := h.subject_eq
  unfit := h.unfit
  cell_eq := (h.frame cell_eq free _).1
  complete w cell' after conflicted := by
    rcases (h.frame cell_eq free _).2 w cell' after conflicted with listed | ⟨-, rfl⟩
    · exact listed
    · cases conflicted

theorem refuse (h : Logged p cells es) {cell : Cell} {x : Variable} {bounds : List Ty}
    {candidate : Ty} (turn : Turn p cells v cell x bounds)
    (unfit : conform x.declared candidate = none) :
    Logged p (cells.set v.index { cell with state := .conflicted })
      (es ++ [⟨v, x, candidate, cell.value⟩]) where
  nodup := by
    rw [List.map_append, List.nodup_append]
    refine ⟨h.nodup, by simp, fun a mem b last => ?_⟩
    rintro rfl
    obtain rfl : a = v := by simpa using last
    exact h.not_mem turn.cell_eq turn.free mem
  subject_eq := by simpa [or_imp, forall_and] using ⟨h.subject_eq, turn.variable_eq⟩
  unfit := by simpa [or_imp, forall_and] using ⟨h.unfit, unfit⟩
  cell_eq := by
    have inside : v.index < cells.length := (List.getElem?_eq_some_iff.1 turn.cell_eq).1
    simpa [or_imp, forall_and, inside] using (h.frame turn.cell_eq turn.free _).1
  complete w cell' after conflicted := by
    rw [List.map_append, List.mem_append]
    rcases (h.frame turn.cell_eq turn.free _).2 w cell' after conflicted with listed | ⟨rfl, -⟩
    · exact .inl listed
    · exact .inr (by simp)

theorem steps (h : Logged p cells es) {changed : Bool} {ds : List Diagnostic}
    (steps : Steps p cells v cells' changed ds) :
    ∃ new, ds = new.map Refusal.diagnostic ∧ Logged p cells' (es ++ new) := by
  cases steps with
  | absent | halted | stay => exact ⟨[], rfl, by simpa using h⟩
  | goTo turn => exact ⟨[], rfl, by simpa using h.goTo turn.cell_eq turn.free _⟩
  | refuse turn moves =>
      cases moves with
      | refuse unfit => exact ⟨[_], rfl, h.refuse turn unfit⟩

end Logged

/-- The passes of a run record refusals and nothing else. -/
theorem exists_logged {p : Problem} {settled : Settled} {t t' : List Diagnostic}
    (run : Yields (settle Lattice.plain p (startCells p)) t settled t') :
    ∃ es, t' = t ++ es.map Refusal.diagnostic ∧ Logged p settled.cells es := by
  have recorded : Recorded p p.active fun cells t' =>
      ∃ es, t' = t ++ es.map Refusal.diagnostic ∧ Logged p cells es := by
    rintro v - cells cells' changed _ ds ⟨es, rfl, logged⟩ steps
    obtain ⟨new, rfl, logged⟩ := logged.steps steps
    exact ⟨es ++ new, by simp, logged⟩
  exact recorded.settle run ⟨[], by simp, .start p⟩

/-! ## What is recorded follows from what is left -/

private theorem entries_commit (store : Store) (conflicts : List Conflict) (cells : List Cell) :
    (commit store conflicts cells).entries = (store.entries.zip cells).map fun e =>
      (e.1.1, { e.1.2 with
        value := e.2.value
        state := finalState conflicts e.1.1 e.1.2 e.2 }) := by
  refine List.ext_getElem? fun i => ?_
  simp only [getElem?_entries, commit, List.getElem?_map, List.zip, List.getElem?_zipWith]
  cases store.vars[i]? <;> cases cells[i]? <;> rfl

private theorem map_acceptabilityConflicts (store : Store) (conflicts : List Conflict)
    (cells : List Cell) :
    (acceptabilityConflicts store cells).map (fun c => (c.1.vars, c.2)) =
      ((commit store conflicts cells).entries.filter fun e =>
        e.2.isSettable && !e.2.isAcceptable).map fun e =>
          ([e.1], .unacceptable e.2.owner e.2.value.text) := by
  rw [entries_commit, acceptabilityConflicts, List.map_filterMap, ← List.filterMap_eq_map,
    List.filterMap_filter, List.filterMap_map]
  refine List.filterMap_congr ?_
  rintro ⟨⟨v, x⟩, cell⟩ -
  change Option.map _ (if x.isSettable && !x.acceptance.accepts cell.value then _ else none) =
    if x.isSettable && !x.acceptance.accepts cell.value then _ else none
  cases x.isSettable && !x.acceptance.accepts cell.value <;> rfl

private theorem violationDiagnostic_true :
    violationDiagnostic true = fun c => .constantViolation c.detail := rfl

private theorem violationDiagnostic_false :
    violationDiagnostic false = fun c => .unsatisfied
      (if c.kind = .structuralMismatch then .structuralMismatch else .unsatisfiedConstraint)
      c.detail := by
  funext c
  rw [violationDiagnostic, if_neg Bool.false_ne_true]
  split <;> rfl

end Run

namespace Problem

def unaccepted (p : Problem) (after : Store) : List (VarId × Variable) :=
  if p.config.checkAcceptability then
    after.entries.filter fun e => e.2.isSettable && !e.2.isAcceptable
  else []

/-- What there is to say about a run, given what it leaves and what its variables refused: the
violated inequalities between fixed sides, the refusals, the variables that were still changing,
the other violated inequalities, and the values that are not accepted. -/
def account (p : Problem) (r : Resolution) (after : Store) (es : List Run.Refusal) :
    List Diagnostic :=
  (p.fixedConstraints.filterMap (·.conflict? p.store after.valuation)).map
      (fun c => .constantViolation c.detail) ++
    es.map Run.Refusal.diagnostic ++
    (if r.converged then []
      else [.divergence r.passes ((r.conflicts.filter (·.kind == .nonConvergent)).flatMap
        fun c => c.vars.map p.store.ownerText)]) ++
    (p.openConstraints.filterMap (·.conflict? p.store after.valuation)).map
      (fun c => .unsatisfied
        (if c.kind = .structuralMismatch then .structuralMismatch else .unsatisfiedConstraint)
        c.detail) ++
    (p.unaccepted after).map fun e => .unacceptable e.2.owner e.2.value.text

/-- The refusals are those of the variables that the run rejects, one for each, with a candidate
that does not fit and with the value that the run leaves. -/
structure Refuses (p : Problem) (after : Store) (es : List Run.Refusal) : Prop where
  nodup : (es.map (·.id)).Nodup
  mem_iff : ∀ v, v ∈ es.map (·.id) ↔ Run.Rejects p v
  subject_eq : ∀ e ∈ es, p.store.get? e.id = some e.subject
  unfit : ∀ e ∈ es, conform e.subject.declared e.candidate = none
  kept_eq : ∀ e ∈ es, after.valuation e.id = some e.kept

end Problem

namespace Run.Completed

variable {p : Problem} {settled : Settled} {r : Resolution} {after : Store} {es : List Refusal}
  (h : Completed p settled r after)

include h

theorem map_unaccepted :
    (if p.config.checkAcceptability then acceptabilityConflicts p.store settled.cells
      else []).map (fun c => (c.1.vars, c.2)) =
      (p.unaccepted after).map fun e => ([e.1], .unacceptable e.2.owner e.2.value.text) := by
  rw [Problem.unaccepted, h.after_eq]
  split
  · exact map_acceptabilityConflicts _ _ _
  · rfl

private theorem vars_unaccepted :
    (r.conflicts.filter (·.kind == .unacceptableResolution)).map (·.vars) =
      (p.unaccepted after).map fun e => [e.1] := by
  rw [h.conflicts_eq, filter_unacceptable_conflictsOf, unacceptable]
  simpa [Function.comp_def] using congrArg (List.map (·.1)) h.map_unaccepted

private theorem account_eq :
    preludeOf p ++ es.map Refusal.diagnostic ++ conclusionOf p settled = p.account r after es := by
  have owners : (r.conflicts.filter (·.kind == .nonConvergent)).flatMap
      (fun c => c.vars.map p.store.ownerText) = settled.changing.map p.store.ownerText := by
    rw [h.conflicts_eq, filter_nonConvergent_conflictsOf, divergenceConflicts, List.flatMap_map,
      List.map_eq_flatMap]
    rfl
  have rejected : (if p.config.checkAcceptability then acceptabilityConflicts p.store settled.cells
      else []).map (·.2) =
      (p.unaccepted after).map fun e => .unacceptable e.2.owner e.2.value.text := by
    simpa [Function.comp_def] using congrArg (List.map (·.2)) h.map_unaccepted
  unfold preludeOf conclusionOf Problem.account
  rw [h.fixed_conflicts, h.valuation_eq, h.converged_eq, h.passes_eq, owners, rejected,
    violationDiagnostic_true, violationDiagnostic_false]
  simp only [List.append_assoc]

theorem refuses (defect : p.defect? = none) (logged : Logged p settled.cells es) :
    p.Refuses after es where
  nodup := logged.nodup
  mem_iff v := by
    constructor
    · intro listed
      obtain ⟨e, mem, rfl⟩ := List.mem_map.1 listed
      exact (h.conflicted_iff defect (logged.subject_eq e mem) (logged.cell_eq e mem)).1 rfl
    · intro rejects
      obtain ⟨_, _, _, x, _, _, _, _, turn, _⟩ := id rejects
      obtain ⟨cell, cell_eq, -⟩ := h.exists_get? turn.variable_eq
      exact logged.complete v cell cell_eq
        ((h.conflicted_iff defect turn.variable_eq cell_eq).2 rejects)
  subject_eq := logged.subject_eq
  unfit := logged.unfit
  kept_eq e mem := by
    rw [h.valuation_eq, valuation, logged.cell_eq e mem]
    rfl

end Run.Completed

private theorem Problem.exists_account {p : Problem} {r : Resolution} {after : Store}
    (h : p.outcome.result = .ok (r, after)) :
    ∃ es, p.Refuses after es ∧ p.outcome.trace = p.account r after es := by
  obtain ⟨defect, run⟩ := yields_of_outcome h
  obtain ⟨settled, t, completed, passes, whole⟩ := Run.completed_of_yields run
  obtain ⟨es, rfl, logged⟩ := Run.exists_logged passes
  refine ⟨es, completed.refuses defect logged, ?_⟩
  rw [whole, List.nil_append]
  exact completed.account_eq

/-! ## Sessions -/

namespace Session

variable {s s' : Session} {config : Config} {constraints : List Inequality} {r : Resolution}

def problem (s : Session) (config : Config) (constraints : List Inequality) : Problem :=
  { config, store := s.store, constraints }

theorem resolve_of_ok {o : Outcome} {memo : Option Cache} {store : Store}
    (run : (s.problem config constraints).resolveWith s.memo = (o, memo))
    (result : o.result = .ok (r, store)) :
    s.resolve config constraints =
      (.ok r, { s with memo, collector := s.collector.record o.trace, store, last := r }) := by
  unfold problem Problem.resolveWith at run
  simp only [resolve, run, result]

private theorem resolve_of_error {o : Outcome} {memo : Option Cache} {e : TypeError}
    (run : (s.problem config constraints).resolveWith s.memo = (o, memo))
    (result : o.result = .error e) :
    s.resolve config constraints =
      (.error e, { s with memo, collector := s.collector.record o.trace }) := by
  unfold problem Problem.resolveWith at run
  simp only [resolve, run, result]

private theorem resolve_with_collector (sound : Lattice.SoundMemo s.memo)
    (h : s.resolve config constraints = (.ok r, s')) :
    (s.problem config constraints).outcome.result = .ok (r, s'.store) ∧
      ∀ c, resolve { s with collector := c } config constraints =
        (.ok r, { s' with
          collector := c.record (s.problem config constraints).outcome.trace }) := by
  obtain ⟨memo, run⟩ : ∃ memo, (s.problem config constraints).resolveWith s.memo =
      ((s.problem config constraints).outcome, memo) :=
    ⟨_, Prod.ext (Problem.resolveWith_of_sound _ sound).1 rfl⟩
  cases result : (s.problem config constraints).outcome.result with
  | error e => cases (resolve_of_error run result).symm.trans h
  | ok o =>
      cases (resolve_of_ok run result).symm.trans h
      exact ⟨rfl, fun c => resolve_of_ok (s := { s with collector := c }) run result⟩

end Session

private theorem Collector.record_of_disabled {c : Collector} (disabled : c.enabled = false)
    (ds : List Diagnostic) : c.record ds = c := by
  simp [record, disabled]

private theorem Collector.take_record {c : Collector} (enabled : c.enabled = true)
    (empty : c.entries = []) (ds : List Diagnostic) : (c.record ds).take = (ds, c) := by
  obtain ⟨_, _⟩ := c
  cases enabled
  cases empty
  rfl

namespace Session

/-- A collector changes nothing.  A disabled one stays as it is; an enabled one holds the account
of the run, whose violated inequalities and unaccepted values are those that the resolution
reports as conflicts. -/
theorem resolve_recorded {s s' : Session} {config : Config} {constraints : List Inequality}
    {r : Resolution} (cached : Bool) (past : List Request)
    (memo : s.memo = Lattice.memoAfter cached past)
    (h : s.resolve config constraints = (.ok r, s')) :
    ∃ es, (s.problem config constraints).Refuses s'.store es ∧
      (∀ c : Collector, ∃ c' : Collector,
        resolve { s with collector := c } config constraints =
            (.ok r, { s' with collector := c' }) ∧
          (c.enabled = false → c' = c) ∧
          (c.enabled = true → c.entries = [] →
            c'.take = ((s.problem config constraints).account r s'.store es, c))) ∧
      r.conflicts.filter (·.isViolation) =
        ((s.problem config constraints).fixedConstraints ++
          (s.problem config constraints).openConstraints).filterMap
            (·.conflict? s.store s'.store.valuation) ∧
      (r.conflicts.filter (·.kind == .unacceptableResolution)).map (·.vars) =
        ((s.problem config constraints).unaccepted s'.store).map (fun e => [e.1]) ∧
      ∀ q ∈ constraints,
        q.conflict? s.store s'.store.valuation = none ↔ q.holds s'.store.valuation = true := by
  have sound : Lattice.SoundMemo s.memo := memo ▸ Lattice.soundMemo_memoAfter cached past
  obtain ⟨result, run⟩ := resolve_with_collector sound h
  obtain ⟨es, refuses, trace⟩ := Problem.exists_account result
  obtain ⟨-, settled, completed⟩ := Problem.completed_of_outcome result
  rw [trace] at run
  refine ⟨es, refuses, fun c => ⟨_, run c, fun disabled => ?_, fun enabled empty => ?_⟩,
    completed.filter_isViolation, completed.vars_unaccepted,
    fun q mem => Inequality.conflict?_eq_none_iff (completed.hasValues mem)⟩
  · exact Collector.record_of_disabled disabled _
  · exact Collector.take_record enabled empty _

def strained : Session where
  memo := none
  store := ⟨[{ owner := "xs", declared := .arrayOf .unknown (some 3), value := .unknown },
    { owner := "x", declared := .unknown, value := .unknown }]⟩
  collector := { enabled := true }

def strain : List Inequality :=
  [⟨.const (.arrayOf (.base .int) (some 2)), .var ⟨0⟩⟩, ⟨.const .general, .const (.base .int)⟩,
    ⟨.var ⟨0⟩, .var ⟨1⟩⟩]

theorem resolve_recorded_strained :
    ∃ r s' es, strained.resolve { maxPasses := 1 } strain = (.ok r, s') ∧
      (strained.problem { maxPasses := 1 } strain).Refuses s'.store es ∧
      s'.collector.take =
        ((strained.problem { maxPasses := 1 } strain).account r s'.store es,
          strained.collector) ∧
      s'.collector.entries.map (·.reason) = [.constantConstraintViolated,
        .notSubstitutionInstance "\x7bint\x7d", .fixedPointDivergence 1, .unsatisfiedConstraint,
        .unacceptableResolution, .unacceptableResolution] := by
  have verdict : ((strained.resolve { maxPasses := 1 } strain).1.isOk &&
      (strained.resolve { maxPasses := 1 } strain).2.collector.entries.map (·.reason) =
        [.constantConstraintViolated, .notSubstitutionInstance "\x7bint\x7d",
          .fixedPointDivergence 1, .unsatisfiedConstraint, .unacceptableResolution,
          .unacceptableResolution]) = true := by
    decide +kernel
  generalize ran : strained.resolve { maxPasses := 1 } strain = o at verdict ⊢
  obtain ⟨_ | r, s'⟩ := o
  · cases verdict
  obtain ⟨es, refuses, passive, -⟩ := resolve_recorded false [] rfl ran
  obtain ⟨c', again, -, recorded⟩ := passive strained.collector
  have same : s'.collector = c' := congrArg (·.2.collector) (ran.symm.trans again)
  refine ⟨r, s', es, rfl, refuses, same ▸ recorded rfl rfl, ?_⟩
  exact of_decide_eq_true (Bool.and_eq_true_iff.1 verdict).2

end Session

end DataflowTypes
