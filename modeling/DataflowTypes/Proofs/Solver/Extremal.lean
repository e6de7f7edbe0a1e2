import DataflowTypes.Proofs.Lattice.Join
import DataflowTypes.Proofs.Lattice.Meet
import DataflowTypes.Proofs.Solver.Course
import DataflowTypes.Proofs.Ty.Conform

/-!
# Extremal solutions

In least mode the values of a run are below every solution, in greatest mode above
every solution, at every step of every pass.  Both are one argument: a mode moves a
variable to the best bound of its value and its bounds on one side of the order, and the
bounds of a variable move with the variables they read.  A run that came to rest ends in
a solution, so in greatest mode the order of the inequalities does not matter.
-/

namespace DataflowTypes

namespace SolveMode

/-! ## The direction of a mode -/

/-- `a` is at least as far as `b` in the direction in which the mode moves variables. -/
def Beyond : SolveMode → Ty → Ty → Prop
  | .least => flip Ty.Below
  | .greatest => Ty.Below

/-- The types that count as limits of a mode.  The join of two types is below their
regular upper bounds only. -/
def Limit : SolveMode → Ty → Prop
  | .least => Ty.Regular
  | .greatest => fun _ => True

theorem Beyond.refl (mode : SolveMode) (a : Ty) : mode.Beyond a a := by
  cases mode with
  | least => exact Ty.Below.refl a
  | greatest => exact Ty.Below.refl a

theorem Beyond.trans {mode : SolveMode} {a b c : Ty} (first : mode.Beyond a b)
    (second : mode.Beyond b c) : mode.Beyond a c := by
  cases mode with
  | least => exact Ty.Below.trans second first
  | greatest => exact Ty.Below.trans first second

theorem beyond_of_beq (mode : SolveMode) {a b : Ty} (h : (a == b) = true) : mode.Beyond a b := by
  cases mode with
  | least => exact (Ty.below_of_beq h).2
  | greatest => exact (Ty.below_of_beq h).1

theorem beyond_start (mode : SolveMode) (a : Ty) : mode.Beyond a mode.start := by
  cases mode with
  | least => exact .bottom a
  | greatest => exact .top a

theorem combine_bestBound (mode : SolveMode) (a b : Ty) :
    BestBound mode.Beyond mode.Limit (mode.combine a b) a b := by
  cases mode with
  | least => exact Ty.join_isJoin a b
  | greatest => exact Ty.meet_isMeet a b

theorem foldl_combine_beyond (mode : SolveMode) (bounds : List Ty) (start : Ty) :
    mode.Beyond (bounds.foldl mode.combine start) start ∧
      ∀ b ∈ bounds, mode.Beyond (bounds.foldl mode.combine start) b := by
  induction bounds generalizing start with
  | nil => exact ⟨.refl mode start, by simp⟩
  | cons b bounds ih =>
      obtain ⟨first, rest⟩ := ih (mode.combine start b)
      have best := combine_bestBound mode start b
      exact ⟨first.trans best.left, List.forall_mem_cons.2 ⟨first.trans best.right, rest⟩⟩

/-- A limit beyond the start and all bounds is beyond what the bounds lead to. -/
theorem beyond_foldl_combine {mode : SolveMode} {limit : Ty} (tame : mode.Limit limit)
    {bounds : List Ty} {start : Ty} (first : mode.Beyond limit start)
    (rest : ∀ b ∈ bounds, mode.Beyond limit b) :
    mode.Beyond limit (bounds.foldl mode.combine start) := by
  induction bounds generalizing start with
  | nil => exact first
  | cons b bounds ih =>
      obtain ⟨here, later⟩ := List.forall_mem_cons.1 rest
      exact ih ((combine_bestBound mode start b).best limit tame first here) later

end SolveMode

/-! ## Solutions -/

abbrev Assignment := VarId → Ty

def Assignment.valuation (s : Assignment) : Valuation := fun v => some (s v)

def Store.assignment (s : Store) : Assignment := fun v => (s.valuation v).getD .unknown

/-- Every variable is declared with `unknown` or with a constant type. -/
def Store.IsSimple (s : Store) : Prop :=
  ∀ v x, s.get? v = some x → x.declared.isUnknown = true ∨ x.declared.isConstant = true

/-- An assignment that gives pinned variables their declared type and satisfies every
inequality that moves a settable variable. -/
structure Problem.IsSolution (p : Problem) (s : Assignment) : Prop where
  pinned : ∀ v x, p.store.get? v = some x → x.isSettable = false → (s v == x.declared) = true
  driving : ∀ q ∈ p.constraints, ∀ v, q.driven p.config.mode = .var v →
    p.store.isSettable v = true → q.holds s.valuation = true

theorem Term.value_beyond {mode : SolveMode} {t : Term} (builtIn : t.IsBuiltIn) {s : Assignment}
    {σ : Valuation} (beyond : ∀ v ∈ t.vars, ∃ a, σ v = some a ∧ mode.Beyond (s v) a) :
    ∃ a b, t.value s.valuation = .ok a ∧ t.value σ = .ok b ∧ mode.Beyond a b := by
  cases mode with
  | least =>
      have below : ∀ v ∈ t.vars, ∃ a b, σ v = some a ∧ s.valuation v = some b ∧ a.Below b := by
        intro v mem
        obtain ⟨a, value, below⟩ := beyond v mem
        exact ⟨a, s v, value, rfl, below⟩
      obtain ⟨a, b, ha, hb, below⟩ := value_mono builtIn below
      exact ⟨b, a, hb, ha, below⟩
  | greatest =>
      have below : ∀ v ∈ t.vars, ∃ a b, s.valuation v = some a ∧ σ v = some b ∧ a.Below b := by
        intro v mem
        obtain ⟨a, value, below⟩ := beyond v mem
        exact ⟨s v, a, rfl, value, below⟩
      exact value_mono builtIn below

theorem Inequality.holds_iff_beyond {q : Inequality} {mode : SolveMode} {v : VarId}
    (driven : q.driven mode = .var v) {σ : Valuation} :
    q.holds σ = true ↔
      ∃ a b, σ v = some a ∧ (q.bound mode).value σ = .ok b ∧ mode.Beyond a b := by
  have value (a : Ty) : (Term.var v).value σ = .ok a ↔ σ v = some a := by
    cases h : σ v <;> simp [Term.value, h]
  rw [holds_iff]
  cases mode with
  | least =>
      simp only [Inequality.driven] at driven
      simp only [driven, value, Ty.le_iff_below, Inequality.bound]
      constructor
      · rintro ⟨a, b, ha, hb, below⟩
        exact ⟨b, a, hb, ha, below⟩
      · rintro ⟨a, b, ha, hb, below⟩
        exact ⟨b, a, hb, ha, below⟩
  | greatest =>
      simp only [Inequality.driven] at driven
      simp only [driven, value, Ty.le_iff_below, Inequality.bound]
      rfl

theorem Store.IsSimple.isUnknown {store : Store} (simple : store.IsSimple) {v : VarId}
    {x : Variable} (found : store.get? v = some x) (settable : store.isSettable v = true) :
    x.declared.isUnknown = true := by
  have proper : x.declared.isConstant = false := by
    simpa [Store.isSettable, found, Variable.isSettable] using settable
  exact (simple v x found).resolve_right (by simp [proper])

namespace Run

/-! ## Moves of variables that are declared with `unknown` -/

section

variable {mode : SolveMode} {declared value candidate : Ty} {cell : Cell} {bounds : List Ty}
  (unknown : declared.isUnknown = true)

include unknown

theorem conform_unknown (candidate : Ty) : conform declared candidate = some candidate := by
  simp [conform, unknown]

theorem Moves.goTo_eq (moves : Moves mode declared cell bounds (.goTo value)) :
    ∃ start, (start = cell.value ∨ start = mode.start) ∧
      value = bounds.foldl mode.combine start := by
  cases moves with
  | goToFirst least _ fits _ =>
      subst least
      rw [conform_unknown unknown] at fits
      exact ⟨.unknown, .inr rfl, (Option.some.inj fits).symm⟩
  | goTo fits _ =>
      rw [conform_unknown unknown] at fits
      exact ⟨cell.value, .inl rfl, (Option.some.inj fits).symm⟩

theorem Moves.not_refuse : ¬Moves mode declared cell bounds (.refuse candidate) := by
  intro moves
  cases moves with
  | refuse fits _ => simp [conform_unknown unknown] at fits

end

/-! ## No variable goes beyond a solution -/

def Within (p : Problem) (s : Assignment) (cells : List Cell) : Prop :=
  cells.length = p.store.size ∧
    ∀ v a, valuation cells v = some a → p.config.mode.Beyond (s v) a

section

variable {p : Problem} {s : Assignment} (simple : p.store.IsSimple)

include simple

private theorem within_start (solution : p.IsSolution s) : Within p s (startCells p) := by
  refine ⟨length_startCells p, fun v a value => ?_⟩
  obtain ⟨x, found, rfl⟩ := exists_of_valuation_start value
  by_cases settable : x.isSettable = true
  · have unknown := simple.isUnknown found ((Store.isSettable_eq found).trans settable)
    have start : (Cell.start p.config.mode x).value = p.config.mode.start := by
      simp [Cell.start, settable, unknown]
    rw [start]
    exact p.config.mode.beyond_start (s v)
  · have pinned := solution.pinned v x found (by simpa using settable)
    have start : (Cell.start p.config.mode x).value = x.declared := by
      simp [Cell.start, settable]
    rw [start]
    exact p.config.mode.beyond_of_beq pinned

variable (defect : p.defect? = none) (builtIn : ∀ q ∈ p.constraints, q.IsBuiltIn)

include defect builtIn

omit simple in
theorem Within.bound {cells : List Cell} (solution : p.IsSolution s) (within : Within p s cells)
    {v : VarId} {q : Inequality} (mem : q ∈ p.driving v) {b : Ty}
    (value : (q.bound p.config.mode).value (valuation cells) = .ok b) :
    p.config.mode.Beyond (s v) b := by
  obtain ⟨settable, mem, driven⟩ := Problem.mem_driving_iff.1 mem
  obtain ⟨_, limit, ⟨⟩, limit_eq, beyond⟩ :=
    (Inequality.holds_iff_beyond driven).1 (solution.driving q mem v driven settable)
  have reads : ∀ w ∈ (q.bound p.config.mode).vars,
      ∃ a, valuation cells w = some a ∧ p.config.mode.Beyond (s w) a := by
    intro w read
    have contained : p.store.contains w = true :=
      Problem.contains_of_mem_vars defect mem (Inequality.mem_vars_of_bound read)
    obtain ⟨a, value⟩ := Option.isSome_iff_exists.1 (isSome_valuation within.1 w contained)
    exact ⟨a, value, within.2 w a value⟩
  have builtIn : (q.bound p.config.mode).IsBuiltIn := by
    cases p.config.mode with
    | least => exact (builtIn q mem).1
    | greatest => exact (builtIn q mem).2
  -- The bound under the solution lies between the solution and the bound under the cells.
  obtain ⟨a, b', ha, hb, further⟩ := Term.value_beyond builtIn reads
  obtain rfl := Except.ok.inj (ha.symm.trans limit_eq)
  obtain rfl := Except.ok.inj (hb.symm.trans value)
  exact beyond.trans further

private theorem kept_within (solution : p.IsSolution s)
    (limits : ∀ v, p.store.isSettable v = true → p.config.mode.Limit (s v)) :
    Kept p p.active (Within p s) := by
  intro v active cells cells' changed ds within steps
  have settable := Problem.isSettable_of_mem_active active
  refine ⟨steps.length_eq.trans within.1, ?_⟩
  cases steps with
  | absent => exact within.2
  | halted => exact within.2
  | stay => exact within.2
  | refuse turn moves =>
      exact absurd moves (Moves.not_refuse (simple.isUnknown turn.variable_eq settable))
  | @goTo cell x bounds value turn moves =>
      have unknown := simple.isUnknown turn.variable_eq settable
      obtain ⟨start, started, rfl⟩ := moves.goTo_eq unknown
      have first : p.config.mode.Beyond (s v) start := by
        rcases started with rfl | rfl
        · exact within.2 v cell.value (by simp [valuation, turn.cell_eq])
        · exact p.config.mode.beyond_start (s v)
      have rest : ∀ b ∈ bounds, p.config.mode.Beyond (s v) b := by
        intro b mem
        obtain ⟨q, mem, value⟩ := (exists_of_mapM_eq_ok turn.bounds_eq).1 b mem
        exact within.bound defect builtIn solution mem value
      exact forall_valuation_set turn.cell_eq
        (SolveMode.beyond_foldl_combine (limits v settable) first rest) within.2

end

/-! ## Runs that came to rest -/

def Free (cells : List Cell) : Prop := ∀ cell ∈ cells, cell.state ≠ .conflicted

private theorem free_start (p : Problem) : Free (startCells p) := by
  intro cell mem
  obtain ⟨x, -, rfl⟩ := List.mem_map.1 mem
  simp [Cell.start]

private theorem kept_free {p : Problem} (simple : p.store.IsSimple) : Kept p p.active Free := by
  intro v active cells cells' changed ds free steps
  have settable := Problem.isSettable_of_mem_active active
  cases steps with
  | absent => exact free
  | halted => exact free
  | stay => exact free
  | refuse turn moves =>
      exact absurd moves (Moves.not_refuse (simple.isUnknown turn.variable_eq settable))
  | goTo turn moves =>
      intro cell mem
      rcases List.mem_or_eq_of_mem_set mem with mem | rfl
      · exact free cell mem
      · simp

private theorem Moves.stay_beyond {mode : SolveMode} {declared : Ty} {cell : Cell}
    {bounds : List Ty} (moves : Moves mode declared cell bounds .stay) :
    ∀ b ∈ bounds, mode.Beyond cell.value b := by
  obtain ⟨start, same⟩ : ∃ start, (cell.value == bounds.foldl mode.combine start) = true := by
    cases moves with
    | stayFirst _ _ fits same =>
        exact ⟨.unknown, BEq.trans (BEq.symm same) (hasInstance_of_conform fits).2⟩
    | stay same => exact ⟨cell.value, BEq.symm same⟩
  intro b mem
  exact (mode.beyond_of_beq same).trans ((mode.foldl_combine_beyond bounds start).2 b mem)

/-- The variable has a value that is beyond those of all its bounds. -/
def Rests (p : Problem) (σ : Valuation) (v : VarId) : Prop :=
  ∃ a, σ v = some a ∧ ∀ q ∈ p.driving v,
    ∃ b, (q.bound p.config.mode).value σ = .ok b ∧ p.config.mode.Beyond a b

theorem Rests.holds {p : Problem} {σ : Valuation} {v : VarId} (rests : Rests p σ v)
    {q : Inequality} (mem : q ∈ p.driving v) : q.holds σ = true := by
  obtain ⟨a, value, bounds⟩ := rests
  obtain ⟨b, bound, beyond⟩ := bounds q mem
  have driven := (Problem.mem_driving_iff.1 mem).2.2
  exact (Inequality.holds_iff_beyond driven).2 ⟨a, b, value, bound, beyond⟩

/-- A variable that does not change when it is looked at, and is not refused, is beyond its
bounds. -/
theorem Steps.rests {p : Problem} {cells cells' : List Cell} {v : VarId} {x : Variable}
    {cell : Cell} {ds : List Diagnostic} (steps : Steps p cells v cells' false ds)
    (found : p.store.get? v = some x) (after : cells'[v.index]? = some cell)
    (free : cell.state ≠ .conflicted) : Rests p (valuation cells') v := by
  cases steps with
  | absent nothing => simp [found, after] at nothing
  | halted cell_eq conflicted =>
      obtain rfl := Option.some.inj (cell_eq.symm.trans after)
      exact absurd conflicted free
  | @refuse before _ bounds candidate turn moves =>
      have inside : v.index < cells.length := (List.getElem?_eq_some_iff.1 turn.cell_eq).1
      rw [List.getElem?_set_self inside] at after
      obtain rfl := Option.some.inj after
      exact absurd rfl free
  | @stay cell _ bounds turn moves =>
      refine ⟨cell.value, by simp [valuation, turn.cell_eq], fun q mem => ?_⟩
      obtain ⟨b, mem, value⟩ := (exists_of_mapM_eq_ok turn.bounds_eq).2 q mem
      exact ⟨b, value, moves.stay_beyond b mem⟩

theorem Reaches.rests {p : Problem} {pt : Point} (h : Reaches p pt) (quiet : pt.changing = [])
    {v : VarId} (active : v ∈ p.active) (done : v ∉ pt.waiting) {cell : Cell}
    (cell_eq : pt.cells[v.index]? = some cell) (free : cell.state ≠ .conflicted) :
    Rests p (valuation pt.cells) v := by
  obtain ⟨before, after, ds, steps, values, same⟩ := h.looked quiet active done
  obtain ⟨x, found, -⟩ := Problem.exists_of_mem_active active
  rw [← values]
  exact steps.rests found (same.trans cell_eq) free

namespace Completed

variable {p : Problem} {settled : Settled} {r : Resolution} {after : Store}
  (h : Completed p settled r after)

include h

theorem valuation_assignment {v : VarId} (contained : p.store.contains v = true) :
    after.valuation v = some (after.assignment v) := by
  have known : (after.valuation v).isSome = true := by
    rw [h.valuation_eq]
    exact isSome_valuation h.length_eq v contained
  obtain ⟨a, value⟩ := Option.isSome_iff_exists.1 known
  rw [Store.assignment, value, Option.getD_some]

theorem beyond {s : Assignment} (simple : p.store.IsSimple) (defect : p.defect? = none)
    (builtIn : ∀ q ∈ p.constraints, q.IsBuiltIn) (solution : p.IsSolution s)
    (limits : ∀ v, p.store.isSettable v = true → p.config.mode.Limit (s v)) {v : VarId}
    (contained : p.store.contains v = true) :
    p.config.mode.Beyond (s v) (after.assignment v) := by
  have kept := kept_within simple defect builtIn solution limits
  have within := h.keeps kept (within_start simple solution)
  refine within.2 v _ ?_
  rw [← h.valuation_eq]
  exact h.valuation_assignment contained

theorem isSolution (simple : p.store.IsSimple) (defect : p.defect? = none)
    (converged : r.converged = true) : p.IsSolution after.assignment where
  pinned v x found fixed := by
    have start : valuation (startCells p) v = some x.declared := by
      simp [valuation, getElem?_startCells found, Cell.start, fixed]
    have value : after.valuation v = some x.declared := by
      rw [h.pinned ((Store.isSettable_eq found).trans fixed), start]
    rw [Store.assignment, value]
    exact BEq.rfl
  driving q mem v driven settable := by
    have quiet : settled.changing = [] := by simpa [h.converged_eq] using converged
    have listed := Problem.mem_driving_iff.2 ⟨settable, mem, driven⟩
    have active := Problem.mem_active_iff.2 ⟨q, listed⟩
    obtain ⟨pass, reaches⟩ := h.reaches defect
    obtain ⟨x, found, -⟩ := Problem.exists_of_mem_active active
    obtain ⟨cell, cell_eq⟩ := reaches.exists_cell found
    have free := (kept_free simple).reaches (free_start p) reaches
    have rests := reaches.rests quiet active (by simp) cell_eq
      (free cell (List.mem_of_getElem? cell_eq))
    rw [← h.valuation_eq] at rests
    rw [← rests.holds listed]
    refine Inequality.holds_congr fun w read => ?_
    rw [h.valuation_assignment (Problem.contains_of_mem_vars defect mem read)]
    rfl

end Completed

end Run

/-! ## Both modes -/

namespace Problem

theorem IsSolution.of_perm {p p' : Problem} {s : Assignment} (solution : p'.IsSolution s)
    (modes : p'.config.mode = p.config.mode) (stores : p'.store = p.store)
    (constraints : p'.constraints.Perm p.constraints) : p.IsSolution s where
  pinned := by
    rw [← stores]
    exact solution.pinned
  driving q mem := by
    rw [← stores, ← modes]
    exact solution.driving q (constraints.mem_iff.2 mem)

section

variable {p : Problem} (simple : p.store.IsSimple) (builtIn : ∀ q ∈ p.constraints, q.IsBuiltIn)
  {r : Resolution} {after : Store} (h : p.outcome.result = .ok (r, after))

include simple builtIn h

theorem below_assignment (mode : p.config.mode = .greatest) {s : Assignment}
    (solution : p.IsSolution s) {v : VarId} (contained : p.store.contains v = true) :
    (s v).Below (after.assignment v) := by
  obtain ⟨defect, settled, completed⟩ := completed_of_outcome h
  have limits : ∀ v, p.store.isSettable v = true → p.config.mode.Limit (s v) := by
    intro v _
    rw [mode]
    trivial
  have beyond := completed.beyond simple defect builtIn solution limits contained
  rwa [mode] at beyond

theorem assignment_below (mode : p.config.mode = .least) {s : Assignment}
    (solution : p.IsSolution s)
    (types : ∀ v, p.store.isSettable v = true → (s v).HasPaths ∧ (s v).GeneralFree) {v : VarId}
    (contained : p.store.contains v = true) : (after.assignment v).Below (s v) := by
  obtain ⟨defect, settled, completed⟩ := completed_of_outcome h
  have limits : ∀ v, p.store.isSettable v = true → p.config.mode.Limit (s v) := by
    intro v settable
    rw [mode]
    exact Ty.regular_of_generalFree (types v settable).1 (types v settable).2
  have beyond := completed.beyond simple defect builtIn solution limits contained
  rwa [mode] at beyond

omit builtIn in
theorem isSolution_assignment (converged : r.converged = true) :
    p.IsSolution after.assignment := by
  obtain ⟨defect, settled, completed⟩ := completed_of_outcome h
  exact completed.isSolution simple defect converged

omit simple builtIn in
theorem valuation_after {v : VarId} (contained : p.store.contains v = true) :
    after.valuation v = some (after.assignment v) := by
  obtain ⟨-, settled, completed⟩ := completed_of_outcome h
  exact completed.valuation_assignment contained

end

def pinnedElement (mode : SolveMode) : Problem where
  config := { mode }
  store := ⟨[{ owner := "xs", declared := .unknown, value := .unknown },
    { owner := "x", declared := .base .int, value := .base .int }]⟩
  constraints := [⟨.var ⟨0⟩, .app .arrayOf fun _ => .var ⟨1⟩⟩,
    ⟨.app .arrayOf fun _ => .var ⟨1⟩, .var ⟨0⟩⟩]

def arrayOfInt : Assignment := fun v => if v = ⟨0⟩ then .arrayOf (.base .int) none else .base .int

theorem pinnedElement_isSimple (mode : SolveMode) : (pinnedElement mode).store.IsSimple := by
  intro v x found
  rcases List.mem_cons.1 (List.mem_of_getElem? found) with rfl | mem
  · exact .inl rfl
  · rw [List.mem_singleton.1 mem]
    exact .inr rfl

theorem pinnedElement_isBuiltIn (mode : SolveMode) :
    ∀ q ∈ (pinnedElement mode).constraints, q.IsBuiltIn := by
  simp [pinnedElement, Inequality.IsBuiltIn, Term.IsBuiltIn, Operator.isBuiltIn]

theorem pinnedElement_outcome {mode : SolveMode} {r : Resolution} {after : Store}
    (h : (pinnedElement mode).outcome.result = .ok (r, after)) :
    r.converged = true ∧ r.passes = 2 ∧
      ∃ t, after.valuation ⟨0⟩ = some t ∧ (t == .arrayOf (.base .int) none) = true := by
  have verdict : ((pinnedElement mode).outcome.result.toOption.any fun o => o.1.converged &&
      (o.1.passes == 2 && (o.2.valuation ⟨0⟩).any (· == .arrayOf (.base .int) none))) = true := by
    cases mode <;> decide +kernel
  obtain ⟨converged, test⟩ := Bool.and_eq_true_iff.1 (test_of_verdict verdict h)
  obtain ⟨passes, value⟩ := Bool.and_eq_true_iff.1 test
  exact ⟨converged, beq_iff_eq.1 passes, (Option.any_eq_true _ _).1 value⟩

private theorem arrayOfInt_isSolution (mode : SolveMode) :
    (pinnedElement mode).IsSolution arrayOfInt where
  pinned v x found fixed := by
    match v with
    | ⟨0⟩ =>
        obtain rfl := Option.some.inj found
        cases fixed
    | ⟨1⟩ =>
        obtain rfl := Option.some.inj found
        rfl
    | ⟨_ + 2⟩ => cases found
  driving q mem _ _ _ := by
    have same : Ty.arrayOf (.base .int) none ≤ Ty.arrayOf (.base .int) none :=
      Ty.le_iff_below.2 (.refl _)
    rcases List.mem_cons.1 mem with rfl | mem
    · exact Inequality.holds_iff.2 ⟨_, _, rfl, rfl, same⟩
    · rw [List.mem_singleton.1 mem]
      exact Inequality.holds_iff.2 ⟨_, _, rfl, rfl, same⟩

/-- Greatest mode finds the greatest solution.  On variables that are declared with `unknown`
or with a constant type, and with built-in operators only, a run does not fail; converged or
not, every solution is below the values it leaves; and if it converged, these values are a
solution, so another converged run on the same inequalities in any order ends with equal
values. -/
theorem greatest_solution {p : Problem} (mode : p.config.mode = .greatest)
    (simple : p.store.IsSimple) (builtIn : ∀ q ∈ p.constraints, q.IsBuiltIn)
    (defect : p.defect? = none) :
    ∃ r after, p.outcome.result = .ok (r, after) ∧
      (∀ s, p.IsSolution s → ∀ v, p.store.contains v = true →
        ∃ t, after.valuation v = some t ∧ s v ≤ t) ∧
      (r.converged = true → p.IsSolution after.assignment) ∧
      ∀ (p' : Problem) (r' : Resolution) (after' : Store), p'.config.mode = .greatest →
        p'.store = p.store → p'.constraints.Perm p.constraints →
        p'.outcome.result = .ok (r', after') → r.converged = true → r'.converged = true →
        ∀ v, p.store.contains v = true →
          ∃ t t', after.valuation v = some t ∧ after'.valuation v = some t' ∧
            (t == t') = true := by
  obtain ⟨r, after, h⟩ := exists_outcome defect (evaluable_of_builtIn defect builtIn)
  refine ⟨r, after, h, ?_, isSolution_assignment simple h, ?_⟩
  · intro s solution v contained
    have below := below_assignment simple builtIn h mode solution contained
    exact ⟨_, valuation_after h contained, Ty.le_iff_below.2 below⟩
  · intro p' r' after' mode' stores perm h' converged converged' v contained
    have simple' : p'.store.IsSimple := stores ▸ simple
    have builtIn' : ∀ q ∈ p'.constraints, q.IsBuiltIn :=
      fun q mem => builtIn q (perm.mem_iff.1 mem)
    have contained' : p'.store.contains v = true := stores ▸ contained
    have solution := isSolution_assignment simple h converged
    have solution' := isSolution_assignment simple' h' converged'
    -- What each run leaves is a solution for the other one.
    have above := below_assignment simple builtIn h mode
      (solution'.of_perm (mode'.trans mode.symm) stores perm) contained
    have below := below_assignment simple' builtIn' h' mode'
      (solution.of_perm (mode.trans mode'.symm) stores.symm perm.symm) contained'
    exact ⟨_, _, valuation_after h contained, valuation_after h' contained', below.beq above⟩

theorem greatest_solution_arrayOfInt :
    ∃ r after t, (pinnedElement .greatest).outcome.result = .ok (r, after) ∧
      r.converged = true ∧ r.passes = 2 ∧ after.valuation ⟨0⟩ = some t ∧
      (t == .arrayOf (.base .int) none) = true ∧
      (pinnedElement .greatest).IsSolution after.assignment ∧
      ∀ s, (pinnedElement .greatest).IsSolution s → s ⟨0⟩ ≤ t := by
  obtain ⟨r, after, h, above, solution, -⟩ := greatest_solution (p := pinnedElement .greatest) rfl
    (pinnedElement_isSimple _) (pinnedElement_isBuiltIn _) rfl
  obtain ⟨converged, passes, t, value, same⟩ := pinnedElement_outcome h
  refine ⟨r, after, t, h, converged, passes, value, same, solution converged, fun s solved => ?_⟩
  obtain ⟨t', value', below⟩ := above s solved ⟨0⟩ rfl
  obtain rfl := Option.some.inj (value.symm.trans value')
  exact below

/-- Least mode does not overshoot.  Under the same conditions a run does not fail, and
converged or not, the values it leaves are below every solution in which no class is given
by an empty path and `general` does not occur in the value of a settable variable. -/
theorem least_solution {p : Problem} (mode : p.config.mode = .least)
    (simple : p.store.IsSimple) (builtIn : ∀ q ∈ p.constraints, q.IsBuiltIn)
    (defect : p.defect? = none) :
    ∃ r after, p.outcome.result = .ok (r, after) ∧
      ∀ s, p.IsSolution s →
        (∀ v, p.store.isSettable v = true → (s v).HasPaths ∧ (s v).GeneralFree) →
        ∀ v, p.store.contains v = true → ∃ t, after.valuation v = some t ∧ t ≤ s v := by
  obtain ⟨r, after, h⟩ := exists_outcome defect (evaluable_of_builtIn defect builtIn)
  refine ⟨r, after, h, fun s solution types v contained => ?_⟩
  have below := assignment_below simple builtIn h mode solution types contained
  exact ⟨_, valuation_after h contained, Ty.le_iff_below.2 below⟩

theorem least_solution_arrayOfInt :
    ∃ r after t, (pinnedElement .least).outcome.result = .ok (r, after) ∧
      r.passes = 2 ∧ after.valuation ⟨0⟩ = some t ∧
      (t == .arrayOf (.base .int) none) = true ∧ t ≤ .arrayOf (.base .int) none := by
  obtain ⟨r, after, h, below⟩ := least_solution (p := pinnedElement .least) rfl
    (pinnedElement_isSimple _) (pinnedElement_isBuiltIn _) rfl
  obtain ⟨-, passes, t, value, same⟩ := pinnedElement_outcome h
  have types (v : VarId) : (arrayOfInt v).HasPaths ∧ (arrayOfInt v).GeneralFree := by
    unfold arrayOfInt
    split
    · exact ⟨by simp, by simp [Ty.GeneralFree, Ty.arrayOf, Ty.Everywhere]⟩
    · exact ⟨by simp, by simp [Ty.GeneralFree, Ty.Everywhere]⟩
  obtain ⟨t', value', least⟩ :=
    below arrayOfInt (arrayOfInt_isSolution _) (fun v _ => types v) ⟨0⟩ rfl
  obtain rfl := Option.some.inj (value.symm.trans value')
  exact ⟨r, after, t, h, passes, value, same, least⟩

end Problem

end DataflowTypes
