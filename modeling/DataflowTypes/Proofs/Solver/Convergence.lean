import DataflowTypes.Proofs.Lattice.Flat
import DataflowTypes.Proofs.Solver.Directed
import Mathlib.Algebra.GroupWithZero.Nat
import Mathlib.Algebra.Order.BigOperators.Group.List
import Mathlib.Algebra.Order.Group.Nat

/-!
# Convergence on flat types

If all declared types are flat, and the inequalities are between flat constants and variables,
every value stays flat, and each change of a value uses up one of the at most nine steps that
it can be moved.  Main statement: such a run converges after at most nine passes for each
settable variable, and one more in which nothing changes.
-/

namespace DataflowTypes

/-! ## Flat problems -/

def Store.settable (s : Store) : List VarId := (s.entries.filter (·.2.isSettable)).map (·.1)

private theorem Store.mem_settable_iff {s : Store} {v : VarId} :
    v ∈ s.settable ↔ s.isSettable v = true := by
  simp only [settable, List.mem_map, List.mem_filter, isSettable, Option.any_eq_true]
  constructor
  · rintro ⟨⟨w, x⟩, ⟨listed, settable⟩, rfl⟩
    exact ⟨x, Run.mem_entries_iff.1 listed, settable⟩
  · rintro ⟨x, found, settable⟩
    exact ⟨(v, x), ⟨Run.mem_entries_iff.2 found, settable⟩, rfl⟩

def Term.IsFlat (s : Store) : Term → Prop
  | .const t => t.isStructured = false
  | .var v => s.contains v = true
  | .app _ _ => False

structure Problem.IsFlat (p : Problem) : Prop where
  declared : ∀ v x, p.store.get? v = some x → x.declared.isStructured = false
  terms : ∀ q ∈ p.constraints, q.lesser.IsFlat p.store ∧ q.greater.IsFlat p.store

section

variable {s : Store} {t : Term} (flat : t.IsFlat s)

include flat

theorem Term.IsFlat.isBuiltIn : t.IsBuiltIn := by
  cases t with
  | app => cases flat
  | _ => trivial

theorem Term.IsFlat.contains {v : VarId} (read : v ∈ t.vars) : s.contains v = true := by
  cases t with
  | const => cases read
  | var w =>
      obtain rfl := List.mem_singleton.1 read
      exact flat
  | app => cases flat

theorem Term.IsFlat.value {σ : Valuation} {a : Ty} (value : t.value σ = .ok a)
    (values : ∀ v b, σ v = some b → b.isStructured = false) : a.isStructured = false := by
  cases t with
  | const c =>
      obtain rfl : c = a := Except.ok.inj value
      exact flat
  | var v =>
      cases known : σ v with
      | none => simp [Term.value, known] at value
      | some b =>
          obtain rfl : b = a := by simpa [Term.value, known] using value
          exact values v b known
  | app => cases flat

end

namespace Problem.IsFlat

variable {p : Problem} (flat : p.IsFlat)

include flat

theorem isSimple : p.store.IsSimple := by
  intro v x found
  have declared := flat.declared v x found
  cases h : x.declared with
  | base b => cases b <;> simp [Ty.isUnknown, Ty.isConstant]
  | matrix k => exact .inr rfl
  | _ => simp [h, Ty.isStructured, Ty.family?] at declared

private theorem defect?_eq_none (some : p.config.maxPasses ≠ 0) : p.defect? = none := by
  refine Problem.defect?_eq_none_iff.2 ⟨some, fun q mem v read => ?_⟩
  rcases Inequality.mem_vars.1 read with read | read
  · exact (flat.terms q mem).1.contains read
  · exact (flat.terms q mem).2.contains read

theorem evaluable (defect : p.defect? = none) : p.Evaluable :=
  evaluable_of_builtIn defect fun q mem =>
    ⟨(flat.terms q mem).1.isBuiltIn, (flat.terms q mem).2.isBuiltIn⟩

theorem bound {q : Inequality} (mem : q ∈ p.constraints) :
    (q.bound p.config.mode).IsFlat p.store := by
  cases p.config.mode with
  | least => exact (flat.terms q mem).1
  | greatest => exact (flat.terms q mem).2

end Problem.IsFlat

/-! ## How far a value can be moved -/

namespace SolveMode

variable {mode : SolveMode}

theorem isStructured_start (mode : SolveMode) : mode.start.isStructured = false := by
  cases mode <;> rfl

private theorem isStructured_foldl_combine {bounds : List Ty} {start : Ty}
    (first : start.isStructured = false) (rest : ∀ b ∈ bounds, b.isStructured = false) :
    (bounds.foldl mode.combine start).isStructured = false := by
  induction bounds generalizing start with
  | nil => exact first
  | cons b bounds ih =>
      obtain ⟨here, later⟩ := List.forall_mem_cons.1 rest
      refine ih ?_ later
      cases mode with
      | least => exact Ty.isStructured_join first here
      | greatest => exact Ty.isStructured_meet first here

/-- The levels between a flat type and the end of the order towards which the mode moves. -/
def room : SolveMode → Ty → Nat
  | .least, t => 9 - BaseOrder.level t.node
  | .greatest, t => BaseOrder.level t.node

private theorem room_le (mode : SolveMode) (t : Ty) : mode.room t ≤ 9 := by
  cases mode with
  | least => exact Nat.sub_le 9 _
  | greatest => exact BaseOrder.level_le t.node

private theorem room_lt {a b : Ty} (ha : a.isStructured = false) (hb : b.isStructured = false)
    (beyond : mode.Beyond b a) (different : (b == a) = false) : mode.room b < mode.room a := by
  cases mode with
  | least =>
      have higher := Ty.level_lt_of_below ha hb beyond (by rwa [BEq.comm])
      have bound := BaseOrder.level_le b.node
      simp only [room]
      omega
  | greatest => exact Ty.level_lt_of_below hb ha beyond different

end SolveMode

namespace Run

private theorem Moves.goTo_beyond {mode : SolveMode} {declared value : Ty} {cell : Cell}
    {bounds : List Ty} (unknown : declared.isUnknown = true)
    (start : mode = .least → cell.state = .unbound → cell.value = mode.start)
    (moves : Moves mode declared cell bounds (.goTo value)) :
    mode.Beyond value cell.value ∧ (value == cell.value) = false := by
  cases moves with
  | goToFirst least unbound fits different =>
      rw [start least unbound]
      exact ⟨mode.beyond_start value, by rwa [← start least unbound]⟩
  | goTo fits different =>
      rw [conform_unknown unknown] at fits
      obtain rfl := Option.some.inj fits
      exact ⟨(mode.foldl_combine_beyond bounds cell.value).1, different⟩

/-! ## Values of a flat run -/

def FlatValues (cells : List Cell) : Prop :=
  ∀ v t, valuation cells v = some t → t.isStructured = false

section

variable {p : Problem} (flat : p.IsFlat)

include flat

private theorem flatValues_start : FlatValues (startCells p) := by
  intro v t value
  obtain ⟨x, found, rfl⟩ := exists_of_valuation_start value
  cases settable : x.isSettable with
  | false => simpa [Cell.start, settable] using flat.declared v x found
  | true =>
      have unknown := flat.isSimple.isUnknown found ((Store.isSettable_eq found).trans settable)
      simpa [Cell.start, settable, unknown] using p.config.mode.isStructured_start

theorem kept_flatValues : Kept p p.active FlatValues := by
  intro v active cells cells' changed ds values steps
  cases changed with
  | false =>
      rw [FlatValues, steps.valuation_eq]
      exact values
  | true =>
      cases steps with
      | @goTo cell x bounds value turn moves =>
          have unknown := flat.isSimple.isUnknown turn.variable_eq
            (Problem.isSettable_of_mem_active active)
          obtain ⟨start, started, rfl⟩ := moves.goTo_eq unknown
          have first : start.isStructured = false := by
            rcases started with rfl | rfl
            · exact values v _ (by simp [valuation, turn.cell_eq])
            · exact p.config.mode.isStructured_start
          have rest : ∀ b ∈ bounds, b.isStructured = false := by
            intro b mem
            obtain ⟨q, mem, value⟩ := (exists_of_mapM_eq_ok turn.bounds_eq).1 b mem
            exact (flat.bound (Problem.mem_driving_iff.1 mem).2.1).value value values
          exact forall_valuation_set turn.cell_eq
            (SolveMode.isStructured_foldl_combine first rest) values

theorem Reaches.flatValues {pt : Point} (h : Reaches p pt) : FlatValues pt.cells :=
  (kept_flatValues flat).reaches (flatValues_start flat) h

end

/-! ## Counting passes -/

def remaining (p : Problem) (cells : List Cell) : Nat :=
  (p.store.settable.map fun v => (valuation cells v).elim 0 p.config.mode.room).sum

private theorem remaining_le (p : Problem) (cells : List Cell) :
    remaining p cells ≤ 9 * p.store.settable.length := by
  have bound := List.sum_le_card_nsmul
    (p.store.settable.map fun v => (valuation cells v).elim 0 p.config.mode.room) 9 ?_
  · simpa [remaining, Nat.mul_comm] using bound
  · intro n mem
    obtain ⟨v, -, rfl⟩ := List.mem_map.1 mem
    cases valuation cells v with
    | none => exact Nat.zero_le 9
    | some t => exact p.config.mode.room_le t

section

variable {p : Problem} (flat : p.IsFlat) {pt : Point}

include flat

/-- A step that changes a value uses up room of its variable, and of no other. -/
theorem Reaches.remaining_lt (h : Reaches p pt) {v : VarId} (active : v ∈ p.active)
    {cells' : List Cell} {ds : List Diagnostic} (steps : Steps p pt.cells v cells' true ds) :
    remaining p cells' < remaining p pt.cells := by
  have values' := kept_flatValues flat v active (h.flatValues flat) steps
  cases steps with
  | @goTo cell x bounds value turn moves =>
      have settable := Problem.isSettable_of_mem_active active
      have unknown := flat.isSimple.isUnknown turn.variable_eq settable
      have here : valuation pt.cells v = some cell.value := by simp [valuation, turn.cell_eq]
      have after := valuation_set turn.cell_eq { value, state := .tentative }
      obtain ⟨beyond, different⟩ := moves.goTo_beyond unknown fun _ unbound => by
        rw [h.eq_start turn.variable_eq turn.cell_eq (by simp [unbound]) turn.free]
        simp [Cell.start, ← Store.isSettable_eq turn.variable_eq, settable, unknown]
      have lower : p.config.mode.room value < p.config.mode.room cell.value :=
        SolveMode.room_lt (h.flatValues flat v _ here) (values' v value (by simp [after])) beyond
          different
      refine List.sum_lt_sum _ _ (fun w _ => ?_) ⟨v, Store.mem_settable_iff.2 settable, ?_⟩
      · rw [after]
        by_cases same : w = v
        · subst same
          simpa [here] using Nat.le_of_lt lower
        · rw [Function.update_of_ne same]
      · simpa [after, here] using lower

theorem Reaches.pass_le (h : Reaches p pt) :
    pt.pass + pt.changing.length + remaining p pt.cells ≤ 9 * p.store.settable.length + 1 := by
  induction h with
  | refl =>
      have start := remaining_le p (startCells p)
      simp only [Point.start, List.length_nil]
      omega
  | tail before last ih =>
      cases last with
      | again changed left =>
          -- Another pass is made only after a change, which makes up for it.
          have some := List.length_pos_iff.2 changed
          simp only [List.length_nil] at ih ⊢
          omega
      | @move pass v waiting changing cells cells' changed t t' step =>
          obtain ⟨ds, steps, -⟩ := steps_of_yields step
          cases changed with
          | false =>
              have same : remaining p cells' = remaining p cells := by
                rw [remaining, steps.valuation_eq, remaining]
              simpa [same] using ih
          | true =>
              have active := Reaches.mem_active before v List.mem_cons_self
              have lower := Reaches.remaining_lt flat before active steps
              simp only [if_true, List.length_append, List.length_singleton] at ih lower ⊢
              omega

end

end Run

namespace Problem

/-- Flat systems converge.  If all declared types and constants are flat, no operator occurs, and
there are at least nine passes for each settable variable and one more, a run returns and has
converged within that many passes, whatever the mode and however the inequalities are connected;
and every value that it leaves is flat.  Nine is the number of steps of the longest chain of the
base order. -/
theorem flat_converges {p : Problem} (flat : p.IsFlat)
    (enough : 9 * p.store.settable.length + 1 ≤ p.config.maxPasses) :
    (∃ r after, p.outcome.result = .ok (r, after) ∧ r.converged = true ∧
      r.passes ≤ 9 * p.store.settable.length + 1 ∧
      ∀ v x, after.get? v = some x → x.value.isStructured = false) ∧
    IsGreatest {steps | ∃ chain : List Node,
      chain.IsChain BaseOrder.Covers ∧ chain.length = steps + 1} 9 := by
  refine ⟨?_, BaseOrder.height_isGreatest⟩
  have defect := flat.defect?_eq_none (by omega)
  obtain ⟨r, after, h⟩ := exists_outcome defect (flat.evaluable defect)
  obtain ⟨-, settled, completed⟩ := completed_of_outcome h
  obtain ⟨pass, counted, usedUp, reaches⟩ := completed.reaches_passes defect
  have bound := reaches.pass_le flat
  dsimp only at bound
  have quiet : settled.changing = [] := by
    -- Else all passes were used up, and a change was made in the last one as well.
    by_contra changing
    have some := List.length_pos_iff.2 changing
    have last := usedUp changing
    omega
  refine ⟨r, after, h, ?_, ?_, ?_⟩
  · simp [completed.converged_eq, quiet]
  · rw [completed.passes_eq]
    omega
  · intro v x found
    refine reaches.flatValues flat v x.value ?_
    rw [← completed.valuation_eq]
    simp [Store.valuation, found]

def circle : Problem where
  config := { maxPasses := 19 }
  store := ⟨[{ owner := "x", declared := .unknown, value := .unknown },
    { owner := "y", declared := .unknown, value := .unknown },
    { owner := "z", declared := .matrix .int, value := .matrix .int }]⟩
  constraints := [⟨.var ⟨0⟩, .var ⟨1⟩⟩, ⟨.var ⟨1⟩, .var ⟨0⟩⟩, ⟨.const (.base .int), .var ⟨0⟩⟩,
    ⟨.var ⟨1⟩, .var ⟨2⟩⟩]

theorem flat_converges_circle :
    circle.IsFlat ∧ ∃ r after, circle.outcome.result = .ok (r, after) ∧ r.converged = true ∧
      r.passes = 2 ∧
      (after.vars.map (·.value) == [.base .int, .base .int, .matrix .int]) = true := by
  have flat : circle.IsFlat := by
    constructor
    · intro v x found
      have mem := List.mem_of_getElem? found
      simp only [circle, List.mem_cons, List.not_mem_nil, or_false] at mem
      rcases mem with rfl | rfl | rfl <;> rfl
    · intro q mem
      simp only [circle, List.mem_cons, List.not_mem_nil, or_false] at mem
      rcases mem with rfl | rfl | rfl | rfl <;> exact ⟨rfl, rfl⟩
  have verdict : (circle.outcome.result.toOption.any fun o => o.1.passes == 2 &&
      o.2.vars.map (·.value) == [.base .int, .base .int, .matrix .int]) = true := by
    decide +kernel
  obtain ⟨⟨r, after, h, converged, -⟩, -⟩ := flat_converges flat (Nat.le_refl 19)
  obtain ⟨passes, values⟩ := Bool.and_eq_true_iff.1 (test_of_verdict verdict h)
  exact ⟨flat, r, after, h, converged, beq_iff_eq.1 passes, values⟩

end Problem

end DataflowTypes
