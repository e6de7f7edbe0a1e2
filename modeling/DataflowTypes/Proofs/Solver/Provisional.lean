import DataflowTypes.Proofs.Lattice.JoinLaws
import DataflowTypes.Proofs.Solver.States

/-!
# Rejections that are out of date

A rejection is final, but the values that led to it need not be: in least mode a partly declared
variable starts at a value that can lie above its first proper one, and others read it in the
meantime.  Main statement: apart from this, a run that ends without conflicts has rejected no
variable.
-/

namespace DataflowTypes

private theorem SolveMode.foldl_combine_beq {mode : SolveMode} {a : Ty} {bounds : List Ty}
    (within : ∀ b ∈ bounds, mode.Beyond a b) : (bounds.foldl mode.combine a == a) = true := by
  have combine_beq {a b : Ty} (beyond : mode.Beyond a b) : (mode.combine a b == a) = true := by
    cases mode with
    | least => exact Ty.join_beq_left beyond
    | greatest =>
        rw [SolveMode.combine, Ty.meet_eq_left beyond]
        exact BEq.rfl
  -- The fold goes on from a type that denotes the same as the start.
  suffices ∀ start, (start == a) = true → (bounds.foldl mode.combine start == a) = true from
    this a BEq.rfl
  induction bounds with
  | nil => exact fun _ => id
  | cons b bounds ih =>
      intro start same
      obtain ⟨here, later⟩ := List.forall_mem_cons.1 within
      have further := (mode.beyond_of_beq same).trans here
      exact ih later _ (BEq.trans (combine_beq further) same)

/-! ## Terms that grow -/

/-- Larger values of its variables give the term a larger value. -/
def Term.Grows (t : Term) : Prop :=
  ∀ ⦃σ τ : Valuation⦄, (∀ v ∈ t.vars, ∃ a b, σ v = some a ∧ τ v = some b ∧ a.Below b) →
    ∀ ⦃a b⦄, t.value σ = .ok a → t.value τ = .ok b → a.Below b

theorem Term.IsBuiltIn.grows {t : Term} (builtIn : t.IsBuiltIn) : t.Grows := by
  intro σ τ below a b ha hb
  obtain ⟨a', b', ha', hb', result⟩ := Term.value_mono builtIn below
  rw [ha] at ha'
  rw [hb] at hb'
  obtain rfl := Except.ok.inj ha'
  obtain rfl := Except.ok.inj hb'
  exact result

theorem Term.Grows.beyond {t : Term} (grows : t.Grows) {mode : SolveMode} {σ τ : Valuation}
    (beyond : ∀ v ∈ t.vars, ∃ a b, σ v = some a ∧ τ v = some b ∧ mode.Beyond b a) {a b : Ty}
    (before : t.value σ = .ok a) (after : t.value τ = .ok b) : mode.Beyond b a := by
  cases mode with
  | least => exact grows beyond before after
  | greatest =>
      refine grows (fun v read => ?_) after before
      obtain ⟨a, b, ha, hb, below⟩ := beyond v read
      exact ⟨b, a, hb, ha, below⟩

namespace Run

/-! ## Values that have been moved go on in one direction -/

section

variable {p : Problem} {pt pt' : Point}

theorem Advances.onward (h : Advances p pt pt') {i : Nat} {old : Cell}
    (before : pt.cells[i]? = some old) (bound : p.config.mode = .least → old.state ≠ .unbound) :
    ∃ new, pt'.cells[i]? = some new ∧ p.config.mode.Beyond new.value old.value ∧
      (p.config.mode = .least → new.state ≠ .unbound) := by
  rcases h.steps with same | ⟨v, -, changed, ds, steps⟩
  · exact ⟨old, same ▸ before, .refl _ _, bound⟩
  · obtain ⟨new, after, moved⟩ := steps.cell_cases before
    refine ⟨new, after, ?_⟩
    rcases moved with rfl | ⟨-, -, x, bounds, m, -, moves, rfl⟩
    · exact ⟨.refl _ _, bound⟩
    · constructor
      · rcases moves.after_beyond bound with same | ⟨beyond, -⟩
        · rw [same]
          exact .refl _ _
        · exact beyond
      · cases m with
        | stay => exact bound
        | goTo value => simp [Move.after]
        | refuse candidate => simp [Move.after]

theorem Leads.onward (h : Leads p pt pt') {i : Nat} {old : Cell}
    (before : pt.cells[i]? = some old) (bound : p.config.mode = .least → old.state ≠ .unbound) :
    ∃ new, pt'.cells[i]? = some new ∧ p.config.mode.Beyond new.value old.value ∧
      (p.config.mode = .least → new.state ≠ .unbound) := by
  induction h with
  | refl => exact ⟨old, before, .refl _ _, bound⟩
  | tail _ last ih =>
      obtain ⟨between, there, beyond, bound'⟩ := ih
      obtain ⟨new, after, further, bound''⟩ := last.onward there bound'
      exact ⟨new, after, further.trans beyond, bound''⟩

end

/-! ## What led to a rejection -/

/-- The variable starts at a value that is not below the one with which the run leaves it. -/
structure Provisional (p : Problem) (after : Store) (v : VarId) (x : Variable) : Prop where
  least : p.config.mode = .least
  found : p.store.get? v = some x
  settable : x.isSettable = true
  partly : x.declared.isUnknown = false
  lowered : ∃ t, after.valuation v = some t ∧ ¬(Ty.fill .unknown x.declared).Below t

namespace Completed

variable {p : Problem} {settled : Settled} {r : Resolution} {after : Store} {v : VarId}
  (h : Completed p settled r after)

include h

private theorem start_beyond {x : Variable} {t : Ty} (found : p.store.get? v = some x)
    (final : after.valuation v = some t)
    (whole : x.isSettable = false ∨ x.declared.isUnknown = true) :
    p.config.mode.Beyond t (Cell.start p.config.mode x).value := by
  cases settable : x.isSettable with
  | false =>
      have pinned := h.pinned ((Store.isSettable_eq found).trans settable)
      rw [final, valuation, getElem?_startCells found] at pinned
      obtain rfl := Option.some.inj pinned
      exact .refl _ _
  | true =>
      have unknown := whole.resolve_left (by simp [settable])
      have start : (Cell.start p.config.mode x).value = p.config.mode.start := by
        simp [Cell.start, settable, unknown]
      rw [start]
      exact p.config.mode.beyond_start t

/-- Where a run stands, each variable is as far as it will come or less, unless it has a
provisional value. -/
theorem onward_or_provisional (defect : p.defect? = none) {pt : Point} (reached : Reaches p pt)
    {x : Variable} (found : p.store.get? v = some x) :
    (∃ a b, valuation pt.cells v = some a ∧ after.valuation v = some b ∧
      p.config.mode.Beyond b a) ∨ Provisional p after v x := by
  obtain ⟨pass, leads⟩ := h.leads defect reached
  obtain ⟨cell, cell_eq⟩ := reached.exists_cell found
  have value : valuation pt.cells v = some cell.value := by simp [valuation, cell_eq]
  by_cases fresh : p.config.mode = .least ∧ cell.state = .unbound
  · obtain ⟨least, unbound⟩ := fresh
    have start := reached.eq_start found cell_eq (by simp [unbound]) (by simp [unbound])
    obtain ⟨last, -, left⟩ := h.exists_get? found
    have final : after.valuation v = some last.value := by simp [Store.valuation, left]
    by_cases beyond : p.config.mode.Beyond last.value cell.value
    · exact .inl ⟨_, _, value, final, beyond⟩
    · right
      rw [start] at beyond
      have partly := mt (h.start_beyond found final) beyond
      simp only [not_or, Bool.not_eq_false, Bool.not_eq_true] at partly
      refine ⟨least, found, partly.1, partly.2, last.value, final, fun below => beyond ?_⟩
      simpa [Cell.start, partly, least, SolveMode.Beyond, SolveMode.start, flip] using below
  · obtain ⟨last, last_eq, beyond, -⟩ := leads.onward cell_eq fun least unbound =>
      fresh ⟨least, unbound⟩
    refine .inl ⟨_, _, value, ?_, beyond⟩
    rw [h.valuation_eq]
    exact congrArg (Option.map Cell.value) last_eq

/-- If a variable was rejected, and yet is beyond all its bounds in the end, then one of them
reads a provisional value. -/
theorem exists_provisional (defect : p.defect? = none)
    (grows : ∀ q ∈ p.driving v, (q.bound p.config.mode).Grows)
    (holds : ∀ q ∈ p.driving v, q.holds after.valuation = true) (rejects : Rejects p v) :
    ∃ q ∈ p.driving v, ∃ w ∈ (q.bound p.config.mode).vars, ∃ x, Provisional p after w x := by
  obtain ⟨pt, waiting, cell, y, bounds, candidate, reached, next, turn, refused, -⟩ := rejects
  have last := h.refused defect reached next turn refused
  -- Else its bounds were no further than they are in the end, and asked for no move.
  by_contra none
  have within : ∀ b ∈ bounds, p.config.mode.Beyond cell.value b := by
    intro b mem
    obtain ⟨q, mem, before⟩ := (exists_of_mapM_eq_ok turn.bounds_eq).1 b mem
    obtain ⟨-, listed, driven⟩ := Problem.mem_driving_iff.1 mem
    obtain ⟨a, b', value, after_eq, beyond⟩ :=
      (Inequality.holds_iff_beyond driven).1 (holds q mem)
    obtain rfl : cell.value = a := by
      rw [h.valuation_eq] at value
      simpa [valuation, last] using value
    refine beyond.trans ((grows q mem).beyond (fun w read => ?_) before after_eq)
    obtain ⟨x, found⟩ := Store.exists_of_contains
      (Problem.contains_of_mem_vars defect listed (Inequality.mem_vars_of_bound read))
    refine (h.onward_or_provisional defect reached found).resolve_right fun provisional => ?_
    exact none ⟨q, mem, w, read, x, provisional⟩
  have moves := moves_move p.config.mode y.declared cell bounds
  rw [refused] at moves
  cases moves with
  | refuse _ different => simp [SolveMode.foldl_combine_beq within] at different

end Completed

end Run

namespace Problem

/-- What a run without conflicts leaves conflicted.  Whatever the store, the inequalities and the
settings, these are exactly the variables that the run has rejected on the way.  If the bounds
grow with the variables that they read, as all built-in terms do, each of them reads a provisional
value: that of a partly declared variable which starts, in least mode, at a value that is not
below the one in which it ends.  So in greatest mode, or if all variables that are read start
below their final values, no variable is left conflicted. -/
theorem success_conflicted {p : Problem} {r : Resolution} {after : Store}
    (h : p.outcome.result = .ok (r, after)) (success : r.isSuccess = true) :
    (∀ v y, after.get? v = some y → (y.state = .conflicted ↔ Run.Rejects p v)) ∧
      ((∀ q ∈ p.constraints, (q.bound p.config.mode).Grows) →
        ∀ v y, after.get? v = some y → y.state = .conflicted →
          ∃ q ∈ p.driving v, ∃ w ∈ (q.bound p.config.mode).vars, ∃ x,
            Run.Provisional p after w x) := by
  obtain ⟨defect, settled, completed⟩ := completed_of_outcome h
  have rejected : ∀ v y, after.get? v = some y → (y.state = .conflicted ↔ Run.Rejects p v) := by
    intro v y found
    obtain ⟨x, cell, original, cell_eq, rfl⟩ := completed.exists_of_get? found
    rw [Run.finalState_eq_conflicted_iff, List.isEmpty_iff.1 success,
      completed.conflicted_iff defect original cell_eq]
    simp
  refine ⟨rejected, fun grows v y found conflicted => ?_⟩
  have holds := ((completed.isSuccess_iff).1 success).2.1
  refine completed.exists_provisional defect (fun q mem => grows q ?_) (fun q mem => holds q ?_)
    ((rejected v y found).1 conflicted)
  · exact (mem_driving_iff.1 mem).2.1
  · exact (mem_driving_iff.1 mem).2.1

/-- A variable for arrays of three above one for arrays of any length, which is itself above an
array of three. -/
def hasty : Problem where
  config := { checkAcceptability := false }
  store := ⟨[{ owner := "xs", declared := .arrayOf .unknown (some 3), value := .unknown },
    { owner := "ys", declared := .arrayOf .unknown none, value := .unknown }]⟩
  constraints := [⟨.var ⟨1⟩, .var ⟨0⟩⟩, ⟨.const (.arrayOf .unknown (some 3)), .var ⟨1⟩⟩]

theorem hasty_outcome : ∃ r after y, hasty.outcome.result = .ok (r, after) ∧
    r.isSuccess = true ∧ after.get? ⟨0⟩ = some y ∧ y.state = .conflicted := by
  have verdict : (hasty.outcome.result.toOption.any fun o =>
      o.1.isSuccess && (o.2.get? ⟨0⟩).any (·.state == .conflicted)) = true := by
    decide +kernel
  obtain ⟨r, after, h, test⟩ := exists_of_verdict verdict
  obtain ⟨success, left⟩ := Bool.and_eq_true_iff.1 test
  obtain ⟨y, found, state⟩ := (Option.any_eq_true _ _).1 left
  exact ⟨r, after, y, h, success, found, beq_iff_eq.1 state⟩

theorem success_conflicted_hasty :
    ∃ r after, hasty.outcome.result = .ok (r, after) ∧ r.isSuccess = true ∧
      Run.Rejects hasty ⟨0⟩ ∧ ∃ x, Run.Provisional hasty after ⟨1⟩ x := by
  obtain ⟨r, after, y, h, success, found, conflicted⟩ := hasty_outcome
  obtain ⟨rejected, provisional⟩ := success_conflicted h success
  have grows : ∀ q ∈ hasty.constraints, (q.bound hasty.config.mode).Grows := by
    intro q mem
    refine Term.IsBuiltIn.grows ?_
    simp only [hasty, List.mem_cons, List.not_mem_nil, or_false] at mem
    rcases mem with rfl | rfl <;> trivial
  obtain ⟨q, mem, w, read, x, provisional⟩ := provisional grows ⟨0⟩ y found conflicted
  have first : hasty.driving ⟨0⟩ = [⟨.var ⟨1⟩, .var ⟨0⟩⟩] := rfl
  obtain rfl := List.mem_singleton.1 (first ▸ mem)
  obtain rfl := List.mem_singleton.1 read
  exact ⟨r, after, h, success, (rejected ⟨0⟩ y found).1 conflicted, x, provisional⟩

/-- A run without conflicts can leave a variable conflicted, though every inequality holds. -/
theorem success_leaves_conflicted :
    ∃ r after y, hasty.outcome.result = .ok (r, after) ∧ r.isSuccess = true ∧
      (∀ q ∈ hasty.constraints, q.holds after.valuation = true) ∧
      after.get? ⟨0⟩ = some y ∧ y.state = .conflicted := by
  obtain ⟨r, after, y, h, success, found, conflicted⟩ := hasty_outcome
  obtain ⟨-, settled, completed⟩ := completed_of_outcome h
  exact ⟨r, after, y, h, success, (completed.isSuccess_iff.1 success).2.1, found, conflicted⟩

end Problem

end DataflowTypes
