import DataflowTypes.Proofs.Solver.Move

/-!
# The direction of a run

What the steps of a run do to values.  Main statement: at every point that a run comes to, the
value of each variable is an instance of its declared type, what was refused a move stays as
it is, and a value that takes the place of another one lies strictly further in the direction
of the mode, except for the first value in least mode.
-/

namespace DataflowTypes

namespace Ty

private theorem compare_eq_lower {a b : Ty} (below : Below a b) (different : (a == b) = false) :
    a.compare b = .lower := by
  refine (compare_reflects a b).unique (Comparison.reflects_lower_iff.2 ⟨below, fun above => ?_⟩)
  simp [below.beq above] at different

private theorem compare_eq_higher {a b : Ty} (above : Below b a) (different : (a == b) = false) :
    a.compare b = .higher := by
  refine (compare_reflects a b).unique (Comparison.reflects_higher_iff.2 ⟨fun below => ?_, above⟩)
  simp [below.beq above] at different

end Ty

namespace Run

/-! ## What happens to a cell -/

section

variable {p : Problem} {cells cells' : List Cell} {v : VarId} {changed : Bool}
  {ds : List Diagnostic}

theorem Steps.cell_cases (h : Steps p cells v cells' changed ds) {i : Nat} {cell : Cell}
    (before : cells[i]? = some cell) :
    ∃ cell', cells'[i]? = some cell' ∧
      (cell' = cell ∨ v.index = i ∧ cell.state ≠ .conflicted ∧ ∃ x bounds m,
        p.store.get? v = some x ∧ Moves p.config.mode x.declared cell bounds m ∧
          cell' = m.after cell) := by
  by_cases same : v.index = i
  · subst same
    have inside : v.index < cells.length := (List.getElem?_eq_some_iff.1 before).1
    cases h with
    | absent => exact ⟨cell, before, .inl rfl⟩
    | halted => exact ⟨cell, before, .inl rfl⟩
    | stay => exact ⟨cell, before, .inl rfl⟩
    | goTo turn moves =>
        obtain rfl := Option.some.inj (before.symm.trans turn.cell_eq)
        refine ⟨_, List.getElem?_set_self inside, .inr ?_⟩
        exact ⟨rfl, turn.free, _, _, _, turn.variable_eq, moves, rfl⟩
    | refuse turn moves =>
        obtain rfl := Option.some.inj (before.symm.trans turn.cell_eq)
        refine ⟨_, List.getElem?_set_self inside, .inr ?_⟩
        exact ⟨rfl, turn.free, _, _, _, turn.variable_eq, moves, rfl⟩
  · exact ⟨cell, (h.getElem?_eq same).trans before, .inl rfl⟩

variable {mode : SolveMode} {declared : Ty} {cell : Cell} {bounds : List Ty} {m : Move}

private theorem Moves.after_hasInstance (moves : Moves mode declared cell bounds m)
    (start : declared.hasInstance cell.value = true) :
    declared.hasInstance (m.after cell).value = true := by
  cases moves with
  | goToFirst _ _ fits _ => exact (hasInstance_of_conform fits).1
  | goTo fits _ => exact (hasInstance_of_conform fits).1
  | _ => exact start

theorem Moves.after_beyond (moves : Moves mode declared cell bounds m)
    (bound : mode = .least → cell.state ≠ .unbound) :
    (m.after cell).value = cell.value ∨ mode.Beyond (m.after cell).value cell.value ∧
      ((m.after cell).value == cell.value) = false := by
  cases moves with
  | goToFirst least unbound _ _ => exact absurd unbound (bound least)
  | goTo fits different =>
      have same := (hasInstance_of_conform fits).2
      refine .inr ⟨(mode.beyond_of_beq same).trans (mode.foldl_combine_beyond bounds _).1, ?_⟩
      rw [← different]
      exact BEq.congr_left same
  | _ => exact .inl rfl

end

/-! ## Values within their declared forms -/

/-- Each variable has a value, which is an instance of its declared type, and the declared type
itself if it cannot be refined. -/
def Formed (p : Problem) (cells : List Cell) : Prop :=
  ∀ v x, p.store.get? v = some x → ∃ cell, cells[v.index]? = some cell ∧
    x.declared.hasInstance cell.value = true ∧ (x.isSettable = false → cell.value = x.declared)

section

variable {p : Problem}

private theorem formed_start (declared : ∀ v x, p.store.get? v = some x → x.declared.Coherent) :
    Formed p (startCells p) := by
  intro v x found
  have coherent := declared v x found
  refine ⟨_, getElem?_startCells found, ?_, fun fixed => by simp [Cell.start, fixed]⟩
  cases settable : x.isSettable with
  | false => simpa [Cell.start, settable] using coherent.hasInstance_self
  | true =>
      cases unknown : x.declared.isUnknown with
      | true => exact Ty.hasInstance_of_isUnknown unknown _
      | false =>
          have start : p.config.mode.start.Coherent := by cases p.config.mode <;> trivial
          simpa [Cell.start, settable, unknown] using (Ty.admits_fill start coherent).1

private theorem kept_formed (p : Problem) : Kept p p.active (Formed p) := by
  intro v active cells cells' changed ds formed steps w x found
  obtain ⟨cell, before, is_instance, pinned⟩ := formed w x found
  obtain ⟨cell', after, same | ⟨index, -, y, bounds, m, found', moves, same⟩⟩ :=
    steps.cell_cases before
  · rw [same] at after
    exact ⟨cell, after, is_instance, pinned⟩
  · obtain rfl : v = w := congrArg VarId.mk index
    obtain rfl := Option.some.inj (found.symm.trans found')
    rw [same] at after
    refine ⟨_, after, moves.after_hasInstance is_instance, fun fixed => ?_⟩
    have settable := Problem.isSettable_of_mem_active active
    simp [Store.isSettable, found, fixed] at settable

end

/-! ## Variables that have not been moved -/

def Untouched (p : Problem) (cells : List Cell) : Prop :=
  ∀ v x cell, p.store.get? v = some x → cells[v.index]? = some cell →
    cell.state ≠ .tentative → cell.state ≠ .conflicted → cell = Cell.start p.config.mode x

private theorem Move.after_eq_self {m : Move} {cell : Cell}
    (unmoved : (m.after cell).state ≠ .tentative) (free : (m.after cell).state ≠ .conflicted) :
    m.after cell = cell := by
  cases m with
  | stay => rfl
  | goTo value => exact absurd rfl unmoved
  | refuse candidate => exact absurd rfl free

private theorem untouched_start (p : Problem) : Untouched p (startCells p) := by
  intro v x cell found cell_eq _ _
  exact Option.some.inj (cell_eq.symm.trans (getElem?_startCells found))

private theorem kept_untouched (p : Problem) : Kept p p.active (Untouched p) := by
  intro v _ cells cells' changed ds untouched steps w x new found after unmoved free
  have inside : w.index < cells.length :=
    steps.length_eq ▸ (List.getElem?_eq_some_iff.1 after).1
  have before : cells[w.index]? = some cells[w.index] := List.getElem?_eq_getElem inside
  generalize cells[w.index] = old at before
  obtain ⟨cell, after', moved⟩ := steps.cell_cases before
  obtain rfl := Option.some.inj (after.symm.trans after')
  rcases moved with rfl | ⟨-, -, _, _, m, -, -, rfl⟩
  · exact untouched w x new found before unmoved free
  · have same := Move.after_eq_self unmoved free
    rw [same] at unmoved free ⊢
    exact untouched w x old found before unmoved free

theorem Reaches.eq_start {p : Problem} {pt : Point} (h : Reaches p pt) {v : VarId} {x : Variable}
    {cell : Cell} (found : p.store.get? v = some x) (cell_eq : pt.cells[v.index]? = some cell)
    (unmoved : cell.state ≠ .tentative) (free : cell.state ≠ .conflicted) :
    cell = Cell.start p.config.mode x :=
  (kept_untouched p).reaches (untouched_start p) h v x cell found cell_eq unmoved free

/-! ## Steps and what they do to values -/

section

variable {p : Problem} {pt pt' : Point}

theorem Advances.conflicted (h : Advances p pt pt') {i : Nat} {cell : Cell}
    (cell_eq : pt.cells[i]? = some cell) (conflicted : cell.state = .conflicted) :
    pt'.cells[i]? = some cell := by
  rcases h.steps with same | ⟨v, -, changed, ds, steps⟩
  · rwa [same]
  · obtain ⟨cell', after, same | ⟨-, free, -⟩⟩ := steps.cell_cases cell_eq
    · rwa [same] at after
    · exact absurd conflicted free

theorem Leads.conflicted (h : Leads p pt pt') {i : Nat} {cell : Cell}
    (cell_eq : pt.cells[i]? = some cell) (conflicted : cell.state = .conflicted) :
    pt'.cells[i]? = some cell := by
  induction h with
  | refl => exact cell_eq
  | tail _ last ih => exact last.conflicted ih conflicted

/-- A value is replaced only by one beyond it, unless the variable is moved for the first time
in least mode. -/
theorem Advances.beyond (h : Advances p pt pt') {i : Nat} {old new : Cell}
    (before : pt.cells[i]? = some old) (after : pt'.cells[i]? = some new)
    (bound : p.config.mode = .least → old.state ≠ .unbound) (replaced : new.value ≠ old.value) :
    p.config.mode.Beyond new.value old.value ∧ (new.value == old.value) = false := by
  rcases h.steps with same | ⟨v, -, changed, ds, steps⟩
  · rw [same, before] at after
    exact absurd (congrArg Cell.value (Option.some.inj after).symm) replaced
  · obtain ⟨cell', after', cases⟩ := steps.cell_cases before
    obtain rfl := Option.some.inj (after.symm.trans after')
    rcases cases with same | ⟨-, -, x, bounds, m, -, moves, same⟩
    · exact absurd (congrArg Cell.value same) replaced
    · subst same
      exact (moves.after_beyond bound).resolve_left replaced

end

end Run

namespace Problem

/-- Values move in one direction and stay in their declared form.  Whatever the inequalities and
the mode, at every point that a run comes to, each variable has an instance of its declared type,
and a pinned one the declared type itself; a variable that was refused a move is never changed
again; in greatest mode a value is replaced only by a lower one, and in least mode the value of
a variable that has been moved is replaced only by a higher one.  A run that returns leaves the
values of such a point, with conflicts or without, converged or not. -/
theorem values_directed {p : Problem}
    (declared : ∀ v x, p.store.get? v = some x → x.declared.Obtained) :
    (∀ pt, Run.Reaches p pt → Run.Formed p pt.cells) ∧
      (∀ pt pt', Run.Reaches p pt → Run.Leads p pt pt' → ∀ (v : VarId) (cell : Cell),
        pt.cells[v.index]? = some cell → cell.state = .conflicted →
          pt'.cells[v.index]? = some cell) ∧
      (∀ pt pt', Run.Reaches p pt → Run.Advances p pt pt' → ∀ (v : VarId) (old new : Cell),
        pt.cells[v.index]? = some old → pt'.cells[v.index]? = some new → new.value ≠ old.value →
          (p.config.mode = .greatest → new.value.compare old.value = .lower) ∧
            (p.config.mode = .least → old.state = .tentative →
              new.value.compare old.value = .higher)) ∧
      ∀ r after, p.outcome.result = .ok (r, after) →
        (∃ pt, Run.Reaches p pt ∧ pt.waiting = [] ∧ after.valuation = Run.valuation pt.cells) ∧
          ∀ v x, p.store.get? v = some x → ∃ t, after.valuation v = some t ∧
            x.declared.hasInstance t = true ∧ (x.isSettable = false → t = x.declared) := by
  have formed {pt : Run.Point} (h : Run.Reaches p pt) : Run.Formed p pt.cells :=
    (Run.kept_formed p).reaches (Run.formed_start fun v x found => (declared v x found).coherent) h
  refine ⟨fun _ => formed, fun _ _ _ h _ _ => h.conflicted, ?_, ?_⟩
  · intro pt pt' _ h v old new before after replaced
    constructor
    · intro greatest
      obtain ⟨beyond, different⟩ := h.beyond before after (by simp [greatest]) replaced
      rw [greatest] at beyond
      exact Ty.compare_eq_lower beyond different
    · intro least tentative
      obtain ⟨beyond, different⟩ := h.beyond before after (by simp [tentative]) replaced
      rw [least] at beyond
      exact Ty.compare_eq_higher beyond different
  · intro r after h
    obtain ⟨defect, settled, completed⟩ := completed_of_outcome h
    obtain ⟨pass, reaches⟩ := completed.reaches defect
    refine ⟨⟨_, reaches, rfl, completed.valuation_eq⟩, fun v x found => ?_⟩
    obtain ⟨cell, cell_eq, form⟩ := formed reaches v x found
    refine ⟨cell.value, ?_, form⟩
    rw [completed.valuation_eq]
    simp [Run.valuation, cell_eq]

def misfit : Problem where
  config := {}
  store := ⟨[{ owner := "xs", declared := .arrayOf .unknown (some 3), value := .unknown },
    { owner := "x", declared := .unknown, value := .unknown }]⟩
  constraints := [⟨.const (.arrayOf (.base .int) (some 2)), .var ⟨0⟩⟩, ⟨.var ⟨0⟩, .var ⟨1⟩⟩]

private theorem misfit_obtained {v : VarId} {x : Variable} (found : misfit.store.get? v = some x) :
    x.declared.Obtained := by
  rcases List.mem_cons.1 (List.mem_of_getElem? found) with rfl | mem
  · exact .arrayOf (.base _) _
  · rw [List.mem_singleton.1 mem]
    exact .base _

theorem values_directed_misfit :
    ∃ r after, misfit.outcome.result = .ok (r, after) ∧ r.isSuccess = false ∧
      ∃ t, after.valuation ⟨0⟩ = some t ∧
        (Ty.arrayOf .unknown (some 3)).hasInstance t = true := by
  have verdict : (misfit.outcome.result.toOption.any fun o => !o.1.isSuccess) = true := by
    decide +kernel
  obtain ⟨-, -, -, complete⟩ := values_directed fun _ _ => misfit_obtained
  cases h : misfit.outcome.result with
  | error e =>
      rw [h] at verdict
      cases verdict
  | ok o =>
      rw [h] at verdict
      have failed : o.1.isSuccess = false := Bool.not_eq_eq_eq_not.1 verdict
      obtain ⟨t, value, is_instance, -⟩ := (complete o.1 o.2 h).2 ⟨0⟩ _ rfl
      exact ⟨o.1, o.2, rfl, failed, t, value, is_instance⟩

end Problem

end DataflowTypes
