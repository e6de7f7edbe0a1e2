import DataflowTypes.Proofs.Solver.Run

/-!
# Evaluating built-in terms

A term of built-in operators is evaluated without asking the lattice for anything, without a
diagnostic and without an error.  Main statement: evaluation is monotone, however the operators
are nested.
-/

namespace DataflowTypes

section

variable {m : Type → Type} [Monad m]

private theorem Operator.apply_eq_pure (L : Lattice m) {op : Operator}
    (builtIn : op.isBuiltIn = true) (args : List Ty) : op.apply L args = pure (op.value args) := by
  cases op with
  | custom => cases builtIn
  | _ => rfl

variable [LawfulMonad m] (L : Lattice m) {cells cells' : List Cell} {t : Term}

namespace Run

private theorem query_pure {α : Type} (a : α) : query (pure a : m α) = pure a := by
  refine ExceptT.ext (StateT.ext fun trace => ?_)
  simp [query]

theorem eval_eq_pure (builtIn : t.IsBuiltIn) {a : Ty} (value : t.value (valuation cells) = .ok a) :
    eval L cells t = pure a := by
  induction t generalizing a with
  | const t =>
      obtain rfl := Except.ok.inj value
      rfl
  | var v =>
      simp only [Term.value, valuation] at value
      cases cell_eq : cells[v.index]? with
      | none => simp [cell_eq] at value
      | some cell =>
          obtain rfl : cell.value = a := by simpa [cell_eq] using value
          simp [eval, cell_eq]
  | app op args ih =>
      obtain ⟨list, all, applied⟩ := bind_eq_ok_iff.1 value
      have arguments (i : Fin op.arity) : ∃ b, (args i).value (valuation cells) = .ok b := by
        obtain ⟨b, -, argument⟩ := (exists_of_mapM_eq_ok all).2 i (List.mem_finRange i)
        exact ⟨b, argument⟩
      choose values value_eq using arguments
      obtain rfl := Except.ok.inj ((mapM_eq_ok_map value_eq _).symm.trans all)
      simp only [eval, fun i => ih i (builtIn.2 i) (value_eq i), List.mapM_pure, pure_bind,
        op.apply_eq_pure L builtIn.1, query_pure, applied]

/-- Built-in terms are monotone.  However the operators are nested, evaluation does not fail if
the variables that the term reads have values, and gives a larger value for larger values of
these variables. -/
theorem eval_mono (builtIn : t.IsBuiltIn)
    (grown : ∀ v ∈ t.vars, ∃ a b, valuation cells v = some a ∧ valuation cells' v = some b ∧
      a ≤ b) :
    ∃ a b, eval L cells t = pure a ∧ eval L cells' t = pure b ∧ a ≤ b := by
  simp only [Ty.le_iff_below] at grown ⊢
  obtain ⟨a, b, ha, hb, below⟩ := Term.value_mono builtIn grown
  exact ⟨a, b, eval_eq_pure L builtIn ha, eval_eq_pure L builtIn hb, below⟩

def fieldArray : Term :=
  .app .arrayOf fun _ => .app (.fieldOf "a") fun _ =>
    .app (.recordOf ["a", "b"] (by decide)) fun _ => .var ⟨0⟩

theorem eval_mono_fieldArray :
    let cells : List Cell := [⟨.base .int, .unbound⟩]
    let grown : List Cell := [⟨.arrayOf (.base .int) none, .tentative⟩]
    ∃ a b, eval Lattice.plain cells fieldArray = pure a ∧
      eval Lattice.plain grown fieldArray = pure b ∧
      a = .arrayOf (.base .int) none ∧ b = .arrayOf (.arrayOf (.base .int) none) none ∧
      a ≤ b := by
  intro cells grown
  have builtIn : fieldArray.IsBuiltIn := ⟨rfl, fun _ => ⟨rfl, fun _ => ⟨rfl, fun _ => trivial⟩⟩⟩
  have vars : fieldArray.vars = [⟨0⟩] := rfl
  have widened : Ty.base .int ≤ .arrayOf (.base .int) none :=
    Ty.le_iff_below.2 (.widen rfl (by simp) rfl (.refl _))
  have values (v : VarId) (mem : v ∈ fieldArray.vars) : ∃ a b, valuation cells v = some a ∧
      valuation grown v = some b ∧ a ≤ b := by
    obtain rfl : v = ⟨0⟩ := by simpa [vars] using mem
    exact ⟨_, _, rfl, rfl, widened⟩
  obtain ⟨a, b, ha, hb, below⟩ := eval_mono Lattice.plain builtIn values
  have result {x y : Ty} (h : (pure x : RunM Id Ty) = pure y) : x = y := by
    simpa using congrArg (fun m => Id.run (m.run.run [])) h
  exact ⟨a, b, ha, hb, result (ha.symm.trans rfl), result (hb.symm.trans rfl), below⟩

end Run

end

end DataflowTypes
