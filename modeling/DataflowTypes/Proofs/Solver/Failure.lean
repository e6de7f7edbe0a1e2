import DataflowTypes.Proofs.Solver.Evaluation
import DataflowTypes.Proofs.Solver.Rest
import DataflowTypes.Proofs.Ty.Agreement

/-!
# When a run fails

A problem over built-in operators fails before the first pass or not at all.  Main statement: it
fails if and only if no pass is allowed or some inequality reads a variable that is not in the
store, and then names the first one; in all other cases every term has a value wherever the run
comes, and fitting a value into a declared form fails on instances only if the form is not firm.
-/

namespace DataflowTypes

/-! ## The first variable that is missing -/

/-- The variables that a term reads, from left to right, each as often as it occurs. -/
def Term.occurrences : Term → List VarId
  | const _ => []
  | var v => [v]
  | app op args => (List.finRange op.arity).flatMap fun i => (args i).occurrences

/-- All readings of variables: inequality by inequality, the lesser side first. -/
def Problem.readings (p : Problem) : List VarId :=
  p.constraints.flatMap fun q => q.lesser.occurrences ++ q.greater.occurrences

section

variable (test : VarId → Bool)

theorem Term.find?_addVar (vs : List VarId) (v : VarId) :
    (addVar vs v).find? test = (vs ++ [v]).find? test := by
  unfold addVar
  split
  · next mem =>
      cases found : vs.find? test with
      | some w => simp [found]
      | none =>
          have failed := List.find?_eq_none.1 found v mem
          simp [found, failed]
  · rfl

private theorem Term.find?_foldl_addVar (vs ws : List VarId) :
    (ws.foldl addVar vs).find? test = (vs ++ ws).find? test := by
  induction ws generalizing vs with
  | nil => simp
  | cons w ws ih =>
      rw [List.foldl_cons, ih, List.find?_append, find?_addVar, ← List.find?_append]
      simp

theorem Term.find?_collectVars (t : Term) (vs : List VarId) :
    (t.collectVars vs).find? test = (vs ++ t.occurrences).find? test := by
  induction t generalizing vs with
  | const t => simp [collectVars, occurrences]
  | var v => exact find?_addVar test vs v
  | app op args ih =>
      simp only [collectVars, occurrences]
      generalize List.finRange op.arity = is
      induction is generalizing vs with
      | nil => simp
      | cons i is rest =>
          rw [List.foldl_cons, rest, List.find?_append, ih, ← List.find?_append]
          simp

private theorem Inequality.find?_vars (q : Inequality) :
    q.vars.find? test = (q.lesser.occurrences ++ q.greater.occurrences).find? test := by
  rw [vars, Term.find?_foldl_addVar, List.find?_append, Term.vars, Term.vars,
    Term.find?_collectVars, Term.find?_collectVars, ← List.find?_append]
  simp

end

theorem Problem.missing?_eq (p : Problem) :
    p.missing? = p.readings.find? (!p.store.contains ·) := by
  simp only [missing?, readings, List.find?_flatMap, Inequality.find?_vars]

/-! ## Runs over built-in operators -/

namespace Problem

variable {p : Problem} (builtIn : ∀ q ∈ p.constraints, q.IsBuiltIn)

include builtIn

private theorem outcome_eq_error_iff_defect? {e : TypeError} :
    p.outcome.result = .error e ↔ p.defect? = some e := by
  cases defect : p.defect? with
  | some d => simp [outcome, resolve, defect]
  | none =>
      obtain ⟨r, after, h⟩ := exists_outcome defect (evaluable_of_builtIn defect builtIn)
      simp [h]

end Problem

namespace Run

variable {p : Problem} {pt : Point} (defect : p.defect? = none) (reached : Reaches p pt)

include defect reached

theorem Reaches.eval_eq_pure {q : Inequality} (mem : q ∈ p.constraints) (builtIn : q.IsBuiltIn) :
    (∃ a, eval Lattice.plain pt.cells q.lesser = pure a) ∧
      ∃ b, eval Lattice.plain pt.cells q.greater = pure b := by
  have known (v : VarId) (read : v ∈ q.vars) : (valuation pt.cells v).isSome = true :=
    isSome_valuation reached.length_eq v (Problem.contains_of_mem_vars defect mem read)
  obtain ⟨a, lesser⟩ := Term.exists_value builtIn.1 fun v read =>
    known v (Inequality.mem_vars.2 (.inl read))
  obtain ⟨b, greater⟩ := Term.exists_value builtIn.2 fun v read =>
    known v (Inequality.mem_vars.2 (.inr read))
  exact ⟨⟨a, Run.eval_eq_pure _ builtIn.1 lesser⟩, b, Run.eval_eq_pure _ builtIn.2 greater⟩

end Run

namespace Problem

/-- A run over built-in operators fails exactly on malformed problems: if no pass is allowed, or
else if some inequality reads a variable that is not in the store, and then it names the first
one, inequality by inequality, the lesser side first and the arguments from left to right.  In
all other cases, wherever the run comes, both sides of every inequality have a value, every
variable that is to be moved is there, and moving it does not fail.  What remains is that a value
is fitted into the declared form of its variable.  This fails on types that are not instances of
the form, and on no others if and only if the form is firm. -/
theorem fails_iff_malformed {p : Problem} (builtIn : ∀ q ∈ p.constraints, q.IsBuiltIn) :
    (∀ e, p.outcome.result = .error e ↔
      p.config.maxPasses = 0 ∧ e = .config .noPasses ∨
        p.config.maxPasses ≠ 0 ∧
          ∃ v, p.readings.find? (!p.store.contains ·) = some v ∧ e = .unknownVariable v) ∧
    (p.config.maxPasses ≠ 0 → (∀ v ∈ p.readings, p.store.contains v = true) →
      ∀ pt, Run.Reaches p pt →
        (∀ q ∈ p.constraints, (∃ a, Run.eval Lattice.plain pt.cells q.lesser = pure a) ∧
          ∃ b, Run.eval Lattice.plain pt.cells q.greater = pure b) ∧
        ∀ v ∈ pt.waiting, (∃ cell x, pt.cells[v.index]? = some cell ∧ p.store.get? v = some x) ∧
          Run.Returns (Run.step Lattice.plain p pt.cells v)) ∧
    ∀ v x, p.store.get? v = some x → x.declared.Obtained →
      ((∀ t, conform x.declared t = none ↔ x.declared.hasInstance t = false) ↔
        x.declared.isFirm = true) := by
  refine ⟨fun e => ?_, fun passes contained pt reached => ?_, fun v x _ obtained => ?_⟩
  · rw [outcome_eq_error_iff_defect? builtIn, defect?]
    split
    · next none => simp [none, eq_comm]
    · next some => simp [some, missing?_eq, Option.map_eq_some_iff, @eq_comm _ e]
  · have defect : p.defect? = none := by
      simpa [defect?, passes, missing?_eq] using contained
    refine ⟨fun q mem => reached.eval_eq_pure defect mem (builtIn q mem), fun v waiting => ?_⟩
    obtain ⟨x, found, -⟩ := exists_of_mem_active (reached.mem_active v waiting)
    obtain ⟨cell, cell_eq⟩ := reached.exists_cell found
    exact ⟨⟨cell, x, cell_eq, found⟩,
      Run.step_returns (evaluable_of_builtIn defect builtIn) reached.length_eq v⟩
  · exact conform_eq_none_iff_isFirm obtained.coherent

def dangling : Problem where
  config := {}
  store := ⟨[{ owner := "x", declared := .unknown, value := .unknown }]⟩
  constraints := [⟨.var ⟨0⟩, .var ⟨0⟩⟩,
    ⟨.app (.recordOf ["first", "second"] (by decide)) fun i => .var ⟨2 - i.1⟩, .var ⟨3⟩⟩]

theorem fails_iff_malformed_dangling :
    dangling.outcome.result = .error (.unknownVariable ⟨2⟩) := by
  have builtIn : ∀ q ∈ dangling.constraints, q.IsBuiltIn := by
    simp [dangling, Inequality.IsBuiltIn, Term.IsBuiltIn, Operator.isBuiltIn]
  exact ((fails_iff_malformed builtIn).1 _).2 (.inr ⟨by decide, ⟨2⟩, by decide, rfl⟩)

def pairOf (x y : Ty) : Ty := .ofFields (.ofList [("x", x), ("y", y)])

def openPair : Variable where
  owner := "x"
  declared := pairOf (.arrayOf (.base .int) none) .unknown
  value := .unknown

def triplePair : Ty := pairOf (.arrayOf (.base .int) (some 3)) (.base .int)

def narrowed : Problem where
  config := { mode := .greatest }
  store := ⟨[openPair]⟩
  constraints := [⟨.var ⟨0⟩, .const triplePair⟩]

private theorem narrowed_turn : Run.Turn narrowed (Run.startCells narrowed) ⟨0⟩
    (Cell.start .greatest openPair) openPair [triplePair] := by
  have settable : narrowed.store.isSettable ⟨0⟩ = true := by decide +kernel
  have driving : narrowed.driving ⟨0⟩ = narrowed.constraints := if_pos settable
  refine ⟨rfl, rfl, nofun, ?_⟩
  rw [driving]
  rfl

theorem narrowed_candidate : [triplePair].foldl SolveMode.greatest.combine
    (Cell.start .greatest openPair).value = triplePair := by
  have outcome : (Cell.start .greatest openPair).value.compare triplePair = .higher := by
    decide +kernel
  have order := Ty.compare_reflects (Cell.start .greatest openPair).value triplePair
  rw [outcome, Comparison.reflects_higher_iff] at order
  exact Ty.meet_eq_right order.2 order.1

/-- The problem is not malformed.  Yet its run tries at once to fit an instance of the declared
form into it, the update is refused, and the variable is rejected. -/
theorem update_refused_narrowed :
    narrowed.defect? = none ∧ ∃ pt waiting cell x bounds candidate,
      Run.Reaches narrowed pt ∧ pt.waiting = ⟨0⟩ :: waiting ∧
        Run.Turn narrowed pt.cells ⟨0⟩ cell x bounds ∧
        Id.run (Run.move Lattice.plain narrowed.config.mode x.declared cell bounds) =
          .refuse candidate ∧
        x.declared.hasInstance candidate = true ∧
        (x.declared.update candidate).refusal ≠ none := by
  have active : narrowed.active = [⟨0⟩] := by decide +kernel
  have moves := Run.moves_move .greatest openPair.declared (.start .greatest openPair) [triplePair]
  refine ⟨rfl, .start narrowed, [], _, _, _, triplePair, .refl, active, narrowed_turn, ?_,
    by decide +kernel, by decide +kernel⟩
  change Id.run (Run.move Lattice.plain .greatest _ _ _) = _
  generalize Id.run (Run.move _ _ _ _ _) = movement at moves ⊢
  cases moves with
  | stayFirst least => cases least
  | goToFirst least => cases least
  | stay same => exact absurd (narrowed_candidate ▸ same) (by decide +kernel)
  | goTo fits different =>
      have unfit : conform openPair.declared triplePair = none :=
        Option.isNone_iff_eq_none.1 (by decide +kernel)
      cases unfit.symm.trans (narrowed_candidate ▸ fits)
  | refuse fits different => rw [narrowed_candidate]

end Problem

end DataflowTypes
