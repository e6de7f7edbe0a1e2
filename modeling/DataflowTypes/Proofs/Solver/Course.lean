import DataflowTypes.Proofs.Solver.Outcome
import Mathlib.Logic.Relation

/-!
# The course of a run

The passes of a run, point by point.  A point says which variables are still to be moved in
the current pass, and what the cells are.  What every step keeps holds at all points that a
run comes to; and as long as a pass has changed nothing, it has looked at its variables with
the values that there are.  A run has one course: the passes of a complete run end at such a
point, and all others lead to it.
-/

namespace DataflowTypes

namespace Run

/-! ## Points -/

/-- Where the passes of a run stand: the number of the current pass, the variables that are
still to be moved in it, those whose value it has changed, and all cells. -/
structure Point where
  pass : Nat
  waiting : List VarId
  changing : List VarId
  cells : List Cell

def Point.start (p : Problem) : Point := ⟨1, p.active, [], startCells p⟩

/-- From one point to the next: a variable is moved, or a pass that has changed something is
followed by another one. -/
inductive Advances (p : Problem) : Point → Point → Prop
  | move {pass : Nat} {v : VarId} {waiting changing : List VarId} {cells cells' : List Cell}
      {changed : Bool} {t t' : List Diagnostic}
      (step : Yields (step Lattice.plain p cells v) t (cells', changed) t') :
      Advances p ⟨pass, v :: waiting, changing, cells⟩
        ⟨pass, waiting, if changed then changing ++ [v] else changing, cells'⟩
  | again {pass : Nat} {changing : List VarId} {cells : List Cell} (changed : changing ≠ [])
      (left : pass < p.config.maxPasses) :
      Advances p ⟨pass, [], changing, cells⟩ ⟨pass + 1, p.active, [], cells⟩

def Leads (p : Problem) : Point → Point → Prop := Relation.ReflTransGen (Advances p)

def Reaches (p : Problem) (pt : Point) : Prop := Leads p (.start p) pt

section

variable {p : Problem} {pt pt' : Point}

theorem Advances.steps (h : Advances p pt pt') :
    pt'.cells = pt.cells ∨
      ∃ v ∈ pt.waiting, ∃ changed ds, Steps p pt.cells v pt'.cells changed ds := by
  cases h with
  | @move pass v waiting changing cells cells' changed t t' step =>
      obtain ⟨ds, steps, -⟩ := steps_of_yields step
      exact .inr ⟨v, List.mem_cons_self, changed, ds, steps⟩
  | again => exact .inl rfl

theorem Reaches.mem_active (h : Reaches p pt) : ∀ v ∈ pt.waiting, v ∈ p.active := by
  induction h with
  | refl => exact fun _ => id
  | tail _ last ih =>
      cases last with
      | move => exact fun v mem => ih v (List.mem_cons_of_mem _ mem)
      | again => exact fun _ => id

theorem Reaches.changing_active (h : Reaches p pt) : ∀ v ∈ pt.changing, v ∈ p.active := by
  induction h with
  | refl => exact nofun
  | tail before last ih =>
      cases last with
      | again => exact nofun
      | @move pass w waiting changing cells cells' changed t t' step =>
          intro v mem
          cases changed with
          | false => exact ih v mem
          | true =>
              rcases List.mem_append.1 mem with mem | mem
              · exact ih v mem
              · rw [List.mem_singleton.1 mem]
                exact Reaches.mem_active before w List.mem_cons_self

theorem Kept.reaches {I : List Cell → Prop} (kept : Kept p p.active I) (start : I (startCells p))
    (h : Reaches p pt) : I pt.cells := by
  induction h with
  | refl => exact start
  | tail before last ih =>
      rcases last.steps with same | ⟨v, mem, changed, ds, steps⟩
      · rwa [same]
      · exact kept v (Reaches.mem_active before v mem) ih steps

theorem Reaches.length_eq (h : Reaches p pt) : pt.cells.length = p.store.size :=
  (kept_length p p.active _).reaches (length_startCells p) h

theorem Reaches.exists_cell (h : Reaches p pt) {v : VarId} {x : Variable}
    (found : p.store.get? v = some x) : ∃ cell, pt.cells[v.index]? = some cell := by
  have inside : v.index < pt.cells.length := h.length_eq ▸ Store.index_lt_size found
  exact ⟨_, List.getElem?_eq_getElem inside⟩

/-- In a pass that has changed nothing so far, a variable that is not waiting any more was
looked at with the present values. -/
theorem Reaches.looked (h : Reaches p pt) (quiet : pt.changing = []) {v : VarId}
    (active : v ∈ p.active) (done : v ∉ pt.waiting) :
    ∃ before after ds, Steps p before v after false ds ∧
      valuation after = valuation pt.cells ∧ after[v.index]? = pt.cells[v.index]? := by
  induction h with
  | refl => exact absurd active done
  | tail _ last ih =>
      cases last with
      | again => exact absurd active done
      | @move pass w waiting changing cells cells' changed t t' step =>
          obtain ⟨rfl, rfl⟩ : changed = false ∧ changing = [] := by
            cases changed <;> simp_all
          obtain ⟨ds, steps, -⟩ := steps_of_yields step
          by_cases same : v = w
          · subst same
            exact ⟨cells, cells', ds, steps, rfl, rfl⟩
          · -- The step has looked at another variable, and has changed no value.
            have other : w.index ≠ v.index := fun index => same (congrArg VarId.mk index.symm)
            obtain ⟨before, after, ds', steps', values, cell⟩ := ih rfl (by simpa [same] using done)
            exact ⟨before, after, ds', steps', values.trans steps.valuation_eq.symm,
              cell.trans (steps.getElem?_eq other).symm⟩

end

/-! ## A run has one course -/

section

variable {α β : Type} {x : RunM Id α} {f : α → RunM Id β}

def Uniform (x : RunM Id α) : Prop :=
  ∀ ⦃t a t' s b s'⦄, Yields x t a t' → Yields x s b s' → a = b

theorem Gives.uniform {r : Except TypeError α} (h : Gives x r) : Uniform x :=
  fun _ _ _ _ _ _ first second =>
    Except.ok.inj ((h.yields_iff.1 first).1.symm.trans (h.yields_iff.1 second).1)

theorem Uniform.bind (h : Uniform x) (next : ∀ a, Uniform (f a)) : Uniform (x >>= f) := by
  intro t b t' s b' s' first second
  obtain ⟨a, _, first, rest⟩ := yields_bind_iff.1 first
  obtain ⟨a', _, second, rest'⟩ := yields_bind_iff.1 second
  obtain rfl := h first second
  exact next a rest rest'

theorem uniform_pure (a : α) : Uniform (pure a : RunM Id α) :=
  Gives.uniform fun _ => (rfl : _ = (Except.ok a, _))

private theorem uniform_query (y : Id α) : Uniform (query y) :=
  Gives.uniform fun _ => (rfl : _ = (Except.ok (Id.run y), _))

private theorem uniform_emit (d : Diagnostic) : Uniform (emit d : RunM Id Unit) :=
  fun _ _ _ _ _ _ _ _ => rfl

end

private theorem step_uniform (p : Problem) (cells : List Cell) (v : VarId) :
    Uniform (step Lattice.plain p cells v) := by
  unfold step
  split
  · split
    · exact uniform_pure _
    · refine (Gives.mapM (fun q => eval_gives cells _) _).uniform.bind fun bounds => ?_
      refine (uniform_query _).bind fun movement => ?_
      cases movement with
      | stay => exact uniform_pure _
      | goTo value => exact uniform_pure _
      | refuse candidate => exact (uniform_emit _).bind fun _ => uniform_pure _
  · exact uniform_pure _

private theorem advances_unique (p : Problem) : Relator.RightUnique (Advances p) := by
  intro pt next next' h h'
  cases h with
  | move step =>
      cases h' with
      | move step' =>
          obtain ⟨rfl, rfl⟩ := Prod.mk.inj (step_uniform p _ _ step step')
          rfl
  | again =>
      cases h' with
      | again => rfl

/-! ## The points of a run lead to its end -/

section

variable {p : Problem} {t t' : List Diagnostic}

private theorem leads_pass {n : Nat} {vs changing later : List VarId} {cells cells' : List Cell}
    (run : Yields (pass Lattice.plain p vs cells) t (cells', later) t') :
    Leads p ⟨n, vs, changing, cells⟩ ⟨n, [], changing ++ later, cells'⟩ := by
  induction vs generalizing cells changing later t with
  | nil =>
      obtain ⟨same, -⟩ := yields_pure_iff.1 run
      obtain ⟨rfl, rfl⟩ := Prod.mk.inj same
      rw [List.append_nil]
      exact .refl
  | cons v vs ih =>
      obtain ⟨between, changed, t₁, rest, first, last, rfl⟩ := yields_pass_cons_iff.1 run
      have all : (if changed then changing ++ [v] else changing) ++ rest =
          changing ++ if changed then v :: rest else rest := by
        cases changed <;> simp
      rw [← all]
      exact .head (.move first) (ih last)

private theorem leads_iterate {left : Nat} {s s' : Settled}
    (run : Yields (iterate Lattice.plain p p.active left s) t s' t')
    (count : s.passes + left = p.config.maxPasses) :
    left = 0 ∧ s' = s ∨ 0 < left ∧ Leads p ⟨s.passes + 1, p.active, [], s.cells⟩
      ⟨s'.passes, [], s'.changing, s'.cells⟩ := by
  induction left generalizing s t with
  | zero => exact .inl ⟨rfl, (yields_pure_iff.1 run).1⟩
  | succ left ih =>
      simp only [iterate, yields_bind_iff, Prod.exists] at run
      obtain ⟨cells, changing, t₁, first, rest⟩ := run
      have here : Leads p ⟨s.passes + 1, p.active, [], s.cells⟩
          ⟨s.passes + 1, [], changing, cells⟩ := leads_pass first
      refine .inr ⟨Nat.succ_pos left, ?_⟩
      split at rest
      · obtain ⟨rfl, -⟩ := yields_pure_iff.1 rest
        exact here
      · next more =>
          rcases ih rest (by dsimp only; omega) with ⟨rfl, rfl⟩ | ⟨some, onward⟩
          · exact here
          · exact here.trans (.head (.again (by simpa using more) (by omega)) onward)

private theorem iterate_passes {vs : List VarId} {left : Nat} {s s' : Settled}
    (run : Yields (iterate Lattice.plain p vs left s) t s' t') (changing : s'.changing ≠ []) :
    s'.passes = s.passes + left := by
  induction left generalizing s t with
  | zero =>
      obtain ⟨rfl, -⟩ := yields_pure_iff.1 run
      rfl
  | succ left ih =>
      simp only [iterate, yields_bind_iff, Prod.exists] at run
      obtain ⟨cells, later, t₁, first, rest⟩ := run
      split at rest
      · next quiet =>
          obtain ⟨rfl, -⟩ := yields_pure_iff.1 rest
          exact absurd (List.isEmpty_iff.1 quiet) changing
      · rw [ih rest]
        dsimp only
        omega

/-- The passes of a complete run end at a point that it comes to.  If no inequality moves a
variable, this is the start of a pass that is not made. -/
theorem Completed.reaches_passes {settled : Settled} {r : Resolution} {after : Store}
    (h : Completed p settled r after) (defect : p.defect? = none) :
    ∃ pass, settled.passes ≤ pass ∧ (settled.changing ≠ [] → pass = p.config.maxPasses) ∧
      Reaches p ⟨pass, [], settled.changing, settled.cells⟩ := by
  obtain ⟨t, t', run⟩ := h.run
  simp only [settle] at run
  split at run
  · next idle =>
      obtain ⟨rfl, -⟩ := yields_pure_iff.1 run
      have start : Point.start p = ⟨1, [], [], startCells p⟩ := by
        rw [Point.start, List.isEmpty_iff.1 idle]
      exact ⟨1, Nat.zero_le 1, fun changing => absurd rfl changing, start ▸ .refl⟩
  · rcases leads_iterate run (Nat.zero_add _) with ⟨none, -⟩ | ⟨-, leads⟩
    · exact absurd none (Problem.maxPasses_ne_zero defect)
    · have used := iterate_passes run
      exact ⟨settled.passes, Nat.le_refl _, fun changing => (used changing).trans (Nat.zero_add _),
        leads⟩

theorem Completed.reaches {settled : Settled} {r : Resolution} {after : Store}
    (h : Completed p settled r after) (defect : p.defect? = none) :
    ∃ pass, Reaches p ⟨pass, [], settled.changing, settled.cells⟩ := by
  obtain ⟨pass, -, -, reaches⟩ := h.reaches_passes defect
  exact ⟨pass, reaches⟩

theorem Completed.leads {settled : Settled} {r : Resolution} {after : Store}
    (h : Completed p settled r after) (defect : p.defect? = none) {pt : Point}
    (reached : Reaches p pt) : ∃ pass, Leads p pt ⟨pass, [], settled.changing, settled.cells⟩ := by
  obtain ⟨pass, -, last, reaches⟩ := h.reaches_passes defect
  refine ⟨pass, ?_⟩
  rcases reached.total_of_right_unique (advances_unique p) reaches with onward | back
  · exact onward
  · rcases back.cases_head with rfl | ⟨next, first, -⟩
    · exact .refl
    · cases first with
      | again changed left => exact absurd (last changed) (Nat.ne_of_lt left)

end

end Run

end DataflowTypes
