import DataflowTypes.Proofs.Solver.Conflict
import DataflowTypes.Proofs.Solver.Move

/-!
# Solutions within reach of a least run

A least run raises values, so it can end in a solution only if it starts below one.  A
partly declared variable need not: the array of unknown length at which it starts lies above
those of known length.  It gets below the solution if it is moved to the join of its bounds
before any other variable reads it.  Main statement: a least run that comes to rest violates
no inequality if there is a solution that each variable starts below or gets below in this
way.  Whether the latter is so can depend on the order of the variables.
-/

namespace DataflowTypes

def Store.declarations (s : Store) : Valuation := fun v => (s.get? v).map (·.declared)

namespace Problem

/-- An assignment of instances that satisfies all inequalities. -/
structure IsModel (p : Problem) (s : Assignment) : Prop where
  pinned : ∀ v x, p.store.get? v = some x → x.isSettable = false → (s v == x.declared) = true
  instances : ∀ v x, p.store.get? v = some x → x.isSettable = true →
    x.declared.hasInstance (s v) = true ∧ (s v).HasPaths ∧ (s v).GeneralFree
  holds : ∀ q ∈ p.constraints, q.holds s.valuation = true

def Reads (p : Problem) (w v : VarId) : Prop :=
  ∃ q ∈ p.driving w, v ∈ (q.bound p.config.mode).vars

/-- The variable is certain to be above the type, which its declared form takes, as soon as
it has been moved once: a bound that never changes is the type, or a bound is a variable
before it that is above the type already. -/
inductive Foothold (p : Problem) : VarId → Ty → Prop
  | fixed {v : VarId} {x : Variable} {q : Inequality} {t : Ty} (found : p.store.get? v = some x)
      (takes : x.declared.Takes t) (mem : q ∈ p.driving v)
      (pinned : ∀ w ∈ (q.bound p.config.mode).vars, p.store.isSettable w = false)
      (value : (q.bound p.config.mode).value p.store.declarations = .ok t) : Foothold p v t
  | passed {v w : VarId} {x : Variable} {q : Inequality} {t : Ty}
      (found : p.store.get? v = some x) (takes : x.declared.Takes t) (mem : q ∈ p.driving v)
      (read : q.bound p.config.mode = .var w) (earlier : w.index < v.index)
      (given : Foothold p w t) : Foothold p v t

structure Prompt (p : Problem) (v : VarId) : Prop where
  foothold : ∃ t, p.Foothold v t
  unread : ∀ w, p.Reads w v → v.index < w.index

/-- Each settable variable starts below the assignment or is moved before it is read. -/
def InReach (p : Problem) (s : Assignment) : Prop :=
  ∀ v x, p.store.get? v = some x → x.isSettable = true →
    (Cell.start p.config.mode x).value ≤ s v ∨ p.Prompt v

theorem Foothold.mem_driving {p : Problem} {v : VarId} {t : Ty} (h : p.Foothold v t) :
    ∃ q, q ∈ p.driving v := by
  cases h with
  | fixed _ _ mem => exact ⟨_, mem⟩
  | passed _ _ mem => exact ⟨_, mem⟩

theorem Foothold.takes {p : Problem} {v : VarId} {t : Ty} (h : p.Foothold v t) {x : Variable}
    (found : p.store.get? v = some x) : x.declared.Takes t := by
  cases h with
  | fixed found' takes => exact Option.some.inj (found'.symm.trans found) ▸ takes
  | passed found' takes => exact Option.some.inj (found'.symm.trans found) ▸ takes

theorem active_increasing (p : Problem) : p.active.Pairwise (·.index < ·.index) := by
  refine List.Pairwise.filter _ (List.pairwise_map.2 ?_)
  exact List.pairwise_lt_range

end Problem

namespace Run

/-! ## Along a run -/

private theorem Reaches.waiting_increasing {p : Problem} {pt : Point} (h : Reaches p pt) :
    pt.waiting.Pairwise (·.index < ·.index) := by
  induction h with
  | refl => exact p.active_increasing
  | tail _ last ih =>
      cases last with
      | move => exact (List.pairwise_cons.1 ih).2
      | again => exact p.active_increasing

structure Pending (p : Problem) (v : VarId) (x : Variable) (cell : Cell) : Prop where
  unbound : cell.state = .unbound
  known : x.declared.isUnknown = false
  prompt : p.Prompt v

/-- Where a run stands when the given variables are yet to be moved in the current pass. -/
structure Ongoing (p : Problem) (s : Assignment) (waiting : List VarId) (cells : List Cell) :
    Prop where
  length : cells.length = p.store.size
  pinned : ∀ v x, p.store.get? v = some x → x.isSettable = false →
    valuation cells v = some x.declared
  settable : ∀ v x cell, p.store.get? v = some x → x.isSettable = true →
    cells[v.index]? = some cell → cell.state ≠ .conflicted ∧ x.declared.Takes cell.value ∧
      (cell.value.Below (s v) ∨ v ∈ waiting ∧ Pending p v x cell)
  foothold : ∀ v t, p.Foothold v t → v ∈ waiting ∨ ∃ a, valuation cells v = some a ∧ t.Below a

private theorem Ongoing.weaken {p : Problem} {s : Assignment} {cells : List Cell}
    (h : Ongoing p s [] cells) (vs : List VarId) : Ongoing p s vs cells where
  length := h.length
  pinned := h.pinned
  settable v x cell found settable cell_eq := by
    obtain ⟨free, takes, below | ⟨⟨⟩, -⟩⟩ := h.settable v x cell found settable cell_eq
    exact ⟨free, takes, .inl below⟩
  foothold v t foothold := .inr ((h.foothold v t foothold).resolve_left (by simp))

section

variable {p : Problem} {s : Assignment} (least : p.config.mode = .least)
  (declared : ∀ v x, p.store.get? v = some x → x.declared.Coherent)

include least declared

private theorem ongoing_start (reach : p.InReach s) : Ongoing p s p.active (startCells p) where
  length := length_startCells p
  pinned v x found fixed := by
    simp [valuation, getElem?_startCells found, Cell.start, fixed]
  settable v x cell found settable cell_eq := by
    obtain rfl := Option.some.inj ((getElem?_startCells found).symm.trans cell_eq)
    have proper : x.declared.isConstant = false := by simpa [Variable.isSettable] using settable
    refine ⟨by simp [Cell.start], ?_, ?_⟩
    · cases unknown : x.declared.isUnknown with
      | true => exact .of_isUnknown unknown _
      | false =>
          have start : (Cell.start p.config.mode x).value = Ty.fill .unknown x.declared := by
            simp [Cell.start, settable, unknown, least, SolveMode.start]
          rw [start]
          exact Ty.takes_fill trivial (declared v x found) proper
    · cases unknown : x.declared.isUnknown with
      | true =>
          have start : (Cell.start p.config.mode x).value = .unknown := by
            simp [Cell.start, settable, unknown, least, SolveMode.start]
          rw [start]
          exact .inl (.bottom _)
      | false =>
          rcases reach v x found settable with below | prompt
          · exact .inl (Ty.le_iff_below.1 below)
          · obtain ⟨t, foothold⟩ := prompt.foothold
            exact .inr ⟨Problem.mem_active_iff.2 foothold.mem_driving, rfl, unknown, prompt⟩
  foothold v t foothold := .inl (Problem.mem_active_iff.2 foothold.mem_driving)

end

theorem Ongoing.below {p : Problem} {s : Assignment} {waiting : List VarId} {cells : List Cell}
    (h : Ongoing p s waiting cells) (model : p.IsModel s) {v : VarId}
    (contained : p.store.contains v = true) (moved : v ∈ waiting → ¬p.Prompt v) :
    ∃ a, valuation cells v = some a ∧ a.Below (s v) := by
  have inside : v.index < p.store.vars.length := by simpa [Store.contains] using contained
  have found : p.store.get? v = some p.store.vars[v.index] := List.getElem?_eq_getElem inside
  cases settable : p.store.vars[v.index].isSettable with
  | true =>
      have here : v.index < cells.length := h.length ▸ inside
      have cell_eq : cells[v.index]? = some cells[v.index] := List.getElem?_eq_getElem here
      obtain ⟨-, -, below | ⟨waiting, pending⟩⟩ := h.settable v _ _ found settable cell_eq
      · exact ⟨_, by simp [valuation, cell_eq], below⟩
      · exact absurd pending.prompt (moved waiting)
  | false =>
      exact ⟨_, h.pinned v _ found settable, (Ty.below_of_beq (model.pinned v _ found settable)).2⟩

theorem Ongoing.valuation_eq {p : Problem} {s : Assignment} {waiting : List VarId}
    {cells : List Cell} (h : Ongoing p s waiting cells) {v : VarId}
    (fixed : p.store.isSettable v = false) : valuation cells v = p.store.declarations v := by
  cases found : p.store.get? v with
  | some x =>
      rw [h.pinned v x found (by simpa [Store.isSettable, found] using fixed)]
      simp [Store.declarations, found]
  | none =>
      have outside : cells.length ≤ v.index := by
        rw [h.length]
        simpa [Store.get?, Store.size] using found
      simp [Store.declarations, found, valuation, outside]

theorem lesser_below {p : Problem} {s : Assignment} {σ : Valuation} (model : p.IsModel s)
    {q : Inequality} (mem : q ∈ p.constraints) (builtIn : q.lesser.IsBuiltIn)
    (within : ∀ v ∈ q.lesser.vars, ∃ a, σ v = some a ∧ a.Below (s v)) :
    ∃ a b, q.lesser.value σ = .ok a ∧ q.greater.value s.valuation = .ok b ∧ a.Below b := by
  obtain ⟨b, a, limit, value, below⟩ := @Term.value_beyond .least _ builtIn s σ within
  obtain ⟨_, c, limit', upper, le⟩ := Inequality.holds_iff.1 (model.holds q mem)
  obtain rfl := Except.ok.inj (limit'.symm.trans limit)
  exact ⟨a, c, value, upper, Ty.Below.trans below (Ty.le_iff_below.1 le)⟩

section

variable {p : Problem} {s : Assignment} {w : VarId} {vs : List VarId} {cells : List Cell}
  {cell : Cell} {x : Variable} {bounds : List Ty}
  (increasing : (w :: vs).Pairwise (·.index < ·.index)) (h : Ongoing p s (w :: vs) cells)
  (turn : Turn p cells w cell x bounds)

include increasing

omit cells in
theorem index_le_of_mem {v : VarId} (mem : v ∈ w :: vs) : w.index ≤ v.index := by
  rcases List.mem_cons.1 mem with rfl | mem
  · exact Nat.le_refl _
  · exact Nat.le_of_lt ((List.pairwise_cons.1 increasing).1 v mem)

include h turn

private theorem Ongoing.bound_below (least : p.config.mode = .least) (defect : p.defect? = none)
    (builtIn : ∀ q ∈ p.constraints, q.lesser.IsBuiltIn) (model : p.IsModel s) {b : Ty}
    (mem : b ∈ bounds) : b.Below (s w) := by
  obtain ⟨q, listed, value⟩ := (exists_of_mapM_eq_ok turn.bounds_eq).1 b mem
  obtain ⟨settable, constraint, driven⟩ := Problem.mem_driving_iff.1 listed
  have within : ∀ v ∈ q.lesser.vars, ∃ a, valuation cells v = some a ∧ a.Below (s v) := by
    intro v read
    refine h.below model (Problem.contains_of_mem_vars defect constraint
      (Inequality.mem_vars.2 (.inl read))) fun waiting prompt => ?_
    -- A variable that still has to be moved is read only by later ones.
    have reads : p.Reads w v := ⟨q, listed, by rwa [least]⟩
    exact absurd (prompt.unread w reads) (Nat.not_lt.2 (index_le_of_mem increasing waiting))
  obtain ⟨a, c, value', upper, below⟩ := lesser_below model constraint (builtIn q constraint) within
  rw [least] at value driven
  obtain rfl := Except.ok.inj (value.symm.trans value')
  rw [show q.greater = .var w from driven] at upper
  obtain rfl : s w = c := Except.ok.inj upper
  exact below

theorem Ongoing.foothold_bound {t : Ty} (foothold : p.Foothold w t) : ∃ b ∈ bounds, t.Below b := by
  cases foothold with
  | fixed _ _ mem pinned value =>
      obtain ⟨b, mem, value'⟩ := (exists_of_mapM_eq_ok turn.bounds_eq).2 _ mem
      rw [Term.value_congr fun v read => h.valuation_eq (pinned v read), value] at value'
      obtain rfl : t = b := Except.ok.inj value'
      exact ⟨t, mem, .refl t⟩
  | passed _ _ mem read earlier given =>
      obtain ⟨b, mem, value⟩ := (exists_of_mapM_eq_ok turn.bounds_eq).2 _ mem
      rcases h.foothold _ t given with waiting | ⟨a, known, below⟩
      · exact absurd earlier (Nat.not_lt.2 (index_le_of_mem increasing waiting))
      · rw [read, Term.value, known] at value
        obtain rfl : a = b := Except.ok.inj value
        exact ⟨a, mem, below⟩

end

theorem Ongoing.set {p : Problem} {s : Assignment} {w : VarId} {vs : List VarId}
    {cells : List Cell} {cell after : Cell} {x : Variable} (h : Ongoing p s (w :: vs) cells)
    (cell_eq : cells[w.index]? = some cell) (found : p.store.get? w = some x)
    (settable : x.isSettable = true) (free : after.state ≠ .conflicted)
    (takes : x.declared.Takes after.value) (below : after.value.Below (s w))
    (footholds : ∀ t, p.Foothold w t → t.Below after.value) :
    Ongoing p s vs (cells.set w.index after) where
  length := by rw [List.length_set, h.length]
  pinned v y found' fixed := by
    have other : v ≠ w := by
      rintro rfl
      obtain rfl := Option.some.inj (found.symm.trans found')
      simp [settable] at fixed
    rw [valuation_set cell_eq, Function.update_of_ne other]
    exact h.pinned v y found' fixed
  settable v y c found' settable' here := by
    by_cases same : w.index = v.index
    · obtain rfl : w = v := congrArg VarId.mk same
      obtain rfl := Option.some.inj (found.symm.trans found')
      have inside : w.index < cells.length := (List.getElem?_eq_some_iff.1 cell_eq).1
      obtain rfl : after = c := by simpa [inside] using here
      exact ⟨free, takes, .inl below⟩
    · rw [List.getElem?_set_ne same] at here
      obtain ⟨free, takes, below | ⟨waiting, pending⟩⟩ := h.settable v y c found' settable' here
      · exact ⟨free, takes, .inl below⟩
      · have later : v ∈ vs := (List.mem_cons.1 waiting).resolve_left fun equal =>
          same (congrArg VarId.index equal.symm)
        exact ⟨free, takes, .inr ⟨later, pending⟩⟩
  foothold v t foothold := by
    rw [valuation_set cell_eq]
    by_cases same : v = w
    · subst same
      exact .inr ⟨after.value, by simp, footholds t foothold⟩
    · rw [Function.update_of_ne same]
      rcases h.foothold v t foothold with waiting | above
      · exact .inl ((List.mem_cons.1 waiting).resolve_left same)
      · exact .inr above

section

variable {p : Problem} {s : Assignment} (least : p.config.mode = .least)
  (defect : p.defect? = none)
  (declared : ∀ v x, p.store.get? v = some x → x.declared.Coherent)
  (builtIn : ∀ q ∈ p.constraints, q.lesser.IsBuiltIn) (model : p.IsModel s)

include least defect declared builtIn model

/-- Moving the next variable puts it between its bounds and the solution. -/
theorem Ongoing.step {w : VarId} {vs : List VarId} {cells cells' : List Cell} {changed : Bool}
    {t t' : List Diagnostic} (increasing : (w :: vs).Pairwise (·.index < ·.index))
    (active : w ∈ p.active) (h : Ongoing p s (w :: vs) cells)
    (run : Yields (step Lattice.plain p cells w) t (cells', changed) t') :
    Ongoing p s vs cells' := by
  obtain ⟨x, found, settable⟩ := Problem.exists_of_mem_active active
  have inside : w.index < cells.length := h.length ▸ Store.index_lt_size found
  have cell_eq : cells[w.index]? = some cells[w.index] := List.getElem?_eq_getElem inside
  generalize cells[w.index] = cell at cell_eq
  obtain ⟨free, takes, start⟩ := h.settable w x cell found settable cell_eq
  obtain ⟨bounds, turn, moved⟩ := step_eq cell_eq found free run
  obtain ⟨last, paths, general⟩ := model.instances w x found settable
  have proper : x.declared.isConstant = false := by simpa [Variable.isSettable] using settable
  have from_below : cell.value.Below (s w) ∨ cell.state = .unbound ∧
      x.declared.isUnknown = false ∧ ∃ t, x.declared.Takes t ∧ ∃ b ∈ bounds, t.Below b := by
    rcases start with below | ⟨-, pending⟩
    · exact .inl below
    · obtain ⟨t, foothold⟩ := pending.prompt.foothold
      exact .inr ⟨pending.unbound, pending.known, t, foothold.takes found,
        h.foothold_bound increasing turn foothold⟩
  obtain ⟨free', takes', below, above⟩ := move_spec (declared w x found) proper
    (Ty.regular_of_generalFree paths general) last free takes
    (fun b => h.bound_below increasing turn least defect builtIn model) from_below
  rw [least] at moved
  subst moved
  refine h.set cell_eq found settable free' takes' below fun t foothold => ?_
  obtain ⟨b, mem, lower⟩ := h.foothold_bound increasing turn foothold
  exact lower.trans (above b mem)

theorem Reaches.ongoing (reach : p.InReach s) {pt : Point} (h : Reaches p pt) :
    Ongoing p s pt.waiting pt.cells := by
  induction h with
  | refl => exact ongoing_start least declared reach
  | tail before last ih =>
      cases last with
      | move step =>
          exact ih.step least defect declared builtIn model (Reaches.waiting_increasing before)
            (Reaches.mem_active before _ List.mem_cons_self) step
      | again => exact ih.weaken p.active

theorem Completed.between {settled : Settled} {r : Resolution} {after : Store}
    (completed : Completed p settled r after) (converged : r.converged = true)
    (reach : p.InReach s) :
    Ongoing p s [] settled.cells ∧ ∀ v ∈ p.active, Rests p (valuation settled.cells) v := by
  have quiet : settled.changing = [] := by simpa [completed.converged_eq] using converged
  obtain ⟨pass, reaches⟩ := completed.reaches defect
  have done := Reaches.ongoing least defect declared builtIn model reach reaches
  refine ⟨done, fun v active => ?_⟩
  obtain ⟨x, found, settable⟩ := Problem.exists_of_mem_active active
  obtain ⟨cell, cell_eq⟩ := reaches.exists_cell found
  obtain ⟨free, -⟩ := done.settable v x cell found settable cell_eq
  exact reaches.rests quiet active (by simp) cell_eq free

end

end Run

/-! ## Solutions are found -/

def Term.IsAtom : Term → Prop
  | .app _ _ => False
  | _ => True

theorem Term.IsAtom.isBuiltIn {t : Term} (atom : t.IsAtom) : t.IsBuiltIn := by
  cases t with
  | app => cases atom
  | _ => trivial

namespace Problem

/-- Every inequality holds between values below the solution and above their bounds. -/
theorem holds_of_between {p : Problem} {s : Assignment} {cells : List Cell}
    (least : p.config.mode = .least) (defect : p.defect? = none) (model : p.IsModel s)
    (done : Run.Ongoing p s [] cells)
    (above : ∀ v ∈ p.active, Run.Rests p (Run.valuation cells) v) {q : Inequality}
    (mem : q ∈ p.constraints) (lower : q.lesser.IsBuiltIn) (upper : q.greater.IsAtom) :
    q.holds (Run.valuation cells) = true := by
  have contained {v : VarId} (read : v ∈ q.vars) : p.store.contains v = true :=
    contains_of_mem_vars defect mem read
  have within : ∀ v ∈ q.lesser.vars, ∃ a, Run.valuation cells v = some a ∧ a.Below (s v) :=
    fun v read => done.below model (contained (Inequality.mem_vars.2 (.inl read))) (by simp)
  obtain ⟨a, b, value, limit, below⟩ := Run.lesser_below model mem lower within
  rw [Inequality.holds_iff]
  cases greater : q.greater with
  | app => simp [greater, Term.IsAtom] at upper
  | const c =>
      rw [greater] at limit
      obtain rfl : c = b := Except.ok.inj limit
      exact ⟨a, c, value, rfl, Ty.le_iff_below.2 below⟩
  | var v =>
      rw [greater] at limit
      obtain rfl : s v = b := Except.ok.inj limit
      cases settable : p.store.isSettable v with
      | true =>
          -- The inequality is one of the bounds of `v`.
          have driven : q.driven p.config.mode = .var v := by rw [least]; exact greater
          have bound := mem_driving_iff.2 ⟨settable, mem, driven⟩
          have holds := (above v (mem_active_iff.2 ⟨q, bound⟩)).holds bound
          rwa [Inequality.holds_iff, greater] at holds
      | false =>
          have read : v ∈ q.vars := Inequality.mem_vars.2 (.inr (by simp [greater]))
          obtain ⟨x, found⟩ : ∃ x, p.store.get? v = some x :=
            ⟨_, List.getElem?_eq_getElem (by simpa [Store.contains] using contained read)⟩
          have fixed : x.isSettable = false := by simpa [Store.isSettable, found] using settable
          have known := done.pinned v x found fixed
          have same := (Ty.below_of_beq (model.pinned v x found fixed)).1
          exact ⟨a, x.declared, value, by simp [Term.value, known],
            Ty.le_iff_below.2 (below.trans same)⟩

/-- Least mode finds a solution within reach.  On inequalities between terms of built-in
operators and constants or variables, a run does not fail; and if it converges, it reports
no violated inequality, and leaves values below the solution. -/
theorem least_satisfies {p : Problem} {s : Assignment} (least : p.config.mode = .least)
    (defect : p.defect? = none)
    (declared : ∀ v x, p.store.get? v = some x → x.declared.Coherent)
    (terms : ∀ q ∈ p.constraints, q.lesser.IsBuiltIn ∧ q.greater.IsAtom) (model : p.IsModel s)
    (reach : p.InReach s) :
    ∃ r after, p.outcome.result = .ok (r, after) ∧ (r.converged = true →
      r.conflicts.filter (·.isViolation) = [] ∧
        ∀ v, p.store.contains v = true → ∃ t, after.valuation v = some t ∧ t ≤ s v) := by
  have builtIn : ∀ q ∈ p.constraints, q.IsBuiltIn :=
    fun q mem => ⟨(terms q mem).1, (terms q mem).2.isBuiltIn⟩
  obtain ⟨r, after, h⟩ := exists_outcome defect (evaluable_of_builtIn defect builtIn)
  refine ⟨r, after, h, fun converged => ?_⟩
  obtain ⟨-, settled, completed⟩ := completed_of_outcome h
  obtain ⟨done, above⟩ := completed.between least defect declared (fun q mem => (terms q mem).1)
    model converged reach
  constructor
  · rw [completed.filter_isViolation, List.filterMap_eq_nil_iff]
    intro q listed
    have mem := mem_constraints_iff.2 listed
    rw [Inequality.conflict?_eq_none_iff (completed.hasValues mem), completed.valuation_eq]
    exact holds_of_between least defect model done above mem (terms q mem).1 (terms q mem).2
  · intro v contained
    obtain ⟨t, value, below⟩ := done.below model contained (by simp)
    exact ⟨t, completed.valuation_eq ▸ value, Ty.le_iff_below.2 below⟩

def triple : Ty := .arrayOf (.base .int) (some 3)

def relay (vars : List Variable) (source target : VarId) : Problem where
  config := {}
  store := ⟨vars⟩
  constraints := [⟨.const triple, .var source⟩, ⟨.var source, .var target⟩,
    ⟨.var target, .const triple⟩]

def arrayFirst : Problem :=
  let array := Ty.arrayOf .unknown none
  relay [{ owner := "xs", declared := array, value := array },
    { owner := "x", declared := .unknown, value := .unknown }] ⟨0⟩ ⟨1⟩

def arrayLast : Problem :=
  let array := Ty.arrayOf .unknown none
  relay [{ owner := "x", declared := .unknown, value := .unknown },
    { owner := "xs", declared := array, value := array }] ⟨1⟩ ⟨0⟩

theorem relay_isModel {vars : List Variable} {source target : VarId}
    (each : ∀ x ∈ vars, x.declared = .unknown ∨ x.declared = .arrayOf .unknown none) :
    (relay vars source target).IsModel fun _ => triple where
  pinned v x found fixed := by
    rcases each x (List.mem_of_getElem? found) with unknown | array
    · simp [Variable.isSettable, unknown, Ty.isConstant] at fixed
    · simp [Variable.isSettable, array, Ty.arrayOf, Ty.isConstant] at fixed
  instances v x found _ := by
    refine ⟨?_, by simp [triple], by simp [triple, Ty.GeneralFree, Ty.Everywhere, Ty.arrayOf]⟩
    rcases each x (List.mem_of_getElem? found) with unknown | array
    · simp [unknown]
    · simp [array, triple, Ty.arrayOf, Ty.hasInstance]
  holds q mem := by
    have same : triple ≤ triple := Ty.le_iff_below.2 (.refl _)
    simp only [relay, List.mem_cons, List.not_mem_nil, or_false] at mem
    rcases mem with rfl | rfl | rfl <;> exact Inequality.holds_iff.2 ⟨_, _, rfl, rfl, same⟩

theorem get?_arrayFirst {v : VarId} {x : Variable} (found : arrayFirst.store.get? v = some x) :
    v = ⟨0⟩ ∧ x.declared = .arrayOf .unknown none ∨ v = ⟨1⟩ ∧ x.declared = .unknown := by
  obtain ⟨index⟩ := v
  rcases index with _ | _ | index
  · obtain rfl := Option.some.inj found
    exact .inl ⟨rfl, rfl⟩
  · obtain rfl := Option.some.inj found
    exact .inr ⟨rfl, rfl⟩
  · cases found

private theorem arrayFirst_prompt : arrayFirst.Prompt ⟨0⟩ where
  foothold := by
    have takes : (Ty.arrayOf .unknown none).Takes triple := ⟨rfl, rfl⟩
    refine ⟨triple, .fixed rfl takes (mem_driving_iff.2 ⟨rfl, List.mem_cons_self, rfl⟩) ?_ rfl⟩
    intro w read
    cases read
  unread w reads := by
    obtain ⟨q, driving, read⟩ := reads
    obtain ⟨-, mem, driven⟩ := mem_driving_iff.1 driving
    rcases List.mem_cons.1 mem with rfl | mem
    · cases read
    · rcases List.mem_cons.1 mem with rfl | mem
      · cases driven
        decide
      · obtain rfl := List.mem_singleton.1 mem
        cases driven

theorem arrayFirst_inReach : arrayFirst.InReach fun _ => triple := by
  intro v x found _
  rcases get?_arrayFirst found with ⟨rfl, -⟩ | ⟨rfl, -⟩
  · exact .inr arrayFirst_prompt
  · obtain rfl := Option.some.inj found
    exact .inl (Ty.le_iff_below.2 (.bottom _))

theorem least_satisfies_arrayFirst :
    arrayFirst.IsModel (fun _ => triple) ∧ arrayFirst.InReach (fun _ => triple) ∧
      ∃ r after, arrayFirst.outcome.result = .ok (r, after) ∧ r.converged = true ∧
        r.conflicts.filter (·.isViolation) = [] := by
  have model : arrayFirst.IsModel fun _ => triple := relay_isModel (by simp)
  have declared : ∀ v x, arrayFirst.store.get? v = some x → x.declared.Coherent := by
    intro v x found
    rcases get?_arrayFirst found with ⟨-, array⟩ | ⟨-, unknown⟩
    · rw [array]
      exact Ty.coherent_arrayOf none trivial
    · rw [unknown]
      trivial
  have terms : ∀ q ∈ arrayFirst.constraints, q.lesser.IsBuiltIn ∧ q.greater.IsAtom := by
    simp [arrayFirst, relay, Term.IsBuiltIn, Term.IsAtom]
  obtain ⟨r, after, h, satisfied⟩ := least_satisfies (p := arrayFirst) rfl rfl declared terms model
    arrayFirst_inReach
  have verdict : arrayFirst.outcome.result.toOption.any (·.1.converged) = true := by
    decide +kernel
  rw [h] at verdict
  exact ⟨model, arrayFirst_inReach, r, after, h, verdict, (satisfied verdict).1⟩

/-- In the other order the run reports a violated inequality, though there is a solution. -/
theorem least_violates_arrayLast :
    arrayLast.IsModel (fun _ => triple) ∧
      ∃ r after, arrayLast.outcome.result = .ok (r, after) ∧ r.converged = true ∧
        r.conflicts.filter (·.isViolation) ≠ [] := by
  have verdict : (arrayLast.outcome.result.toOption.any fun o =>
      o.1.converged && !(o.1.conflicts.filter (·.isViolation)).isEmpty) = true := by decide +kernel
  refine ⟨relay_isModel (by simp), ?_⟩
  cases h : arrayLast.outcome.result with
  | error e =>
      rw [h] at verdict
      cases verdict
  | ok o =>
      rw [h] at verdict
      obtain ⟨converged, violated⟩ := Bool.and_eq_true_iff.1 verdict
      rw [Bool.not_eq_true', List.isEmpty_eq_false_iff] at violated
      exact ⟨o.1, o.2, rfl, converged, violated⟩

end Problem

end DataflowTypes
