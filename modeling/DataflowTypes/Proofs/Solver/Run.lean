import DataflowTypes.Proofs.Solver.Value
import DataflowTypes.Solver.Run

/-!
# What a run does

A run that compares types anew, taken apart into its steps.  `Steps` says all that
moving one variable can do, and what every step keeps holds at the end of all passes.
-/

namespace DataflowTypes

def Store.valuation (s : Store) : Valuation := fun v => (s.get? v).map (·.value)

def Inequality.conflict? (store : Store) (σ : Valuation) (q : Inequality) : Option Conflict :=
  match q.lesser.value σ, q.greater.value σ with
  | .ok a, .ok b => if (a.compare b).isAtMost then none else some (Run.violation store q a b)
  | _, _ => none

def SolveMode.combine : SolveMode → Ty → Ty → Ty
  | .least => Ty.join
  | .greatest => Ty.meet

namespace Run

def valuation (cells : List Cell) : Valuation := fun v => (cells[v.index]?).map (·.value)

/-! ## Results of runs -/

section

variable {α β : Type} {x : RunM Id α} {f : α → RunM Id β} {t t' t'' : List Diagnostic}

/-- The run returns `a` and takes the trace from `t` to `t'`. -/
def Yields (x : RunM Id α) (t : List Diagnostic) (a : α) (t' : List Diagnostic) : Prop :=
  Id.run (x.run.run t) = (.ok a, t')

def Returns (x : RunM Id α) : Prop := ∀ t, ∃ a t', Yields x t a t'

def Gives (x : RunM Id α) (r : Except TypeError α) : Prop := ∀ t, Id.run (x.run.run t) = (r, t)

theorem run_bind (x : RunM Id α) (f : α → RunM Id β) (t : List Diagnostic) :
    Id.run ((x >>= f).run.run t) =
      match Id.run (x.run.run t) with
      | (.ok a, t') => Id.run ((f a).run.run t')
      | (.error e, t') => (.error e, t') := by
  rw [ExceptT.run_bind, StateT.run_bind, Id.run_bind]
  rcases Id.run (x.run.run t) with ⟨_ | a, t'⟩ <;> rfl

theorem yields_bind_iff {b : β} :
    Yields (x >>= f) t b t'' ↔ ∃ a t', Yields x t a t' ∧ Yields (f a) t' b t'' := by
  unfold Yields
  rw [run_bind]
  rcases Id.run (x.run.run t) with ⟨_ | a, t'⟩ <;> simp

@[simp] theorem yields_pure_iff {a b : α} : Yields (pure a) t b t' ↔ b = a ∧ t' = t := by
  change ((Except.ok a, t) : Except TypeError α × List Diagnostic) = (.ok b, t') ↔ _
  simp [eq_comm]

@[simp] theorem yields_emit_iff {d : Diagnostic} {u : Unit} :
    Yields (emit d) t u t' ↔ t' = t ++ [d] := by
  change ((Except.ok (), t ++ [d]) : Except TypeError Unit × List Diagnostic) = (.ok u, t') ↔ _
  simp [eq_comm]

@[simp] theorem yields_query_iff {y : Id α} {a : α} :
    Yields (query y) t a t' ↔ a = Id.run y ∧ t' = t := by
  change ((Except.ok (Id.run y), t) : Except TypeError α × List Diagnostic) = (.ok a, t') ↔ _
  simp [eq_comm]

theorem Gives.yields_iff {r : Except TypeError α} (h : Gives x r) {a : α} :
    Yields x t a t' ↔ r = .ok a ∧ t' = t := by
  rw [Yields, h t]
  simp [eq_comm]

theorem Gives.bind {r : Except TypeError α} {g : α → Except TypeError β} (h : Gives x r)
    (next : ∀ a, Gives (f a) (g a)) : Gives (x >>= f) (r >>= g) := by
  intro t
  rw [run_bind, h t]
  cases r with
  | ok a => exact next a t
  | error e => rfl

theorem Gives.mapM {ι : Type} {f : ι → RunM Id α} {g : ι → Except TypeError α}
    (each : ∀ i, Gives (f i) (g i)) (is : List ι) : Gives (is.mapM f) (is.mapM g) := by
  induction is with
  | nil => exact fun _ => rfl
  | cons i is ih =>
      rw [List.mapM_cons, List.mapM_cons]
      exact (each i).bind fun a => ih.bind fun as _ => rfl

theorem Returns.bind (h : Returns x) (next : ∀ t a t', Yields x t a t' → Returns (f a)) :
    Returns (x >>= f) := by
  intro t
  obtain ⟨a, t', first⟩ := h t
  obtain ⟨b, t'', second⟩ := next t a t' first t'
  exact ⟨b, t'', yields_bind_iff.2 ⟨a, t', first, second⟩⟩

theorem Gives.returns {a : α} (h : Gives x (.ok a)) : Returns x := fun t => ⟨a, t, h t⟩

theorem returns_pure (a : α) : Returns (pure a : RunM Id α) := fun t => ⟨a, t, rfl⟩

theorem returns_query (y : Id α) : Returns (query y) := fun t => ⟨Id.run y, t, rfl⟩

theorem returns_emit (d : Diagnostic) : Returns (emit d : RunM Id Unit) :=
  fun t => ⟨(), t ++ [d], rfl⟩

end

/-! ## Checking -/

theorem eval_gives (cells : List Cell) (t : Term) :
    Gives (eval Lattice.plain cells t) (t.value (valuation cells)) := by
  induction t with
  | const t => exact fun _ => rfl
  | var v =>
      simp only [eval, Term.value, valuation]
      cases cells[v.index]? with
      | none => exact fun _ => rfl
      | some cell => exact fun _ => rfl
  | app op args ih =>
      refine (Gives.mapM ih _).bind fun values t => ?_
      have asked : Id.run ((query (op.apply Lattice.plain values)).run.run t) =
          (.ok (op.value values), t) := rfl
      rw [run_bind, asked]
      cases op.value values <;> rfl

private theorem yields_check_iff {store : Store} {cells : List Cell} {fixed : Bool} {q : Inequality}
    {t t' : List Diagnostic} {c : Option Conflict} :
    Yields (check Lattice.plain store cells fixed q) t c t' ↔
      q.HasValues (valuation cells) ∧ c = q.conflict? store (valuation cells) ∧
        t' = t ++ c.toList.map (violationDiagnostic fixed) := by
  simp only [check, yields_bind_iff, (eval_gives cells _).yields_iff, yields_query_iff,
    Inequality.HasValues, Inequality.conflict?, Ty.plain_compare, Id.run_pure]
  cases q.lesser.value (valuation cells) with
  | error e => simp
  | ok a =>
      cases q.greater.value (valuation cells) with
      | error e => simp
      | ok b =>
          simp only [Except.ok.injEq, and_assoc, exists_and_left, exists_eq_left', exists_eq_left,
            exists_eq', true_and]
          cases (a.compare b).isAtMost with
          | true => simp +contextual
          | false => simp +contextual [yields_bind_iff, -bind_pure_comp]

theorem yields_checkAll_iff {store : Store} {cells : List Cell} {fixed : Bool}
    {qs : List Inequality} {t t' : List Diagnostic} {cs : List Conflict} :
    Yields (checkAll Lattice.plain store cells fixed qs) t cs t' ↔
      (∀ q ∈ qs, q.HasValues (valuation cells)) ∧
        cs = qs.filterMap (·.conflict? store (valuation cells)) ∧
        t' = t ++ cs.map (violationDiagnostic fixed) := by
  induction qs generalizing t t' cs with
  | nil => simp +contextual [checkAll]
  | cons q qs ih =>
      simp only [checkAll, yields_bind_iff, yields_check_iff, ih, yields_pure_iff]
      constructor
      · rintro ⟨c, t₁, ⟨first, rfl, rfl⟩, more, t₂, ⟨rest, rfl, rfl⟩, rfl, rfl⟩
        refine ⟨by simpa using ⟨first, rest⟩, ?_, by simp⟩
        cases h : q.conflict? store (valuation cells) <;> simp [h]
      · rintro ⟨values, rfl, rfl⟩
        obtain ⟨first, rest⟩ := List.forall_mem_cons.1 values
        refine ⟨_, _, ⟨first, rfl, rfl⟩, _, _, ⟨rest, rfl, rfl⟩, ?_⟩
        cases h : q.conflict? store (valuation cells) <;> simp [h]

/-! ## Moving variables -/

theorem applyBounds_plain (mode : SolveMode) (start : Ty) (bounds : List Ty) :
    Id.run (applyBounds Lattice.plain mode start bounds) = bounds.foldl mode.combine start := by
  cases mode with
  | least => exact List.idRun_foldlM ..
  | greatest => exact List.idRun_foldlM ..

inductive Moves (mode : SolveMode) (declared : Ty) (cell : Cell) (bounds : List Ty) : Move → Prop
  | stayFirst {value : Ty} (least : mode = .least) (unbound : cell.state = .unbound)
      (fits : conform declared (bounds.foldl mode.combine .unknown) = some value)
      (same : (value == cell.value) = true) : Moves mode declared cell bounds .stay
  | goToFirst {value : Ty} (least : mode = .least) (unbound : cell.state = .unbound)
      (fits : conform declared (bounds.foldl mode.combine .unknown) = some value)
      (different : (value == cell.value) = false) : Moves mode declared cell bounds (.goTo value)
  | stay (same : (bounds.foldl mode.combine cell.value == cell.value) = true) :
      Moves mode declared cell bounds .stay
  | goTo {value : Ty}
      (fits : conform declared (bounds.foldl mode.combine cell.value) = some value)
      (different : (bounds.foldl mode.combine cell.value == cell.value) = false) :
      Moves mode declared cell bounds (.goTo value)
  | refuse (fits : conform declared (bounds.foldl mode.combine cell.value) = none)
      (different : (bounds.foldl mode.combine cell.value == cell.value) = false) :
      Moves mode declared cell bounds (.refuse (bounds.foldl mode.combine cell.value))

theorem firstValue_eq_some {mode : SolveMode} {declared value : Ty} {cell : Cell}
    {bounds : List Ty}
    (h : Id.run (firstValue Lattice.plain mode declared cell bounds) = some value) :
    mode = .least ∧ cell.state = .unbound ∧
      conform declared (bounds.foldl mode.combine .unknown) = some value := by
  unfold firstValue at h
  split at h
  · next fresh =>
      rw [Id.run_bind, applyBounds_plain, Id.run_pure] at h
      split at h
      · cases h
      · exact ⟨fresh.1, fresh.2, h⟩
  · cases h

theorem moves_move (mode : SolveMode) (declared : Ty) (cell : Cell) (bounds : List Ty) :
    Moves mode declared cell bounds (Id.run (move Lattice.plain mode declared cell bounds)) := by
  rw [move, Id.run_bind]
  cases first : Id.run (firstValue Lattice.plain mode declared cell bounds) with
  | some value =>
      obtain ⟨least, unbound, fits⟩ := firstValue_eq_some first
      cases same : value == cell.value with
      | true => simpa [same] using .stayFirst least unbound fits same
      | false => simpa [same] using .goToFirst least unbound fits same
  | none =>
      simp only [Id.run_bind, applyBounds_plain]
      cases same : bounds.foldl mode.combine cell.value == cell.value with
      | true => exact .stay same
      | false =>
          cases fits : conform declared (bounds.foldl mode.combine cell.value) with
          | some value => simpa [fits] using .goTo fits same
          | none => simpa [fits] using .refuse fits same

structure Turn (p : Problem) (cells : List Cell) (v : VarId) (cell : Cell) (x : Variable)
    (bounds : List Ty) : Prop where
  cell_eq : cells[v.index]? = some cell
  variable_eq : p.store.get? v = some x
  free : cell.state ≠ .conflicted
  bounds_eq : (p.driving v).mapM (fun q => (q.bound p.config.mode).value (valuation cells)) =
    .ok bounds

/-- All that moving one variable can do: the cells afterwards, whether its value changed,
and what is recorded. -/
inductive Steps (p : Problem) (cells : List Cell) (v : VarId) :
    List Cell → Bool → List Diagnostic → Prop
  | absent (nothing : cells[v.index]? = none ∨ p.store.get? v = none) :
      Steps p cells v cells false []
  | halted {cell : Cell} (cell_eq : cells[v.index]? = some cell)
      (conflicted : cell.state = .conflicted) : Steps p cells v cells false []
  | stay {cell : Cell} {x : Variable} {bounds : List Ty} (turn : Turn p cells v cell x bounds)
      (moves : Moves p.config.mode x.declared cell bounds .stay) : Steps p cells v cells false []
  | goTo {cell : Cell} {x : Variable} {bounds : List Ty} {value : Ty}
      (turn : Turn p cells v cell x bounds)
      (moves : Moves p.config.mode x.declared cell bounds (.goTo value)) :
      Steps p cells v (cells.set v.index { value, state := .tentative }) true []
  | refuse {cell : Cell} {x : Variable} {bounds : List Ty} {candidate : Ty}
      (turn : Turn p cells v cell x bounds)
      (moves : Moves p.config.mode x.declared cell bounds (.refuse candidate)) :
      Steps p cells v (cells.set v.index { cell with state := .conflicted }) false
        [.notInstance x.owner candidate.text cell.value.text]

theorem steps_of_yields {p : Problem} {cells cells' : List Cell} {v : VarId} {changed : Bool}
    {t t' : List Diagnostic}
    (h : Yields (step Lattice.plain p cells v) t (cells', changed) t') :
    ∃ ds, Steps p cells v cells' changed ds ∧ t' = t ++ ds := by
  have unmoved (h : Yields (pure (cells, false)) t (cells', changed) t') :
      cells' = cells ∧ changed = false ∧ t' = t ++ [] := by
    simpa [and_assoc] using h
  unfold step at h
  split at h
  · next cell x cell_eq variable_eq =>
      split at h
      · next conflicted =>
          obtain ⟨rfl, rfl, rfl⟩ := unmoved h
          exact ⟨[], .halted cell_eq conflicted, rfl⟩
      · next free =>
          simp only [yields_bind_iff, yields_query_iff] at h
          obtain ⟨bounds, t₁, values, _, t₂, ⟨rfl, rfl⟩, h⟩ := h
          obtain ⟨bounds_eq, rfl⟩ :=
            (Gives.mapM (fun q => eval_gives cells _) _).yields_iff.1 values
          have turn : Turn p cells v cell x bounds := ⟨cell_eq, variable_eq, free, bounds_eq⟩
          have moves := moves_move p.config.mode x.declared cell bounds
          generalize Id.run (move _ _ _ _ _) = movement at h moves
          cases movement with
          | stay =>
              obtain ⟨rfl, rfl, rfl⟩ := unmoved h
              exact ⟨[], .stay turn moves, rfl⟩
          | goTo value =>
              obtain ⟨same, rfl⟩ := yields_pure_iff.1 h
              obtain ⟨rfl, rfl⟩ := Prod.mk.inj same
              exact ⟨[], .goTo turn moves, by simp⟩
          | refuse candidate =>
              simp only [yields_bind_iff, yields_emit_iff, yields_pure_iff] at h
              obtain ⟨_, _, rfl, same, rfl⟩ := h
              obtain ⟨rfl, rfl⟩ := Prod.mk.inj same
              exact ⟨_, .refuse turn moves, rfl⟩
  · next nothing =>
      obtain ⟨rfl, rfl, rfl⟩ := unmoved h
      refine ⟨[], .absent ?_, rfl⟩
      by_contra some
      rw [not_or, ← Ne, ← Ne, Option.ne_none_iff_exists', Option.ne_none_iff_exists'] at some
      obtain ⟨⟨cell, cell_eq⟩, x, variable_eq⟩ := some
      exact nothing cell x cell_eq variable_eq

theorem valuation_set {cells : List Cell} {v : VarId} {cell : Cell}
    (cell_eq : cells[v.index]? = some cell) (new : Cell) :
    valuation (cells.set v.index new) = Function.update (valuation cells) v (some new.value) := by
  have bound : v.index < cells.length := (List.getElem?_eq_some_iff.1 cell_eq).1
  funext w
  by_cases same : w = v
  · subst same
    simp [valuation, bound]
  · have other : v.index ≠ w.index := fun h => same (by cases v; cases w; simp_all)
    simp [valuation, other, same]

theorem forall_valuation_set {cells : List Cell} {v : VarId} {cell new : Cell}
    {P : VarId → Ty → Prop} (cell_eq : cells[v.index]? = some cell) (here : P v new.value)
    (others : ∀ w t, valuation cells w = some t → P w t) :
    ∀ w t, valuation (cells.set v.index new) w = some t → P w t := by
  intro w t value
  rw [valuation_set cell_eq] at value
  by_cases same : w = v
  · subst same
    obtain rfl : new.value = t := by simpa using value
    exact here
  · rw [Function.update_of_ne same] at value
    exact others w t value

theorem Steps.length_eq {p : Problem} {cells cells' : List Cell} {v : VarId} {changed : Bool}
    {ds : List Diagnostic} (h : Steps p cells v cells' changed ds) :
    cells'.length = cells.length := by
  cases h <;> simp

theorem Steps.getElem?_eq {p : Problem} {cells cells' : List Cell} {v : VarId} {changed : Bool}
    {ds : List Diagnostic} (h : Steps p cells v cells' changed ds) {i : Nat} (other : v.index ≠ i) :
    cells'[i]? = cells[i]? := by
  cases h <;> simp [other]

theorem Steps.valuation_eq {p : Problem} {cells cells' : List Cell} {v : VarId}
    {ds : List Diagnostic} (h : Steps p cells v cells' false ds) :
    valuation cells' = valuation cells := by
  cases h with
  | refuse turn _ =>
      rw [valuation_set turn.cell_eq, Function.update_eq_self_iff]
      simp [valuation, turn.cell_eq]
  | _ => rfl

/-! ## Passes -/

section

variable {p : Problem} {I : List Cell → Prop} {vs : List VarId} {cells cells' : List Cell}
  {changing : List VarId} {t t' : List Diagnostic}

theorem yields_pass_cons_iff {v : VarId} :
    Yields (pass Lattice.plain p (v :: vs) cells) t (cells', changing) t' ↔
      ∃ between changed t₁ later, Yields (step Lattice.plain p cells v) t (between, changed) t₁ ∧
        Yields (pass Lattice.plain p vs between) t₁ (cells', later) t' ∧
        changing = if changed then v :: later else later := by
  simp only [pass, yields_bind_iff, yields_pure_iff, Prod.exists, Prod.mk.injEq]
  constructor
  · rintro ⟨between, changed, t₁, first, _, later, t₂, rest, ⟨rfl, rfl⟩, rfl⟩
    exact ⟨between, changed, t₁, later, first, rest, rfl⟩
  · rintro ⟨between, changed, t₁, later, first, rest, rfl⟩
    exact ⟨between, changed, t₁, first, cells', later, t', rest, ⟨rfl, rfl⟩, rfl⟩

/-- What moving any of the given variables keeps, of the cells and of what is recorded. -/
def Recorded (p : Problem) (vs : List VarId) (I : List Cell → List Diagnostic → Prop) : Prop :=
  ∀ v ∈ vs, ∀ ⦃cells cells' changed t ds⦄, I cells t → Steps p cells v cells' changed ds →
    I cells' (t ++ ds)

theorem Recorded.pass {I : List Cell → List Diagnostic → Prop} (recorded : Recorded p vs I)
    (run : Yields (pass Lattice.plain p vs cells) t (cells', changing) t') (start : I cells t) :
    I cells' t' := by
  induction vs generalizing cells changing t with
  | nil =>
      obtain ⟨same, rfl⟩ := yields_pure_iff.1 run
      rwa [(Prod.mk.inj same).1]
  | cons v vs ih =>
      obtain ⟨between, changed, t₁, later, first, rest, -⟩ := yields_pass_cons_iff.1 run
      obtain ⟨ds, steps, rfl⟩ := steps_of_yields first
      exact ih (fun w mem => recorded w (List.mem_cons_of_mem v mem)) rest
        (recorded v List.mem_cons_self start steps)

theorem Recorded.iterate {I : List Cell → List Diagnostic → Prop} {left : Nat} {s s' : Settled}
    (recorded : Recorded p vs I) (run : Yields (iterate Lattice.plain p vs left s) t s' t')
    (start : I s.cells t) : I s'.cells t' := by
  induction left generalizing s t with
  | zero =>
      obtain ⟨rfl, rfl⟩ := yields_pure_iff.1 run
      exact start
  | succ left ih =>
      simp only [Run.iterate, yields_bind_iff, Prod.exists] at run
      obtain ⟨cells, changing, t₁, run, rest⟩ := run
      have after := recorded.pass run start
      split at rest
      · obtain ⟨rfl, rfl⟩ := yields_pure_iff.1 rest
        exact after
      · exact ih rest after

theorem Recorded.settle {I : List Cell → List Diagnostic → Prop} {s : Settled}
    (recorded : Recorded p p.active I) (run : Yields (settle Lattice.plain p cells) t s t')
    (start : I cells t) : I s.cells t' := by
  simp only [Run.settle] at run
  split at run
  · obtain ⟨rfl, rfl⟩ := yields_pure_iff.1 run
    exact start
  · exact recorded.iterate run start

def Kept (p : Problem) (vs : List VarId) (I : List Cell → Prop) : Prop :=
  ∀ v ∈ vs, ∀ ⦃cells cells' changed ds⦄, I cells → Steps p cells v cells' changed ds → I cells'

theorem Kept.recorded (kept : Kept p vs I) : Recorded p vs fun cells _ => I cells :=
  fun v mem _ _ _ _ _ start steps => kept v mem start steps

theorem Kept.pass (kept : Kept p vs I)
    (run : Yields (pass Lattice.plain p vs cells) t (cells', changing) t') (start : I cells) :
    I cells' :=
  kept.recorded.pass run start

theorem Kept.settle {s : Settled} (kept : Kept p p.active I)
    (run : Yields (settle Lattice.plain p cells) t s t') (start : I cells) : I s.cells :=
  kept.recorded.settle run start

end

end Run

end DataflowTypes
