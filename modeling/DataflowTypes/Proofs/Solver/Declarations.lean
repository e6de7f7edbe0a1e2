import DataflowTypes.Proofs.Solver.Memo
import DataflowTypes.Proofs.Solver.Outcome
import DataflowTypes.Proofs.Ty.Form

/-!
# What a run reads of its store

A run reads the owner, the declared form and the acceptance of each variable, and nothing
else.  So it does the same on a store from which the values and states of earlier runs, and
all refinements of declared types, have been dropped.  Main statement: two stores with the
same declarations are resolved alike, whatever was asked of the memo table before, and a
second run changes nothing.
-/

namespace DataflowTypes

namespace Variable

def asDeclared (x : Variable) : Variable where
  owner := x.owner
  declared := x.declared.form
  value := x.declared.form
  acceptance := x.acceptance

structure Agrees (x y : Variable) : Prop where
  owner : x.owner = y.owner
  form : x.declared.form = y.declared.form
  acceptance : x.acceptance = y.acceptance

theorem Agrees.asDeclared_eq {x y : Variable} (h : x.Agrees y) : x.asDeclared = y.asDeclared := by
  simp only [asDeclared, h.owner, h.form, h.acceptance]

@[simp] theorem isSettable_asDeclared (x : Variable) :
    x.asDeclared.isSettable = x.isSettable := by
  simp [isSettable, asDeclared]

end Variable

@[simp] theorem Cell.start_asDeclared (mode : SolveMode) (x : Variable) :
    Cell.start mode x.asDeclared = Cell.start mode x := by
  simp only [Cell.start, Variable.isSettable_asDeclared]
  cases constant : x.declared.isConstant with
  | true => simp [Variable.isSettable, constant, Variable.asDeclared, Ty.form_eq_self]
  | false => simp [Variable.isSettable, constant, Variable.asDeclared, Ty.fill_form]

namespace Store

def asDeclared (s : Store) : Store := ⟨s.vars.map Variable.asDeclared⟩

def Agrees (s s' : Store) : Prop := List.Forall₂ Variable.Agrees s.vars s'.vars

theorem Agrees.asDeclared_eq {s s' : Store} (h : s.Agrees s') : s.asDeclared = s'.asDeclared := by
  refine congrArg Store.mk ?_
  rw [← List.forall₂_eq_eq_eq, List.forall₂_map_left_iff, List.forall₂_map_right_iff]
  exact h.imp fun _ _ agrees => agrees.asDeclared_eq

section

variable (s : Store) (v : VarId)

@[simp] theorem size_asDeclared : s.asDeclared.size = s.size := by
  simp [size, asDeclared]

@[simp] theorem contains_asDeclared : s.asDeclared.contains v = s.contains v := by
  simp [contains, asDeclared]

@[simp] theorem get?_asDeclared :
    s.asDeclared.get? v = (s.get? v).map Variable.asDeclared := by
  simp [get?, asDeclared]

@[simp] theorem isSettable_asDeclared : s.asDeclared.isSettable v = s.isSettable v := by
  cases found : s.get? v <;> simp [isSettable, found]

@[simp] theorem ownerText_asDeclared : s.asDeclared.ownerText v = s.ownerText v := by
  cases found : s.get? v <;> simp [ownerText, found, Variable.asDeclared]

private theorem entries_asDeclared :
    s.asDeclared.entries = s.entries.map fun e => (e.1, e.2.asDeclared) := by
  simp [entries, asDeclared, List.zipIdx_map]

end

end Store

namespace Problem

def asDeclared (p : Problem) : Problem := { p with store := p.store.asDeclared }

section

variable (p : Problem)

theorem readsSettable_asDeclared (q : Inequality) :
    q.readsSettable p.store.asDeclared = q.readsSettable p.store := by
  simp only [Inequality.readsSettable, funext p.store.isSettable_asDeclared]

@[simp] theorem fixedConstraints_asDeclared :
    p.asDeclared.fixedConstraints = p.fixedConstraints := by
  simp [fixedConstraints, asDeclared, readsSettable_asDeclared]

@[simp] theorem openConstraints_asDeclared :
    p.asDeclared.openConstraints = p.openConstraints := by
  simp [openConstraints, asDeclared, readsSettable_asDeclared]

@[simp] theorem driving_asDeclared (v : VarId) : p.asDeclared.driving v = p.driving v := by
  simp [driving, asDeclared]

@[simp] theorem active_asDeclared : p.asDeclared.active = p.active := by
  simp only [active, driving_asDeclared]
  simp [asDeclared]

@[simp] theorem defect?_asDeclared : p.asDeclared.defect? = p.defect? := by
  simp [defect?, missing?, asDeclared]

end

end Problem

namespace Run

/-! ## Checking -/

section

variable (s : Store)

@[simp] theorem describe_asDeclared (t : Term) : describe s.asDeclared t = describe s t := by
  induction t with
  | const t => rfl
  | var v => simp [describe]
  | app op args ih => simp only [describe, ih]

@[simp] theorem collectOwners_asDeclared (t : Term) (owners : NameSet) :
    collectOwners s.asDeclared t owners = collectOwners s t owners := by
  induction t generalizing owners with
  | const t => rfl
  | var v => cases found : s.get? v <;> simp [collectOwners, found, Variable.asDeclared]
  | app op args ih => simp only [collectOwners, ih]

@[simp] theorem violation_asDeclared (q : Inequality) (lesser greater : Ty) :
    violation s.asDeclared q lesser greater = violation s q lesser greater := by
  simp [violation]

variable {m : Type → Type} [Monad m] (L : Lattice m) (cells : List Cell) (fixed : Bool)

@[simp] theorem checkAll_asDeclared (qs : List Inequality) :
    checkAll L s.asDeclared cells fixed qs = checkAll L s cells fixed qs := by
  induction qs with
  | nil => rfl
  | cons q qs ih => simp only [checkAll, check, violation_asDeclared, ih]

end

/-! ## Moving variables -/

section

variable {m : Type → Type} [Monad m] (L : Lattice m) (p : Problem)

private theorem move_asDeclared (mode : SolveMode) (x : Variable) (cell : Cell) (bounds : List Ty) :
    move L mode x.asDeclared.declared cell bounds = move L mode x.declared cell bounds := by
  simp only [move, firstValue, Variable.asDeclared, conform_form]

private theorem step_asDeclared (cells : List Cell) (v : VarId) :
    step L p.asDeclared cells v = step L p cells v := by
  have found : p.asDeclared.store.get? v = (p.store.get? v).map Variable.asDeclared :=
    p.store.get?_asDeclared v
  simp only [step, found, p.driving_asDeclared]
  cases cells[v.index]? with
  | none => cases p.store.get? v <;> rfl
  | some cell =>
      cases p.store.get? v with
      | none => rfl
      | some x =>
          simp only [Option.map_some, move_asDeclared]
          rfl

private theorem pass_asDeclared (vs : List VarId) (cells : List Cell) :
    pass L p.asDeclared vs cells = pass L p vs cells := by
  induction vs generalizing cells with
  | nil => rfl
  | cons v vs ih => simp only [pass, step_asDeclared, ih]

private theorem iterate_asDeclared (active : List VarId) (left : Nat) (s : Settled) :
    iterate L p.asDeclared active left s = iterate L p active left s := by
  induction left generalizing s with
  | zero => rfl
  | succ left ih => simp only [iterate, pass_asDeclared, ih]

private theorem settle_asDeclared (cells : List Cell) :
    settle L p.asDeclared cells = settle L p cells := by
  simp only [settle, p.active_asDeclared, iterate_asDeclared]
  rfl

end

end Run

/-! ## Values and states -/

namespace Store

def signature (s : Store) : List (String × Ty × Acceptance) :=
  s.vars.map fun x => (x.owner, x.declared, x.acceptance)

def bindings (s : Store) : List (Ty × VarState) := s.vars.map fun x => (x.value, x.state)

private theorem agrees_of_signature {s s' : Store} (same : s.signature = s'.signature) :
    s.Agrees s' := by
  rw [signature, signature, ← List.forall₂_eq_eq_eq, List.forall₂_map_left_iff,
    List.forall₂_map_right_iff] at same
  refine List.Forall₂.imp (fun x y same => ?_) same
  simp only [Prod.mk.injEq] at same
  obtain ⟨owner, declared, acceptance⟩ := same
  exact ⟨owner, congrArg Ty.form declared, acceptance⟩

def adopt (s after : Store) : Store :=
  ⟨List.zipWith (fun x y => { x with value := y.value, state := y.state }) s.vars after.vars⟩

theorem get?_adopt (s after : Store) (v : VarId) :
    (s.adopt after).get? v = (s.get? v).bind fun x =>
      (after.get? v).map fun y => { x with value := y.value, state := y.state } := by
  simp only [get?, adopt, List.getElem?_zipWith]
  cases s.vars[v.index]? <;> cases after.vars[v.index]? <;> rfl

theorem ext_get? {s s' : Store} (same : ∀ v, s.get? v = s'.get? v) : s = s' := by
  cases s
  exact congrArg Store.mk (List.ext_getElem? fun i => same ⟨i⟩)

private theorem adopt_adopt (s after : Store) : (s.adopt after).adopt after = s.adopt after := by
  refine ext_get? fun v => ?_
  simp only [get?_adopt]
  cases s.get? v <;> cases after.get? v <;> rfl

section

variable {s after : Store} (sizes : after.size = s.size)

include sizes

theorem signature_adopt : (s.adopt after).signature = s.signature := by
  have lengths : after.vars.length = s.vars.length := sizes
  exact List.ext_getElem (by simp [signature, adopt, lengths]) (by simp [signature, adopt])

theorem bindings_adopt : (s.adopt after).bindings = after.bindings := by
  have lengths : after.vars.length = s.vars.length := sizes
  exact List.ext_getElem (by simp [bindings, adopt, lengths]) (by simp [bindings, adopt])

end

end Store

def Outcome.adoptedBy (s : Store) (o : Outcome) : Outcome :=
  { o with result := o.result.map fun ended => (ended.1, s.adopt ended.2) }

namespace Run

section

variable (s : Store)

@[simp] theorem divergenceConflicts_asDeclared (settled : Settled) :
    divergenceConflicts s.asDeclared settled = divergenceConflicts s settled := by
  simp [divergenceConflicts]

@[simp] theorem reportDivergence_asDeclared {m : Type → Type} [Monad m] (settled : Settled) :
    (reportDivergence s.asDeclared settled : RunM m Unit) = reportDivergence s settled := by
  simp only [reportDivergence, funext s.ownerText_asDeclared]

@[simp] theorem acceptabilityConflicts_asDeclared (cells : List Cell) :
    acceptabilityConflicts s.asDeclared cells = acceptabilityConflicts s cells := by
  simp only [acceptabilityConflicts, s.entries_asDeclared, List.zip_map_left, List.filterMap_map]
  congr 1
  funext ⟨⟨v, x⟩, cell⟩
  simp only [Function.comp, Prod.map, Variable.isSettable_asDeclared]
  rfl

private theorem finalState_asDeclared (conflicts : List Conflict) (v : VarId) (x : Variable)
    (cell : Cell) : finalState conflicts v x.asDeclared cell = finalState conflicts v x cell := by
  simp [finalState]

private theorem commit_eq_adopt (conflicts : List Conflict) (cells : List Cell) :
    commit s conflicts cells = s.adopt (commit s.asDeclared conflicts cells) := by
  refine Store.ext_get? fun v => ?_
  rw [Store.get?_adopt, get?_commit, get?_commit, Store.get?_asDeclared]
  cases s.get? v with
  | none => rfl
  | some x => cases cells[v.index]? <;> simp [finalState_asDeclared]

end

theorem execute_eq_adopt {m : Type → Type} [Monad m] [LawfulMonad m] (L : Lattice m)
    (p : Problem) :
    execute L p = (fun o => (o.1, p.store.adopt o.2)) <$> execute L p.asDeclared := by
  have start : p.asDeclared.store.vars.map (Cell.start p.asDeclared.config.mode) =
      p.store.vars.map (Cell.start p.config.mode) := by
    simp [Problem.asDeclared, Store.asDeclared, Function.comp_def]
  simp only [execute, start, p.fixedConstraints_asDeclared, p.openConstraints_asDeclared,
    settle_asDeclared, map_bind, map_pure]
  simp only [Problem.asDeclared, checkAll_asDeclared, reportDivergence_asDeclared,
    acceptabilityConflicts_asDeclared, divergenceConflicts_asDeclared, ← commit_eq_adopt]

end Run

theorem Problem.resolve_eq_adopt {m : Type → Type} [Monad m] [LawfulMonad m] (L : Lattice m)
    (p : Problem) : p.resolve L = Outcome.adoptedBy p.store <$> p.asDeclared.resolve L := by
  simp only [resolve, p.defect?_asDeclared]
  cases p.defect? with
  | some e => simp [Outcome.adoptedBy, Except.map]
  | none =>
      simp only [Run.execute_eq_adopt L p]
      simp [Outcome.adoptedBy]

namespace Problem

theorem outcome_eq_adopt (p : Problem) : p.outcome = p.asDeclared.outcome.adoptedBy p.store :=
  p.resolve_eq_adopt Lattice.plain

theorem asDeclared_eq {p p' : Problem} (agree : p'.store.Agrees p.store)
    (config : p'.config = p.config) (constraints : p'.constraints = p.constraints) :
    p'.asDeclared = p.asDeclared := by
  simp only [asDeclared, config, constraints, agree.asDeclared_eq]

private theorem size_of_outcome {p : Problem} {r : Resolution} {after : Store}
    (h : p.outcome.result = .ok (r, after)) : after.size = p.store.size := by
  obtain ⟨-, settled, completed⟩ := completed_of_outcome h
  exact completed.size_after

theorem outcome_eq_ok_iff {p : Problem} {r : Resolution} {after : Store} :
    p.outcome.result = .ok (r, after) ↔ ∃ bare, p.asDeclared.outcome.result = .ok (r, bare) ∧
      bare.size = p.store.size ∧ after = p.store.adopt bare := by
  rw [outcome_eq_adopt]
  constructor
  · intro h
    cases ran : p.asDeclared.outcome.result with
    | error e => simp [Outcome.adoptedBy, ran, Except.map] at h
    | ok ended =>
        have sizes := (size_of_outcome ran).trans p.store.size_asDeclared
        simp only [Outcome.adoptedBy, ran, Except.map, Except.ok.injEq, Prod.mk.injEq] at h
        obtain ⟨rfl, rfl⟩ := h
        exact ⟨ended.2, rfl, sizes, rfl⟩
  · rintro ⟨bare, ran, -, rfl⟩
    simp [Outcome.adoptedBy, ran, Except.map]

theorem outcome_eq_error_iff {p : Problem} {e : TypeError} :
    p.outcome.result = .error e ↔ p.asDeclared.outcome.result = .error e := by
  rw [outcome_eq_adopt, Outcome.adoptedBy]
  cases p.asDeclared.outcome.result <;> simp [Except.map]

/-- What a run leaves is resolved to itself. -/
theorem outcome_after {p : Problem} {r : Resolution} {after : Store}
    (h : p.outcome.result = .ok (r, after)) : outcome { p with store := after } = p.outcome := by
  obtain ⟨bare, ran, sizes, rfl⟩ := outcome_eq_ok_iff.1 h
  have agree := Store.agrees_of_signature (Store.signature_adopt sizes)
  have same : asDeclared { p with store := p.store.adopt bare } = p.asDeclared :=
    asDeclared_eq agree rfl rfl
  rw [outcome_eq_adopt, outcome_eq_adopt p, same]
  simp only [Outcome.adoptedBy, ran, Except.map, Store.adopt_adopt]

/-! ## With a memo table -/

def resolveWith (p : Problem) (memo : Option Cache) : Outcome × Option Cache :=
  Id.run ((p.resolve Lattice.memoized).run memo)

theorem resolveWith_of_sound (p : Problem) {memo : Option Cache}
    (sound : Lattice.SoundMemo memo) :
    (p.resolveWith memo).1 = p.outcome ∧ Lattice.SoundMemo (p.resolveWith memo).2 := by
  have related := p.resolve_related Lattice.memoCorrespondence Lattice.memoized_compare_related
  obtain ⟨memo', sound', -, run⟩ := related memo sound
  rw [resolveWith, run]
  exact ⟨rfl, sound'⟩

end Problem

namespace Lattice

def memoAfter (cached : Bool) (requests : List Request) : Option Cache :=
  (Id.run ((requests.mapM (memoized.serve forget)).run (if cached then some .empty else none))).2

theorem soundMemo_memoAfter (cached : Bool) (requests : List Request) :
    SoundMemo (memoAfter cached requests) := by
  have answers := memoCorrespondence.mapM
    (serve_related memoCorrespondence memoized_compare_related forget_related) requests
  have fresh : SoundMemo (if cached then some .empty else none) := by
    intro c found
    cases cached with
    | false => cases found
    | true =>
        obtain rfl := Option.some.inj found
        exact Cache.sound_empty
  obtain ⟨memo, sound, -, run⟩ := answers _ fresh
  rw [memoAfter, run]
  exact sound

end Lattice

namespace Problem

/-- Resolution depends on declarations alone, and touches values and states alone.  If two
stores agree on the owner, the declared form and the acceptance of each variable, resolving the
same inequalities on them, with or without a memo table and whatever that table was used for
before, has the same resolution or error, and leaves the same values and states; all
declarations stay.  So a second run, with the table that the first one has filled, has the
outcome of the first. -/
theorem declarations_determine {p p' : Problem} (agree : p'.store.Agrees p.store)
    (config : p'.config = p.config) (constraints : p'.constraints = p.constraints)
    (cached cached' : Bool) (past past' : List Request) {o o' : Outcome}
    {memo memo' : Option Cache}
    (ran : p.resolveWith (Lattice.memoAfter cached past) = (o, memo))
    (ran' : p'.resolveWith (Lattice.memoAfter cached' past') = (o', memo')) :
    o'.trace = o.trace ∧ (∀ e, o.result = .error e → o'.result = .error e) ∧
      ∀ r after, o.result = .ok (r, after) →
        (∃ after', o'.result = .ok (r, after') ∧ after'.bindings = after.bindings ∧
          after'.signature = p'.store.signature) ∧
        after.signature = p.store.signature ∧
        (resolveWith { p with store := after } memo).1 = o := by
  obtain ⟨first, sound⟩ := p.resolveWith_of_sound (Lattice.soundMemo_memoAfter cached past)
  obtain ⟨other, -⟩ := p'.resolveWith_of_sound (Lattice.soundMemo_memoAfter cached' past')
  rw [ran] at first sound
  rw [ran'] at other
  subst first other
  -- Both runs do what is done on one store, without earlier values and refinements.
  have same := asDeclared_eq agree config constraints
  refine ⟨?_, fun e failed => ?_, fun r after h => ⟨?_, ?_, ?_⟩⟩
  · rw [outcome_eq_adopt p, outcome_eq_adopt p', same]
    rfl
  · rw [outcome_eq_error_iff, same]
    exact outcome_eq_error_iff.1 failed
  · obtain ⟨bare, ran, sizes, rfl⟩ := outcome_eq_ok_iff.1 h
    have sizes' : bare.size = p'.store.size := sizes.trans agree.length_eq.symm
    refine ⟨p'.store.adopt bare, ?_, ?_, Store.signature_adopt sizes'⟩
    · exact outcome_eq_ok_iff.2 ⟨bare, same ▸ ran, sizes', rfl⟩
    · rw [Store.bindings_adopt sizes, Store.bindings_adopt sizes']
  · obtain ⟨bare, -, sizes, rfl⟩ := outcome_eq_ok_iff.1 h
    exact Store.signature_adopt sizes
  · rw [(resolveWith_of_sound _ sound).1]
    exact outcome_after h

def fresh : Problem where
  config := {}
  store := ⟨[{ owner := "xs", declared := .arrayOf .unknown none, value := .unknown },
    { owner := "x", declared := .unknown, value := .unknown }]⟩
  constraints := [⟨.const (.arrayOf (.base .int) (some 3)), .var ⟨0⟩⟩, ⟨.var ⟨0⟩, .var ⟨1⟩⟩]

def stale : Problem where
  config := fresh.config
  store := ⟨[
    { owner := "xs"
      declared := .array .unknown (.base .string) none (some 2)
      value := .general
      state := .conflicted },
    { owner := "x", declared := .unknown, value := .base .int, state := .resolved }]⟩
  constraints := fresh.constraints

private theorem stale_agrees : stale.store.Agrees fresh.store :=
  .cons ⟨rfl, rfl, rfl⟩ (.cons ⟨rfl, rfl, rfl⟩ .nil)

theorem declarations_determine_stale :
    ∃ r after after', (fresh.resolveWith (Lattice.memoAfter false [])).1.result = .ok (r, after) ∧
      (stale.resolveWith (Lattice.memoAfter true [.resolve fresh])).1.result = .ok (r, after') ∧
      after'.bindings = after.bindings := by
  have builtIn : ∀ q ∈ fresh.constraints, q.IsBuiltIn := by
    simp [fresh, Inequality.IsBuiltIn, Term.IsBuiltIn]
  obtain ⟨r, after, h⟩ := exists_outcome rfl (evaluable_of_builtIn rfl builtIn)
  obtain ⟨-, -, complete⟩ :=
    declarations_determine stale_agrees rfl rfl false true [] [.resolve fresh] rfl rfl
  rw [← (fresh.resolveWith_of_sound (Lattice.soundMemo_memoAfter false [])).1] at h
  obtain ⟨⟨after', h', bindings, -⟩, -⟩ := complete r after h
  exact ⟨r, after, after', h, h', bindings⟩

end Problem

end DataflowTypes
