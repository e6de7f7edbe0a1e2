import DataflowTypes.Proofs.Lattice.Correspondence
import DataflowTypes.Solver.Run

/-!
# Resolving with a memo table

A run does the same whether types are compared anew or looked up in a sound memo
table.  Main statement: a lattice with a memo table answers every sequence of
requests as one without does, and the table is sound whenever a request has been
answered.
-/

namespace DataflowTypes

variable {m n : Type → Type} [Monad m] [Monad n] (R : Correspondence m n)

namespace Correspondence

def runs : Correspondence (RunM m) (RunM n) where
  Related x y := ∀ trace, R.Related (x.run.run trace) (y.run.run trace)
  pure a trace := R.pure (Except.ok a, trace)
  bind hx hf trace := by
    refine R.bind (hx trace) ?_
    rintro ⟨result, trace'⟩
    cases result with
    | ok a => exact hf a trace'
    | error e => exact R.pure (Except.error e, trace')

variable {α : Type}

theorem runs_throw (e : TypeError) : R.runs.Related (throw e : RunM m α) (throw e : RunM n α) :=
  fun trace => R.pure (Except.error e, trace)

theorem runs_query {x : m α} {y : n α} (h : R.Related x y) :
    R.runs.Related (Run.query x) (Run.query y) :=
  fun _ => R.bind (R.bind h fun _ => R.pure _) fun _ => R.pure _

theorem runs_emit (d : Diagnostic) : R.runs.Related (Run.emit (m := m) d) (Run.emit d) :=
  fun _ => R.bind (R.pure _) fun _ => R.pure _

end Correspondence

section Lattices

variable {L : Lattice m} {K : Lattice n} (h : ∀ a b, R.Related (L.compare a b) (K.compare a b))

include h

private theorem Operator.apply_related (op : Operator) (args : List Ty) :
    R.Related (op.apply L args) (op.apply K args) := by
  cases op with
  | custom => exact Inquiry.run_related R h _
  | _ => exact R.pure _

namespace Run

theorem eval_related (cells : List Cell) (t : Term) :
    R.runs.Related (eval L cells t) (eval K cells t) := by
  induction t with
  | const t => exact R.runs.pure t
  | var v =>
      simp only [eval]
      split
      · exact R.runs.pure _
      · exact R.runs_throw _
  | app op args ih =>
      simp only [eval]
      refine R.runs.bind (R.runs.mapM ih _) fun values => ?_
      refine R.runs.bind (R.runs_query (Operator.apply_related R h op values)) fun result => ?_
      cases result with
      | ok t => exact R.runs.pure t
      | error e => exact R.runs_throw e

private theorem check_related (store : Store) (cells : List Cell) (fixed : Bool) (q : Inequality) :
    R.runs.Related (check L store cells fixed q) (check K store cells fixed q) := by
  refine R.runs.bind (eval_related R h cells _) fun lesser => ?_
  refine R.runs.bind (eval_related R h cells _) fun greater => ?_
  refine R.runs.bind (R.runs_query (h _ _)) fun o => ?_
  refine R.runs.ite (fun _ => R.runs.pure _) fun _ => ?_
  exact R.runs.bind (R.runs_emit _) fun _ => R.runs.pure _

theorem checkAll_related (store : Store) (cells : List Cell) (fixed : Bool)
    (qs : List Inequality) :
    R.runs.Related (checkAll L store cells fixed qs) (checkAll K store cells fixed qs) := by
  induction qs with
  | nil => exact R.runs.pure _
  | cons q qs ih =>
      refine R.runs.bind (check_related R h store cells fixed q) fun _ => ?_
      exact R.runs.bind ih fun _ => R.runs.pure _

theorem applyBounds_related (mode : SolveMode) (start : Ty) (bounds : List Ty) :
    R.Related (applyBounds L mode start bounds) (applyBounds K mode start bounds) := by
  cases mode with
  | least => exact R.foldlM (Lattice.join_related R h) bounds start
  | greatest => exact R.foldlM (Lattice.meet_related R h) bounds start

private theorem firstValue_related (mode : SolveMode) (declared : Ty) (cell : Cell)
    (bounds : List Ty) :
    R.Related (firstValue L mode declared cell bounds)
      (firstValue K mode declared cell bounds) := by
  refine R.ite (fun _ => ?_) fun _ => R.pure _
  exact R.bind (applyBounds_related R h mode _ bounds) fun _ => R.pure _

private theorem move_related (mode : SolveMode) (declared : Ty) (cell : Cell) (bounds : List Ty) :
    R.Related (move L mode declared cell bounds) (move K mode declared cell bounds) := by
  refine R.bind (firstValue_related R h mode declared cell bounds) fun fresh => ?_
  cases fresh with
  | some value => exact R.pure _
  | none =>
      refine R.bind (applyBounds_related R h mode _ bounds) fun candidate => ?_
      refine R.ite (fun _ => R.pure _) fun _ => ?_
      cases conform declared candidate with
      | some value => exact R.pure _
      | none => exact R.pure _

private theorem step_related (p : Problem) (cells : List Cell) (v : VarId) :
    R.runs.Related (step L p cells v) (step K p cells v) := by
  unfold step
  split
  · refine R.runs.ite (fun _ => R.runs.pure _) fun _ => ?_
    refine R.runs.bind (R.runs.mapM (fun q => eval_related R h cells _) _) fun bounds => ?_
    refine R.runs.bind (R.runs_query (move_related R h _ _ _ bounds)) fun movement => ?_
    cases movement with
    | stay => exact R.runs.pure _
    | goTo value => exact R.runs.pure _
    | refuse candidate => exact R.runs.bind (R.runs_emit _) fun _ => R.runs.pure _
  · exact R.runs.pure _

private theorem pass_related (p : Problem) (vs : List VarId) (cells : List Cell) :
    R.runs.Related (pass L p vs cells) (pass K p vs cells) := by
  induction vs generalizing cells with
  | nil => exact R.runs.pure _
  | cons v vs ih =>
      refine R.runs.bind (step_related R h p cells v) ?_
      rintro ⟨cells, changed⟩
      refine R.runs.bind (ih cells) ?_
      rintro ⟨cells, later⟩
      exact R.runs.pure _

private theorem iterate_related (p : Problem) (active : List VarId) (left : Nat) (s : Settled) :
    R.runs.Related (iterate L p active left s) (iterate K p active left s) := by
  induction left generalizing s with
  | zero => exact R.runs.pure s
  | succ left ih =>
      refine R.runs.bind (pass_related R h p active s.cells) ?_
      rintro ⟨cells, changing⟩
      exact R.runs.ite (fun _ => R.runs.pure _) fun _ => ih _

private theorem settle_related (p : Problem) (cells : List Cell) :
    R.runs.Related (settle L p cells) (settle K p cells) :=
  R.runs.ite (fun _ => R.runs.pure _) fun _ => iterate_related R h p _ _ _

omit h in
private theorem reportDivergence_related (store : Store) (s : Settled) :
    R.runs.Related (reportDivergence store s) (reportDivergence store s) :=
  R.runs.ite (fun _ => R.runs.pure _) fun _ => R.runs_emit _

theorem execute_related (p : Problem) : R.runs.Related (execute L p) (execute K p) := by
  refine R.runs.bind (checkAll_related R h _ _ _ _) fun fixed => ?_
  refine R.runs.bind (settle_related R h p _) fun settled => ?_
  refine R.runs.bind (reportDivergence_related R p.store settled) fun _ => ?_
  refine R.runs.bind (checkAll_related R h _ _ _ _) fun violated => ?_
  refine R.runs.bind (R.runs.forM (fun _ => R.runs_emit _) _) fun _ => ?_
  exact R.runs.pure _

end Run

theorem Problem.resolve_related (p : Problem) : R.Related (p.resolve L) (p.resolve K) := by
  unfold Problem.resolve
  split
  · exact R.pure _
  · exact R.bind (Run.execute_related R h p []) fun _ => R.pure _

end Lattices

/-! ## Requests -/

inductive Request where
  | compare (a b : Ty)
  | isCompatible (target source : Ty)
  | meet (a b : Ty)
  | join (a b : Ty)
  | meetAll (ts : List Ty)
  | joinAll (ts : List Ty)
  | resolve (p : Problem)
  | forget

inductive Answer where
  | comparison (o : Comparison)
  | verdict (holds : Bool)
  | type (t : Ty)
  | outcome (o : Outcome)
  | forgotten

namespace Lattice

def serve (L : Lattice m) (forget : m Unit) : Request → m Answer
  | .compare a b => return .comparison (← L.compare a b)
  | .isCompatible target source => return .verdict (← L.isCompatible target source)
  | .meet a b => return .type (← L.meet a b)
  | .join a b => return .type (← L.join a b)
  | .meetAll ts => return .type (← L.meetAll ts)
  | .joinAll ts => return .type (← L.joinAll ts)
  | .resolve p => return .outcome (← p.resolve L)
  | .forget => do
      forget
      return .forgotten

def forget : Memo Unit := modify (·.map fun _ => .empty)

theorem serve_related {L : Lattice m} {K : Lattice n} {forget : m Unit} {forget' : n Unit}
    (h : ∀ a b, R.Related (L.compare a b) (K.compare a b)) (hf : R.Related forget forget')
    (r : Request) : R.Related (L.serve forget r) (K.serve forget' r) := by
  cases r with
  | compare a b => exact R.bind (h a b) fun _ => R.pure _
  | isCompatible target source =>
      exact R.bind (isCompatible_related R h target source) fun _ => R.pure _
  | meet a b => exact R.bind (meet_related R h a b) fun _ => R.pure _
  | join a b => exact R.bind (join_related R h a b) fun _ => R.pure _
  | meetAll ts => exact R.bind (meetAll_related R h ts) fun _ => R.pure _
  | joinAll ts => exact R.bind (joinAll_related R h ts) fun _ => R.pure _
  | resolve p => exact R.bind (p.resolve_related R h) fun _ => R.pure _
  | forget => exact R.bind hf fun _ => R.pure _

theorem forget_related : memoCorrespondence.Related forget (pure ()) := by
  intro memo _
  refine ⟨memo.map fun _ => .empty, ?_, by simp, rfl⟩
  intro c emptied
  obtain ⟨_, _, rfl⟩ := Option.map_eq_some_iff.1 emptied
  exact Cache.sound_empty

/-- The memo table is transparent: from an empty table on, every sequence of requests is
answered as it is without a table, and the table is sound in the end.  Every point
of a sequence is the end of one, so this holds at every point. -/
theorem serve_memoized (requests : List Request) :
    ∃ c : Cache, c.Sound ∧
      Id.run ((requests.mapM (memoized.serve forget)).run (some .empty)) =
        (requests.map fun r => Id.run (plain.serve (pure ()) r), some c) := by
  have answers := memoCorrespondence.mapM
    (serve_related memoCorrespondence memoized_compare_related forget_related) requests
  have fresh : SoundMemo (some .empty) := by
    rintro _ ⟨⟩
    exact Cache.sound_empty
  obtain ⟨memo, sound, kept, run⟩ := answers (some .empty) fresh
  obtain ⟨c, rfl⟩ := Option.isSome_iff_exists.1 kept
  exact ⟨c, sound c rfl, by simpa using run⟩

end Lattice

end DataflowTypes
