import DataflowTypes.Config
import DataflowTypes.Solver.Diagnostic
import DataflowTypes.Solver.Resolution
import DataflowTypes.Solver.Store
import DataflowTypes.Solver.Term
import DataflowTypes.Ty.Refine

/-!
# Resolving inequalities

In least mode each settable variable starts at `unknown` and is raised to the
least upper bound of its lower bounds until nothing changes; in greatest mode it
starts at `general` and is lowered in the same way.  An inequality drives the
variable that is its upper side (in greatest mode its lower side).  Inequalities
are checked against the final values: those without a settable variable before
the passes, all others after them.

A run works on values of its own.  The store takes them over when the run is
complete, so an error leaves the store as it was.
-/

namespace DataflowTypes

def SolveMode.start : SolveMode → Ty
  | .least => .unknown
  | .greatest => .general

namespace Inequality

def driven (mode : SolveMode) (q : Inequality) : Term :=
  match mode with
  | .least => q.greater
  | .greatest => q.lesser

def bound (mode : SolveMode) (q : Inequality) : Term :=
  match mode with
  | .least => q.lesser
  | .greatest => q.greater

def readsSettable (store : Store) (q : Inequality) : Bool := q.vars.any store.isSettable

end Inequality

structure Problem where
  config : Config
  store : Store
  constraints : List Inequality

namespace Problem

def fixedConstraints (p : Problem) : List Inequality :=
  p.constraints.filter fun q => !q.readsSettable p.store

def openConstraints (p : Problem) : List Inequality :=
  p.constraints.filter (·.readsSettable p.store)

def driving (p : Problem) (v : VarId) : List Inequality :=
  if p.store.isSettable v then
    p.constraints.filter fun q => (q.driven p.config.mode).var? == some v
  else []

def active (p : Problem) : List VarId :=
  ((List.range p.store.size).map VarId.mk).filter fun v => !(p.driving v).isEmpty

def missing? (p : Problem) : Option VarId :=
  p.constraints.findSome? fun q => q.vars.find? fun v => !p.store.contains v

def defect? (p : Problem) : Option TypeError :=
  if p.config.maxPasses = 0 then some (.config .noPasses)
  else p.missing?.map .unknownVariable

end Problem

structure Cell where
  value : Ty
  state : VarState := .unbound

namespace Cell

/-- A settable variable starts at the extreme of its declared form. -/
def start (mode : SolveMode) (x : Variable) : Cell where
  value :=
    if !x.isSettable then x.declared
    else if x.declared.isUnknown then mode.start
    else Ty.fill mode.start x.declared

end Cell

/-- Fits a type into a declared form; `none` if the form does not take it. -/
def conform (declared candidate : Ty) : Option Ty :=
  if declared.isUnknown then some candidate
  else if declared.hasInstance candidate then
    match declared.update candidate with
    | { type, refusal := none } => some type
    | _ => none
  else none

/-- Whether an inequality fails because of the structure of its sides. -/
def isStructuralMismatch (lesser greater : Ty) : Bool :=
  if lesser.isBound || greater.isBound then false
  else match lesser, greater with
    | .function n .., .function k .. => n != k
    | _, _ =>
        match lesser.family?, greater.family? with
        | some a, some b => a != b
        | some f, none | none, some f => f != .array
        | none, none => false

/-- A run can end in an error; what it has to say until then is kept. -/
abbrev RunM (m : Type → Type) := ExceptT TypeError (StateT (List Diagnostic) m)

namespace Run

variable {m : Type → Type} [Monad m]

def emit (d : Diagnostic) : RunM m Unit := modify (· ++ [d])

def query {α : Type} (x : m α) : RunM m α := ExceptT.lift (StateT.lift x)

def eval (L : Lattice m) (cells : List Cell) : Term → RunM m Ty
  | .const t => pure t
  | .var v =>
      match cells[v.index]? with
      | some cell => pure cell.value
      | none => throw (.unknownVariable v)
  | .app op args => do
      let values ← (List.finRange op.arity).mapM fun i => eval L cells (args i)
      match ← query (op.apply L values) with
      | .ok t => pure t
      | .error e => throw e

/-! ## Checking -/

def describe (store : Store) : Term → String
  | .const t => t.text
  | .var v => store.ownerText v
  | .app op args =>
      let shown := (List.finRange op.arity).map fun i => describe store (args i)
      op.name ++ "(" ++ String.intercalate ", " shown ++ ")"

def collectOwners (store : Store) : Term → NameSet → NameSet
  | .const _, owners => owners
  | .var v, owners =>
      match store.get? v with
      | some x => owners.insert x.owner
      | none => owners
  | .app op args, owners =>
      let owners := match op.owner? with
        | some o => owners.insert o
        | none => owners
      (List.finRange op.arity).foldl (fun owners i => collectOwners store (args i) owners) owners

def violation (store : Store) (q : Inequality) (lesser greater : Ty) : Conflict where
  kind :=
    if isStructuralMismatch lesser greater then .structuralMismatch else .unsatisfiedConstraint
  owners := collectOwners store q.greater (collectOwners store q.lesser .empty)
  vars := q.vars
  lesser := some lesser.text
  greater := some greater.text
  detail := describe store q.lesser ++ " <= " ++ describe store q.greater

def violationDiagnostic (fixed : Bool) (c : Conflict) : Diagnostic :=
  if fixed then .constantViolation c.detail
  else if c.kind = .structuralMismatch then .unsatisfied .structuralMismatch c.detail
  else .unsatisfied .unsatisfiedConstraint c.detail

def check (L : Lattice m) (store : Store) (cells : List Cell) (fixed : Bool) (q : Inequality) :
    RunM m (Option Conflict) := do
  let lesser ← eval L cells q.lesser
  let greater ← eval L cells q.greater
  if (← query (L.compare lesser greater)).isAtMost then return none
  else
    let conflict := violation store q lesser greater
    emit (violationDiagnostic fixed conflict)
    return some conflict

def checkAll (L : Lattice m) (store : Store) (cells : List Cell) (fixed : Bool) :
    List Inequality → RunM m (List Conflict)
  | [] => pure []
  | q :: qs => do
      let found ← check L store cells fixed q
      let more ← checkAll L store cells fixed qs
      return found.toList ++ more

/-! ## Moving variables -/

def applyBounds (L : Lattice m) (mode : SolveMode) (start : Ty) (bounds : List Ty) : m Ty :=
  match mode with
  | .least => bounds.foldlM L.join start
  | .greatest => bounds.foldlM L.meet start

inductive Move where
  | stay
  | goTo (value : Ty)
  | refuse (candidate : Ty)

/-- The value that a variable is tried at first, if any.

The start of a partly declared variable need not be below all of its instances:
the array of unknown length with element `unknown` lies above those of known
length.  So in least mode a variable that has not moved yet is tried at the join
of its bounds alone. -/
def firstValue (L : Lattice m) (mode : SolveMode) (declared : Ty) (cell : Cell)
    (bounds : List Ty) : m (Option Ty) :=
  if mode = .least ∧ cell.state = .unbound then do
    let raw ← applyBounds L mode .unknown bounds
    return if raw.isUnknown then none else conform declared raw
  else pure none

def move (L : Lattice m) (mode : SolveMode) (declared : Ty) (cell : Cell) (bounds : List Ty) :
    m Move := do
  match ← firstValue L mode declared cell bounds with
  | some value => return if value == cell.value then .stay else .goTo value
  | none =>
      let candidate ← applyBounds L mode cell.value bounds
      if candidate == cell.value then return .stay
      else match conform declared candidate with
        | some value => return .goTo value
        | none => return .refuse candidate

/-- Moves one variable.  Tells whether its value changed. -/
def step (L : Lattice m) (p : Problem) (cells : List Cell) (v : VarId) :
    RunM m (List Cell × Bool) := do
  match cells[v.index]?, p.store.get? v with
  | some cell, some x =>
      if cell.state = .conflicted then return (cells, false)
      else
        let bounds ← (p.driving v).mapM fun q => eval L cells (q.bound p.config.mode)
        match ← query (move L p.config.mode x.declared cell bounds) with
        | .stay => return (cells, false)
        | .goTo value => return (cells.set v.index { value, state := .tentative }, true)
        | .refuse candidate =>
            emit (.notInstance x.owner candidate.text cell.value.text)
            return (cells.set v.index { cell with state := .conflicted }, false)
  | _, _ => return (cells, false)

/-- Moves the given variables in order.  Lists those whose value changed. -/
def pass (L : Lattice m) (p : Problem) : List VarId → List Cell → RunM m (List Cell × List VarId)
  | [], cells => return (cells, [])
  | v :: vs, cells => do
      let (cells, changed) ← step L p cells v
      let (cells, later) ← pass L p vs cells
      return (cells, if changed then v :: later else later)

/-- Where the passes ended: how many there were, and which variables changed in the last. -/
structure Settled where
  cells : List Cell
  passes : Nat
  changing : List VarId

/-- Passes until nothing changes or none is left.  `passes` were made before, and the
last of them changed `changing`. -/
def iterate (L : Lattice m) (p : Problem) (active : List VarId) :
    (left : Nat) → Settled → RunM m Settled
  | 0, s => return s
  | left + 1, s => do
      let (cells, changing) ← pass L p active s.cells
      let s : Settled := { cells, passes := s.passes + 1, changing }
      if changing.isEmpty then return s else iterate L p active left s

/-- All passes of a run; none if no inequality moves a variable. -/
def settle (L : Lattice m) (p : Problem) (cells : List Cell) : RunM m Settled :=
  let active := p.active
  let start : Settled := { cells, passes := 0, changing := [] }
  if active.isEmpty then return start else iterate L p active p.config.maxPasses start

/-! ## Conclusions -/

def divergenceConflicts (store : Store) (s : Settled) : List Conflict :=
  s.changing.map fun v =>
    { kind := .nonConvergent
      owners := .ofList [store.ownerText v]
      vars := [v]
      lesser := none
      greater := none
      detail := s!"still changing after {s.passes} passes" }

def reportDivergence (store : Store) (s : Settled) : RunM m Unit :=
  if s.changing.isEmpty then pure ()
  else emit (.divergence s.passes (s.changing.map store.ownerText))

def acceptabilityConflicts (store : Store) (cells : List Cell) : List (Conflict × Diagnostic) :=
  (store.entries.zip cells).filterMap fun ((v, x), cell) =>
    if x.isSettable && !x.acceptance.accepts cell.value then
      let value := cell.value.text
      some
        ({ kind := .unacceptableResolution
           owners := .ofList [x.owner]
           vars := [v]
           lesser := none
           greater := none
           detail := x.owner ++ " resolved to " ++ value },
          .unacceptable x.owner value)
    else none

def finalState (conflicts : List Conflict) (v : VarId) (x : Variable) (cell : Cell) : VarState :=
  if conflicts.any (fun c => v ∈ c.vars) || cell.state == .conflicted then .conflicted
  else if !x.isSettable || cell.state == .tentative then .resolved
  else .unbound

def commit (store : Store) (conflicts : List Conflict) (cells : List Cell) : Store :=
  ⟨(store.entries.zip cells).map fun ((v, x), cell) =>
    { x with value := cell.value, state := finalState conflicts v x cell }⟩

def execute (L : Lattice m) (p : Problem) : RunM m (Resolution × Store) := do
  let start := p.store.vars.map (Cell.start p.config.mode)
  let fixed ← checkAll L p.store start true p.fixedConstraints
  let settled ← settle L p start
  reportDivergence p.store settled
  let violated ← checkAll L p.store settled.cells false p.openConstraints
  let abstract :=
    if p.config.checkAcceptability then acceptabilityConflicts p.store settled.cells else []
  abstract.forM fun (_, d) => emit d
  let conflicts :=
    fixed ++ divergenceConflicts p.store settled ++ violated ++ abstract.map (·.1)
  return ({ conflicts, passes := settled.passes, converged := settled.changing.isEmpty },
    commit p.store conflicts settled.cells)

end Run

/-- The outcome of resolving: the resolution with the store it leaves, or an error that
leaves the store alone; and the diagnostics until the end. -/
structure Outcome where
  result : Except TypeError (Resolution × Store)
  trace : List Diagnostic

def Problem.resolve {m : Type → Type} [Monad m] (L : Lattice m) (p : Problem) : m Outcome := do
  match p.defect? with
  | some e => return ⟨.error e, []⟩
  | none =>
      let (result, trace) ← (Run.execute L p).run.run []
      return ⟨result, trace⟩

end DataflowTypes
