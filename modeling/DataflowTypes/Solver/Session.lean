import DataflowTypes.Solver.Element
import DataflowTypes.Solver.Run

/-!
# Sessions

A model that is built up and resolved step by step: its variables, constraints
and elements, the settings, the memo table, and what the last resolution found.
-/

namespace DataflowTypes

structure Session where
  config : Config := {}
  memo : Option Cache := some .empty
  store : Store := .empty
  constraints : List Inequality := []
  elements : List Element := []
  collector : Collector := {}
  last : Resolution := {}

namespace Session

def start (config : Config) : Session :=
  { config, memo := if config.cacheComparisons then some .empty else none }

def addVariable (s : Session) (owner : String) (declared : Ty) : VarId × Session :=
  let (v, store) := s.store.add owner declared
  (v, { s with store })

def constrain (s : Session) (q : Inequality) : Session :=
  { s with constraints := s.constraints ++ [q] }

def addElement (s : Session) (e : Element) : Nat × Session :=
  (s.elements.length, { s with elements := s.elements ++ [e] })

def setElement (s : Session) (i : Nat) (e : Element) : Session :=
  { s with elements := s.elements.set i e }

def resolve (s : Session) (config : Config) (constraints : List Inequality) :
    Except TypeError Resolution × Session :=
  let problem : Problem := { config, store := s.store, constraints }
  let (outcome, memo) := Id.run ((problem.resolve Lattice.memoized).run s.memo)
  let s := { s with memo, collector := s.collector.record outcome.trace }
  match outcome.result with
  | .ok (resolution, store) => (.ok resolution, { s with store, last := resolution })
  | .error e => (.error e, s)

end Session

end DataflowTypes
