import DataflowTypes.Error

/-!
# Type variables
-/

namespace DataflowTypes

inductive VarState where
  | unbound
  | tentative
  /-- The run is over and all constraints on the variable hold. -/
  | resolved
  | conflicted
deriving DecidableEq, Repr

namespace VarState

def all : List VarState := [unbound, tentative, resolved, conflicted]

def name : VarState → String
  | unbound => "unbound"
  | tentative => "tentative"
  | resolved => "resolved"
  | conflicted => "conflicted"

def tag : VarState → String
  | unbound => "Unbound"
  | tentative => "Tentative"
  | resolved => "Resolved"
  | conflicted => "Conflicted"

def ofTag? (tag : String) : Option VarState := all.find? (·.tag == tag)

end VarState

inductive Acceptance where
  | instantiable
  | allowAbstract
deriving DecidableEq, Repr

namespace Acceptance

def accepts : Acceptance → Ty → Bool
  | instantiable, t => t.isInstantiable
  | allowAbstract, _ => true

def tag : Acceptance → String
  | instantiable => "Instantiable"
  | allowAbstract => "AllowAbstract"

end Acceptance

structure Variable where
  owner : String
  declared : Ty
  value : Ty
  state : VarState := .unbound
  acceptance : Acceptance := .instantiable

namespace Variable

/-- Only variables whose declared type can be refined are moved by the solver. -/
def isSettable (v : Variable) : Bool := !v.declared.isConstant

def isAcceptable (v : Variable) : Bool := v.acceptance.accepts v.value

end Variable

structure Store where
  vars : List Variable := []

namespace Store

def empty : Store := {}

def size (s : Store) : Nat := s.vars.length

def contains (s : Store) (v : VarId) : Bool := v.index < s.vars.length

def get? (s : Store) (v : VarId) : Option Variable := s.vars[v.index]?

def get (s : Store) (v : VarId) : Except TypeError Variable :=
  match s.get? v with
  | some x => .ok x
  | none => .error (.unknownVariable v)

def add (s : Store) (owner : String) (declared : Ty) : VarId × Store :=
  (⟨s.vars.length⟩, ⟨s.vars ++ [{ owner, declared, value := declared }]⟩)

def entries (s : Store) : List (VarId × Variable) :=
  s.vars.zipIdx.map fun (x, i) => (⟨i⟩, x)

def isSettable (s : Store) (v : VarId) : Bool := (s.get? v).any (·.isSettable)

/-- The owner of a variable, or the variable itself if it has none. -/
def ownerText (s : Store) (v : VarId) : String :=
  match s.get? v with
  | some x => x.owner
  | none => v.text

def modify (s : Store) (v : VarId) (f : Variable → Variable) : Except TypeError Store := do
  let x ← s.get v
  return ⟨s.vars.set v.index (f x)⟩

/-- Declares a variable anew.  A constant type pins it. -/
def setDeclared (s : Store) (v : VarId) (declared : Ty) : Except TypeError Store :=
  s.modify v fun x => { x with declared, value := declared, state := .unbound }

def setAcceptance (s : Store) (v : VarId) (acceptance : Acceptance) : Except TypeError Store :=
  s.modify v fun x => { x with acceptance }

end Store

end DataflowTypes
