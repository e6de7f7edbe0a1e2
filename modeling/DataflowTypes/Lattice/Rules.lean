import DataflowTypes.Order.Comparison
import DataflowTypes.Ty.Basic

/-!
# The rules of the families

How two types of one family are compared and bounded, given how their components
are.  Components are compared in a monad, in the order in which a reader of the
rule would do it, and only as far as the outcome depends on them.
-/

namespace DataflowTypes

variable {m : Type → Type} [Monad m]

/-! ## Arrays -/

namespace Length

/-- A known length is below an unknown one; different known lengths are incomparable. -/
def compare : Option Nat → Option Nat → Comparison
  | some n, some k => if n = k then .same else .incomparable
  | some _, none => .lower
  | none, some _ => .higher
  | none, none => .same

def acceptsScalar (length : Option Nat) : Bool := length == none || length == some 1

end Length

namespace Rules

def compareArrays (n k : Option Nat) (elements : m Comparison) : m Comparison :=
  match Length.compare n k with
  | .incomparable => pure .incomparable
  | lengths => return lengths.combine (← elements)

/-- No array is below two of different known lengths. -/
def meetArrays (n k : Option Nat) (elements : m Ty) : m Ty :=
  match n, k with
  | some n, some k =>
      if n = k then return .arrayOf (← elements) (some n) else pure .unknown
  | some n, none => return .arrayOf (← elements) (some n)
  | none, k => return .arrayOf (← elements) k

def joinArrays (n k : Option Nat) (elements : m Ty) : m Ty :=
  return .arrayOf (← elements) (if n = k then n else none)

/-! ## Records and unions -/

def compareLabels (a b : NameSet) : Comparison := .ofBounds (b.subset a) (a.subset b)

/-- Adds the comparisons of shared components to that of the labels, in the order of
the labels, until the outcome cannot change any more. -/
def compareShared {a b : NameSet} (compare : (x : a.Member) → x.1 ∈ b → m Comparison) :
    Comparison → List a.Member → m Comparison
  | outcome, [] => pure outcome
  | .incomparable, _ :: _ => pure .incomparable
  | outcome, x :: xs => do
      if h : x.1 ∈ b then
        compareShared compare (outcome.combine (← compare x h)) xs
      else
        compareShared compare outcome xs

/-- A record with more fields is lower, if shared fields agree with that. -/
def compareRecords {a b : NameSet} (compare : (x : a.Member) → x.1 ∈ b → m Comparison) :
    m Comparison :=
  compareShared compare (compareLabels a b) a.members

/-- A union with fewer alternatives is lower, if shared alternatives agree with that. -/
def compareUnions {a b : NameSet} (compare : (x : a.Member) → x.1 ∈ b → m Comparison) :
    m Comparison :=
  compareShared compare (compareLabels a b).reverse a.members

def combineShared {a b : NameSet} (combine : (x : a.Member) → x.1 ∈ b → m Ty) :
    List a.Member → m (List (String × Ty))
  | [] => pure []
  | x :: xs => do
      if h : x.1 ∈ b then
        let t ← combine x h
        return (x.1, t) :: (← combineShared combine xs)
      else
        combineShared combine xs

def sharedRow {a b : NameSet} (combine : (x : a.Member) → x.1 ∈ b → m Ty) : m (Row Ty) :=
  return .ofList (← combineShared combine a.members)

def unitedRow {a b : NameSet} (left : a.Member → Ty) (right : b.Member → Ty)
    (combine : (x : a.Member) → x.1 ∈ b → m Ty) : m (Row Ty) := do
  let shared ← combineShared combine a.members
  let listed (s : NameSet) (f : s.Member → Ty) : List (String × Ty) :=
    s.members.map fun x => (x.1, f x)
  return .ofList (listed b right ++ listed a left ++ shared)

/-! ## Functions -/

/-- Compares components in order until the outcome cannot change any more. -/
def compareInOrder {ι : Type} (compare : ι → m Comparison) :
    Comparison → List ι → m Comparison
  | outcome, [] => pure outcome
  | .incomparable, _ :: _ => pure .incomparable
  | outcome, i :: is => do compareInOrder compare (outcome.combine (← compare i)) is

def compareFunctions {n : Nat} (params : Fin n → m Comparison) (result : m Comparison) :
    m Comparison := do
  match ← compareInOrder params .same (List.finRange n) with
  | .incomparable => pure .incomparable
  | outcome => return outcome.combine (← result)

def combineFunctions {n : Nat} (params : Fin n → m Ty) (result : m Ty) : m Ty := do
  let types ← (List.finRange n).mapM params
  return .functionOf types (← result)

end Rules

/-! ## Objects -/

namespace ObjectClass

/-- A class is below its ancestors. -/
def compare (a b : ObjectClass) : Comparison :=
  if a = b then .same
  else match a, b with
    | impossible, _ | _, unconstrained => .lower
    | _, impossible | unconstrained, _ => .higher
    | named p, named q =>
        if q.isPrefixOf p then .lower else if p.isPrefixOf q then .higher else .incomparable

def commonPath : List String → List String → List String
  | x :: xs, y :: ys => if x = y then x :: commonPath xs ys else []
  | _, _ => []

def meet (a b : ObjectClass) : ObjectClass :=
  match a.compare b with
  | .lower | .same => a
  | .higher => b
  | .incomparable => impossible

def join (a b : ObjectClass) : ObjectClass :=
  match a, b with
  | named p, named q =>
      match commonPath p q with
      | [] => unconstrained
      | path => named path
  | a, b =>
      match a.compare b with
      | .higher | .same => a
      | _ => b

end ObjectClass

end DataflowTypes
