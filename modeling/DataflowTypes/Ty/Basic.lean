import DataflowTypes.Names
import DataflowTypes.Ty.Tag

/-!
# Types

A type is flat (a base type or a matrix) or built from component types.  Each
component has two types: the one it was declared with, which never changes, and
the resolved one, which is refined as more is learned.  An array has a declared
and a current length in the same way.

What a type denotes now is given by its resolved components and current lengths
alone: equality `==`, the textual form and the order look at nothing else.
-/

namespace DataflowTypes

inductive Ty where
  | base (b : BaseType)
  | matrix (k : MatrixKind)
  | array (declared resolved : Ty) (declaredLength length : Option Nat)
  | record (labels : NameSet) (declared resolved : labels.Member → Ty)
  | union (labels : NameSet) (declared resolved : labels.Member → Ty)
  | function (arity : Nat) (declared resolved : Fin arity → Ty) (declaredResult result : Ty)
  | object (c : ObjectClass)

namespace Ty

/-- Bottom: no information yet. -/
abbrev unknown : Ty := base .unknown

/-- Top: any value. -/
abbrev general : Ty := base .general

instance : Inhabited Ty := ⟨unknown⟩

/-! ## Construction

A new component is resolved to its declared type. -/

def arrayOf (element : Ty) (length : Option Nat) : Ty := array element element length length

def ofFields (fields : Row Ty) : Ty := record fields.labels fields.value fields.value

def ofAlternatives (alternatives : Row Ty) : Ty :=
  union alternatives.labels alternatives.value alternatives.value

def functionOf (params : List Ty) (result : Ty) : Ty :=
  function params.length params.get params.get result result

/-- Objects of the class at the end of the path; no object if there is no class. -/
def objectOf (path : List String) : Ty :=
  object (if path.isEmpty then .impossible else .named path)

/-- The type that stands at a point of the base order; for a family, a type of
that family that says as little as possible. -/
def ofNode : Node → Ty
  | .base b => base b
  | .matrix k => matrix k
  | .family .array => arrayOf unknown none
  | .family .record => ofFields .empty
  | .family .union => ofAlternatives .empty
  | .family .function => functionOf [] unknown
  | .family .object => object .unconstrained

/-! ## Equality -/

/-- Whether two types denote the same now. -/
def beq : Ty → Ty → Bool
  | base a, base b => a == b
  | matrix a, matrix b => a == b
  | array _ x _ n, array _ y _ k => n == k && x.beq y
  | record la _ x, record lb _ y | union la _ x, union lb _ y =>
      la == lb && la.members.all fun m =>
        if h : m.1 ∈ lb then (x m).beq (y ⟨m.1, h⟩) else false
  | function n _ x _ r, function k _ y _ s =>
      n == k && (List.finRange n).all (fun i =>
        if h : i.1 < k then (x i).beq (y ⟨i.1, h⟩) else false) && r.beq s
  | object a, object b => a == b
  | _, _ => false

instance : BEq Ty := ⟨beq⟩

/-! ## Classification -/

def isUnknown : Ty → Bool
  | base .unknown => true
  | _ => false

def isGeneral : Ty → Bool
  | base .general => true
  | _ => false

def isBound (t : Ty) : Bool := t.isUnknown || t.isGeneral

def family? : Ty → Option Family
  | base _ | matrix _ => none
  | array .. => some .array
  | record .. => some .record
  | union .. => some .union
  | function .. => some .function
  | object _ => some .object

def isStructured (t : Ty) : Bool := t.family?.isSome

/-- The point of the base order through which the type is ordered against types
of other families. -/
def node : Ty → Node
  | base b => .base b
  | matrix k => .matrix k
  | array .. => .family .array
  | record .. => .family .record
  | union .. => .family .union
  | function .. => .family .function
  | object _ => .family .object

/-- Whether no `unknown` occurs in the declared form, so that nothing can be refined. -/
def isConstant : Ty → Bool
  | base b => b != .unknown
  | matrix _ | object _ => true
  | array d _ _ _ => d.isConstant
  | record ls d _ | union ls d _ => ls.members.all fun m => (d m).isConstant
  | function n d _ dr _ => (List.finRange n).all (fun i => (d i).isConstant) && dr.isConstant

def isInstantiable : Ty → Bool
  | base b => b.isInstantiable
  | matrix k => k.isInstantiable
  | array _ r _ _ => r.isInstantiable
  | record ls _ r | union ls _ r => ls.members.all fun m => (r m).isInstantiable
  | function n _ r _ s => (List.finRange n).all (fun i => (r i).isInstantiable) && s.isInstantiable
  | object c => c != .impossible

def depth : Ty → Nat
  | base _ | matrix _ | object _ => 1
  | array _ r _ _ => 1 + r.depth
  | record ls _ r | union ls _ r => 1 + (ls.members.map fun m => (r m).depth).foldr max 0
  | function n _ r _ s =>
      1 + max (((List.finRange n).map fun i => (r i).depth).foldr max 0) s.depth

def element? : Ty → Option Ty
  | array _ r _ _ => some r
  | _ => none

/-! ## Depth of components -/

theorem le_foldr_max {n : Nat} {ns : List Nat} (h : n ∈ ns) : n ≤ ns.foldr max 0 := by
  induction ns with
  | nil => cases h
  | cons k ns ih =>
      rcases List.mem_cons.1 h with rfl | h
      · exact Nat.le_max_left _ _
      · exact Nat.le_trans (ih h) (Nat.le_max_right _ _)

theorem depth_element_lt (d r : Ty) (dl l : Option Nat) : r.depth < (array d r dl l).depth := by
  simp [depth]

theorem depth_field_lt {ls : NameSet} (d r : ls.Member → Ty) (m : ls.Member) :
    (r m).depth < (record ls d r).depth := by
  have := le_foldr_max (List.mem_map.2 ⟨m, NameSet.mem_members m, rfl⟩ :
    (r m).depth ∈ ls.members.map fun m => (r m).depth)
  simp only [depth]
  omega

theorem depth_alternative_lt {ls : NameSet} (d r : ls.Member → Ty) (m : ls.Member) :
    (r m).depth < (union ls d r).depth := by
  have := depth_field_lt d r m
  simpa only [depth] using this

theorem depth_param_lt {n : Nat} (d r : Fin n → Ty) (dr s : Ty) (i : Fin n) :
    (r i).depth < (function n d r dr s).depth := by
  have := le_foldr_max (List.mem_map.2 ⟨i, List.mem_finRange i, rfl⟩ :
    (r i).depth ∈ (List.finRange n).map fun i => (r i).depth)
  simp only [depth]
  omega

theorem depth_result_lt {n : Nat} (d r : Fin n → Ty) (dr s : Ty) :
    s.depth < (function n d r dr s).depth := by
  simp only [depth]
  omega

end Ty

structure Component where
  declared : Ty
  resolved : Ty

namespace Component

def new (declared : Ty) : Component := ⟨declared, declared⟩

/-- Only components whose declared type can be refined are ever changed. -/
def isSettable (c : Component) : Bool := !c.declared.isConstant

instance : BEq Component := ⟨fun a b => a.resolved == b.resolved⟩

end Component

end DataflowTypes
