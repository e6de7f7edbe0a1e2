import Mathlib.Data.List.Induction
import Mathlib.Data.List.Perm.Basic
import DataflowTypes.Proofs.Lattice.Slot

/-!
# Joins of lists

The join of a list is an upper bound of its members, the least among the regular
ones.  At every slot it is the join of the members' components, unless the list has
an array in it and joining its single members on their own leads to `general`.
-/

namespace DataflowTypes

namespace Ty

def joinAll (ts : List Ty) : Ty := Id.run (Lattice.plain.joinAll ts)

variable {ts ts' cs : List Ty} {a b c t u : Ty} {slot : Slot}

theorem joinAll_eq_foldl (ts : List Ty) : joinAll ts = ts.foldl join unknown := by
  simp only [joinAll, Lattice.joinAll]
  exact List.idRun_foldlM ..

theorem joinAll_concat (ts : List Ty) (t : Ty) :
    joinAll (ts ++ [t]) = (joinAll ts).join t := by
  simp [joinAll_eq_foldl]

theorem foldl_join_general (ts : List Ty) : ts.foldl join general = general := by
  induction ts with
  | nil => rfl
  | cons t ts ih => rw [List.foldl_cons, general_join, ih]

/-! ## Bounds -/

theorem below_joinAll (mem : t ∈ ts) : Below t (joinAll ts) := by
  induction ts using List.reverseRecOn with
  | nil => cases mem
  | append_singleton ts s ih =>
      rw [joinAll_concat]
      have bound := join_isJoin (joinAll ts) s
      rcases List.mem_append.1 mem with mem | mem
      · exact (ih mem).trans bound.left
      · rw [List.mem_singleton.1 mem]
        exact bound.right

theorem joinAll_eq_general (mem : general ∈ ts) : joinAll ts = general :=
  general_below_iff.1 (below_joinAll mem)

theorem joinAll_preserves {P : Ty → Prop} (bottom : P unknown)
    (step : ∀ a b, P a → P b → P (a.join b)) (members : ∀ t ∈ ts, P t) : P (joinAll ts) := by
  induction ts using List.reverseRecOn with
  | nil => exact bottom
  | append_singleton ts s ih =>
      rw [joinAll_concat]
      have before : P (joinAll ts) := ih fun t mem => members t (by simp [mem])
      exact step _ _ before (members s (by simp))

theorem joinAll_below (regular : c.Regular) (upper : ∀ t ∈ ts, Below t c) :
    Below (joinAll ts) c := by
  refine joinAll_preserves (P := (Below · c)) (.bottom c) ?_ upper
  intro a b below below'
  exact (join_isJoin a b).best c regular below below'

theorem isArray_joinAll (single : ∀ t ∈ ts, t.isArray = false) :
    (joinAll ts).isArray = false :=
  joinAll_preserves (P := (·.isArray = false)) rfl (fun _ _ => isArray_join) single

theorem joinAll_ne_rootless (paths : ∀ t ∈ ts, t ≠ object (.named [])) :
    joinAll ts ≠ object (.named []) :=
  joinAll_preserves (P := (· ≠ object (.named []))) (by simp) (fun _ _ => join_ne_rootless) paths

/-! ## Regular types above -/

/-- A regular type above the given one: arrays of `general` become `general`, and classes
without a path become unconstrained. -/
def regularize : Ty → Ty
  | base b => base b
  | matrix k => matrix k
  | array d r dl l => if r.regularize.isGeneral then general else array d r.regularize dl l
  | record ls d r => record ls d fun l => (r l).regularize
  | union ls d r => union ls d fun l => (r l).regularize
  | function n d r dr s => function n d (fun i => (r i).regularize) dr s.regularize
  | object (.named []) => object .unconstrained
  | object c => object c

theorem regularize_object {c : ObjectClass} (path : c ≠ .named []) :
    (object c).regularize = object c := by
  unfold regularize
  split <;> simp_all

theorem regularize_flat (flat : t.isStructured = false) : t.regularize = t := by
  cases t <;> simp_all [isStructured, family?, regularize]

theorem below_regularize (t : Ty) : Below t t.regularize := by
  induction t with
  | base => exact .refl _
  | matrix => exact .refl _
  | array _ _ _ n _ ih =>
      simp only [regularize]
      split
      · exact .top _
      · exact .array (.refl n) ih
  | record _ _ _ _ ih => exact .record (fun _ h => h) ih
  | union _ _ _ _ ih => exact .union (fun _ h => h) ih
  | function _ _ _ _ _ _ ihParams _ ihResult => exact .function ihParams ihResult
  | object c =>
      by_cases path : c = .named []
      · rw [path]
        exact .object trivial
      · rw [regularize_object path]
        exact .refl _

theorem regular_regularize (t : Ty) : t.regularize.Regular := by
  induction t with
  | base => exact ⟨by simp, by simp⟩
  | matrix => exact ⟨by simp, by simp⟩
  | array _ _ _ _ _ ih =>
      simp only [regularize]
      split
      · exact ⟨by simp, by simp⟩
      · next proper =>
          rw [isGeneral_iff] at proper
          exact ⟨⟨by simp, by simp [proper]⟩, ih⟩
  | record _ _ _ _ ih => exact ⟨⟨by simp, by simp⟩, ih⟩
  | union _ _ _ _ ih => exact ⟨⟨by simp, by simp⟩, ih⟩
  | function _ _ _ _ _ _ ihParams _ ihResult => exact ⟨⟨by simp, by simp⟩, ihParams, ihResult⟩
  | object c =>
      by_cases path : c = .named []
      · rw [path]
        exact ⟨by simp, by simp⟩
      · rw [regularize_object path]
        exact ⟨by simpa using path, by simp⟩

theorem eq_general_of_regularize (single : t.isArray = false) (h : t.regularize = general) :
    t = general := by
  cases t with
  | base => exact h
  | array => simp [isArray, family?] at single
  | object c =>
      by_cases path : c = .named []
      · rw [path] at h
        cases h
      · rwa [regularize_object path] at h
  | _ => simp [regularize] at h

theorem joinAll_below_regularize (perm : ts'.Perm ts) :
    Below (joinAll ts) (joinAll ts').regularize :=
  joinAll_below (regular_regularize _) fun _ mem =>
    (below_joinAll (perm.mem_iff.2 mem)).trans (below_regularize _)

/-! ## Lists with arrays in them -/

private theorem exists_element (proper : t ≠ general) : ∃ u, t.part? .element = some u := by
  cases array : t.isArray with
  | true =>
      obtain ⟨d, x, dl, n, rfl⟩ := isArray_iff.1 array
      exact ⟨x, rfl⟩
  | false => exact ⟨t, part?_element_iff.2 (.inr ⟨array, proper, rfl⟩)⟩

theorem isArray_join_of_array (ha : a.isArray = true) (proper : b ≠ general) :
    (a.join b).isArray = true := by
  cases joined : (a.join b).isArray with
  | true => rfl
  | false =>
      obtain ⟨d, x, dl, n, rfl⟩ := isArray_iff.1 ha
      obtain ⟨y, element⟩ := exists_element proper
      have top := (array_below_iff joined).1 (join_isJoin _ b).left
      have element' : (array d x dl n).part? .element = some x := rfl
      rcases join_part? element' element with ⟨-, single, -⟩ | ⟨u, hu, -⟩
      · exact absurd ha (by simp [single])
      · simp [top] at hu

theorem isArray_foldl_join (ha : a.isArray = true) (proper : general ∉ ts) :
    (ts.foldl join a).isArray = true := by
  induction ts generalizing a with
  | nil => exact ha
  | cons t ts ih =>
      rw [List.mem_cons, not_or] at proper
      exact ih (isArray_join_of_array ha (Ne.symm proper.1)) proper.2

theorem joinAll_filter (proper : general ∉ ts) (single : (joinAll ts).isArray = false) :
    joinAll (ts.filter fun t => !t.isArray) = joinAll ts := by
  induction ts using List.reverseRecOn with
  | nil => rfl
  | append_singleton ts s ih =>
      rw [List.mem_append, List.mem_singleton, not_or] at proper
      rw [joinAll_concat] at single ⊢
      rw [List.filter_append]
      cases hs : s.isArray with
      | true =>
          -- An array joined to anything else but `general` would give an array.
          have top : joinAll ts = general := by
            by_contra other
            have array := isArray_join_of_array hs other
            rw [isArray_eq_of_beq (join_comm s _), single] at array
            cases array
          rw [top, general_join]
          simpa [hs, top] using ih proper.1 (by rw [top]; rfl)
      | false =>
          have before : (joinAll ts).isArray = false := by
            by_contra array
            rw [Bool.not_eq_false] at array
            rw [isArray_join_of_array array (Ne.symm proper.2)] at single
            cases single
          simp only [hs, List.filter_singleton, Bool.not_false, cond_true, joinAll_concat]
          rw [ih proper.1 before]

/-! ## Slots -/

abbrev Parts (slot : Slot) : List Ty → List Ty → Prop :=
  List.Forall₂ fun t c => t.part? slot = some c

theorem exists_parts (h : (joinAll ts).part? slot = some u) : ∃ cs, Parts slot ts cs := by
  have member : ∀ t ∈ ts, ∃ c, t.part? slot = some c := fun t mem => by
    obtain ⟨c, found, -⟩ := (below_joinAll mem).part? h
    exact ⟨c, found⟩
  clear h
  induction ts with
  | nil => exact ⟨[], .nil⟩
  | cons t ts ih =>
      obtain ⟨c, found⟩ := member t (by simp)
      obtain ⟨cs, rest⟩ := ih fun t mem => member t (by simp [mem])
      exact ⟨c :: cs, .cons found rest⟩

private theorem foldl_join_part? (parts : Parts slot ts cs) (ha : a.part? slot = some b)
    (same : (b == c) = true) :
    slot = .element ∧ ts.foldl join a = general ∨
      ∃ u, (ts.foldl join a).part? slot = some u ∧ (u == cs.foldl join c) = true := by
  induction parts generalizing a b c with
  | nil => exact .inr ⟨b, ha, same⟩
  | @cons t d ts ds found _ ih =>
      rcases join_part? ha found with ⟨element, -, -, top⟩ | ⟨u, hu, joined⟩
      · refine .inl ⟨element, ?_⟩
        rw [List.foldl_cons, top, foldl_join_general]
      · exact ih hu (BEq.trans joined (join_congr same BEq.rfl))

/-- The component of the join of a list is the join of the components, unless there is no
such component. -/
theorem joinAll_part? (parts : Parts slot ts cs) :
    slot = .element ∧ joinAll ts = general ∨
      ∃ u, (joinAll ts).part? slot = some u ∧ (u == joinAll cs) = true := by
  rw [joinAll_eq_foldl, joinAll_eq_foldl]
  exact foldl_join_part? parts part?_unknown BEq.rfl

theorem part?_joinAll (parts : Parts slot ts cs) (found : (joinAll ts).part? slot = some u) :
    (u == joinAll cs) = true := by
  rcases joinAll_part? parts with ⟨-, top⟩ | ⟨v, hv, component⟩
  · simp [top] at found
  · rw [found] at hv
    rwa [Option.some.inj hv]

theorem hasPaths_of_parts (parts : Parts slot ts cs) (paths : ∀ t ∈ ts, t.HasPaths) :
    ∀ c ∈ cs, c.HasPaths := by
  induction parts with
  | nil => simp
  | cons found _ ih =>
      rw [List.forall_mem_cons] at paths ⊢
      exact ⟨paths.1.part? found, ih paths.2⟩

/-! ## Lengths -/

def Fits (n : Option Nat) : Ty → Prop
  | array _ _ _ k => Length.Below k n
  | t => t = unknown ∨ Length.acceptsScalar n = true

theorem fits_single {n : Option Nat} (single : t.isArray = false) :
    Fits n t ↔ t = unknown ∨ Length.acceptsScalar n = true := by
  cases t with
  | array => simp [isArray, family?] at single
  | _ => rfl

theorem Below.fits {d y : Ty} {dl k : Option Nat} (h : Below a (Ty.array d y dl k)) :
    Fits k a := by
  cases ha : a.isArray with
  | true =>
      obtain ⟨_, _, _, _, rfl⟩ := isArray_iff.1 ha
      exact (below_array_iff.1 h).1
  | false =>
      rw [fits_single ha]
      rcases (single_below_array_iff ha).1 h with unknown | ⟨-, accepts, -⟩
      · exact .inl unknown
      · exact .inr accepts

private theorem fits_join {n : Option Nat} (ha : Fits n a) (hb : Fits n b) : Fits n (a.join b) := by
  refine join_cases (fun _ => ha) (fun _ => hb) fun below above outcome => ?_
  have known : a ≠ unknown := fun h => below (h ▸ .bottom b)
  have known' : b ≠ unknown := fun h => above (h ▸ .bottom a)
  cases hA : a.isArray with
  | true =>
      obtain ⟨_, _, _, k, rfl⟩ := isArray_iff.1 hA
      cases hB : b.isArray with
      | true =>
          obtain ⟨_, _, _, k', rfl⟩ := isArray_iff.1 hB
          rw [join_arrays outcome]
          exact (joinLength_isLeast k k').best n trivial ha hb
      | false =>
          have scalar := ((fits_single hB).1 hb).resolve_left known'
          rw [join_array_single hB outcome]
          exact (widenedLength_isLeast k).best n trivial (Length.acceptsScalar_iff.1 scalar) ha
  | false =>
      have scalar := ((fits_single hA).1 ha).resolve_left known
      cases hB : b.isArray with
      | true =>
          obtain ⟨_, _, _, k', rfl⟩ := isArray_iff.1 hB
          rw [join_single_array hA outcome]
          exact (widenedLength_isLeast k').best n trivial (Length.acceptsScalar_iff.1 scalar) hb
      | false => exact (fits_single (isArray_join hA hB)).2 (.inr scalar)

private theorem fits_joinAll {n : Option Nat} (fit : ∀ t ∈ ts, Fits n t) : Fits n (joinAll ts) :=
  joinAll_preserves (.inl rfl) (fun _ _ => fits_join) fit

theorem length_joinAll_below {d x d' y : Ty} {dl n dl' k : Option Nat} (perm : ts'.Perm ts)
    (h : joinAll ts = array d x dl n) (h' : joinAll ts' = array d' y dl' k) :
    Length.Below n k := by
  have fit : ∀ t ∈ ts, Fits k t := by
    intro t mem
    have bound := below_joinAll (perm.mem_iff.2 mem)
    rw [h'] at bound
    exact bound.fits
  have result := fits_joinAll fit
  rwa [h] at result

theorem length_joinAll_eq {d x d' y : Ty} {dl n dl' k : Option Nat} (perm : ts'.Perm ts)
    (h : joinAll ts = array d x dl n) (h' : joinAll ts' = array d' y dl' k) : n = k :=
  (length_joinAll_below perm h h').antisymm (length_joinAll_below perm.symm h' h)

end Ty

end DataflowTypes
