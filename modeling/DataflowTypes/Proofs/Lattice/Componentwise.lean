import DataflowTypes.Proofs.Lattice.Join
import DataflowTypes.Proofs.Lattice.Meet

/-!
# What bounds keep

A bound of two types is one of them, a type of the base order, or a new type whose
components are components of the two or bounds of such.  So what new types take from
their components, and components from the types they are resolved in, is kept by meets
and joins.
-/

namespace DataflowTypes

/-- The condition passes from a type to its resolved components, and from components to
every new type of them. -/
structure Componentwise (P : Ty → Prop) : Prop where
  ofNode : ∀ p, P (.ofNode p)
  object : ∀ c, P (.object c)
  arrayOf : ∀ {t} n, P t → P (.arrayOf t n)
  ofFields : ∀ {row}, (∀ l, P (row.value l)) → P (.ofFields row)
  ofAlternatives : ∀ {row}, (∀ l, P (row.value l)) → P (.ofAlternatives row)
  functionOf : ∀ {n} {params : Fin n → Ty} {result}, (∀ i, P (params i)) → P result →
    P (.function n params params result result)
  element : ∀ {d r dl n}, P (.array d r dl n) → P r
  field : ∀ {ls d r}, P (.record ls d r) → ∀ l, P (r l)
  alternative : ∀ {ls d r}, P (.union ls d r) → ∀ l, P (r l)
  param : ∀ {n d r dr s}, P (.function n d r dr s) → ∀ i, P (r i)
  result : ∀ {n d r dr s}, P (.function n d r dr s) → P s

namespace Componentwise

open Ty

variable {P : Ty → Prop}

/-! ## Rows -/

section Rows

variable {ls ls' : NameSet} {x : ls.Member → Ty} {y : ls'.Member → Ty} {f : Ty → Ty → Ty}

theorem sharedRow (combined : ∀ l l', P (f (x l) (y l')))
    (m : (Id.run (Rules.sharedRow fun l h => pure (f (x l) (y ⟨l.1, h⟩)))).labels.Member) :
    P ((Id.run (Rules.sharedRow fun l h => pure (f (x l) (y ⟨l.1, h⟩)))).value m) := by
  have found := Rules.get?_sharedRow x y f m.1
  rw [Row.get?, NameSet.find?_member] at found
  obtain ⟨s, hs, found⟩ := Option.bind_eq_some_iff.1 found.symm
  obtain ⟨t, ht, value⟩ := Option.map_eq_some_iff.1 found
  obtain ⟨_, rfl⟩ := NameSet.find?_eq_some_iff.1 hs
  obtain ⟨_, rfl⟩ := NameSet.find?_eq_some_iff.1 ht
  exact value ▸ combined _ _

theorem unitedRow (left : ∀ l, P (x l)) (right : ∀ l, P (y l))
    (combined : ∀ l l', P (f (x l) (y l')))
    (m : (Id.run (Rules.unitedRow x y fun l h => pure (f (x l) (y ⟨l.1, h⟩)))).labels.Member) :
    P ((Id.run (Rules.unitedRow x y fun l h => pure (f (x l) (y ⟨l.1, h⟩)))).value m) := by
  have found := Rules.get?_unitedRow x y f m.1
  rw [Row.get?, NameSet.find?_member] at found
  by_cases inLeft : m.1 ∈ ls <;> by_cases inRight : m.1 ∈ ls' <;>
    simp only [NameSet.find?, inLeft, inRight, dite_true, dite_false, Option.merge,
      Option.some.injEq, reduceCtorEq] at found
  · exact found ▸ combined _ _
  · exact found ▸ left _
  · exact found ▸ right _

end Rows

/-! ## Bounds -/

theorem meet_of_incomparable {a b : Ty} (ha : P a) (hb : P b)
    (rule : a.compare b = .incomparable → P (a.meet b)) : P (a.meet b) := by
  by_cases below : Below a b
  · rw [meet_eq_left below]
    exact ha
  by_cases above : Below b a
  · rw [meet_eq_right above below]
    exact hb
  exact rule (compare_eq_incomparable below above)

theorem join_of_incomparable {a b : Ty} (ha : P a) (hb : P b)
    (rule : a.compare b = .incomparable → P (a.join b)) : P (a.join b) :=
  join_cases (fun _ => ha) (fun _ => hb) fun _ _ outcome => rule outcome

theorem meet (h : Componentwise P) {a b : Ty} (ha : P a) (hb : P b) : P (a.meet b) := by
  induction a, b using pair_induction with
  | arrays d x dl n d' y dl' k ih =>
      refine meet_of_incomparable ha hb fun outcome => ?_
      have element := ih (h.element ha) (h.element hb)
      rw [meet_arrays outcome, Rules.meetArrays.eq_def]
      split
      · split
        · exact h.arrayOf _ element
        · exact h.ofNode (.base .unknown)
      · exact h.arrayOf _ element
      · exact h.arrayOf _ element
  | arraySingle d x dl n s single ih =>
      refine meet_of_incomparable ha hb fun outcome => ?_
      rw [meet_array_single single outcome]
      split
      · exact ih hb (h.element ha)
      · exact h.ofNode (.base .unknown)
  | singleArray s d y dl k single ih =>
      refine meet_of_incomparable ha hb fun outcome => ?_
      rw [meet_single_array single outcome]
      split
      · exact ih ha (h.element hb)
      · exact h.ofNode (.base .unknown)
  | records ls d x ls' d' y ih =>
      refine meet_of_incomparable ha hb fun outcome => ?_
      rw [meet_records outcome]
      exact h.ofFields (unitedRow (h.field ha) (h.field hb) fun l l' =>
        ih l l' (h.field ha l) (h.field hb l'))
  | unions ls d x ls' d' y ih =>
      refine meet_of_incomparable ha hb fun outcome => ?_
      rw [meet_unions outcome]
      exact h.ofAlternatives (sharedRow fun l l' =>
        ih l l' (h.alternative ha l) (h.alternative hb l'))
  | functions n d x dr r k d' y ds s ihParams ihResult =>
      refine meet_of_incomparable ha hb fun outcome => ?_
      rw [meet_functions outcome]
      split
      · exact h.functionOf (fun i => ihParams i _ (h.param ha i) (h.param hb _))
          (ihResult (h.result ha) (h.result hb))
      · exact h.ofNode (.base .unknown)
  | objects c c' =>
      refine meet_of_incomparable ha hb fun outcome => ?_
      rw [meet_objects outcome]
      exact h.object _
  | nodes a b single single' families =>
      refine meet_of_incomparable ha hb fun outcome => ?_
      rw [meet_nodes outcome single single' families]
      exact h.ofNode _

theorem join (h : Componentwise P) {a b : Ty} (ha : P a) (hb : P b) : P (a.join b) := by
  induction a, b using pair_induction with
  | arrays d x dl n d' y dl' k ih =>
      refine join_of_incomparable ha hb fun outcome => ?_
      rw [join_arrays outcome]
      exact h.arrayOf _ (ih (h.element ha) (h.element hb))
  | arraySingle d x dl n s single ih =>
      refine join_of_incomparable ha hb fun outcome => ?_
      rw [join_array_single single outcome]
      exact h.arrayOf _ (ih hb (h.element ha))
  | singleArray s d y dl k single ih =>
      refine join_of_incomparable ha hb fun outcome => ?_
      rw [join_single_array single outcome]
      exact h.arrayOf _ (ih ha (h.element hb))
  | records ls d x ls' d' y ih =>
      refine join_of_incomparable ha hb fun outcome => ?_
      rw [join_records outcome]
      exact h.ofFields (sharedRow fun l l' => ih l l' (h.field ha l) (h.field hb l'))
  | unions ls d x ls' d' y ih =>
      refine join_of_incomparable ha hb fun outcome => ?_
      rw [join_unions outcome]
      exact h.ofAlternatives (unitedRow (h.alternative ha) (h.alternative hb) fun l l' =>
        ih l l' (h.alternative ha l) (h.alternative hb l'))
  | functions n d x dr r k d' y ds s ihParams ihResult =>
      refine join_of_incomparable ha hb fun outcome => ?_
      rw [join_functions outcome]
      split
      · exact h.functionOf (fun i => ihParams i _ (h.param ha i) (h.param hb _))
          (ihResult (h.result ha) (h.result hb))
      · exact h.ofNode (.base .general)
  | objects c c' =>
      refine join_of_incomparable ha hb fun outcome => ?_
      rw [join_objects outcome]
      exact h.object _
  | nodes a b single single' families =>
      refine join_of_incomparable ha hb fun outcome => ?_
      rw [join_nodes outcome single single' families]
      exact h.ofNode _

end Componentwise

end DataflowTypes
