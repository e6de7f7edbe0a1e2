import DataflowTypes.Proofs.Lattice.Compare
import DataflowTypes.Proofs.Lattice.Rules

/-!
# Greatest lower bounds of types

`meet` gives the greatest lower bound of any two types.  Each rule by which it is
computed is justified on its own: a greatest lower bound of structured types comes
from greatest lower bounds of their components, and no type of another family is a
lower bound that the rule would miss.
-/

namespace DataflowTypes

namespace Ty

abbrev IsMeet : Ty → Ty → Ty → Prop := BestBound Below fun _ => True

/-! ## How meets are computed -/

theorem meet_def (a b : Ty) : a.meet b = Id.run (meetWith Lattice.plain.compare a b) := rfl

theorem meet_eq_left {a b : Ty} (h : Below a b) : a.meet b = a := by
  have outcome := (compare_reflects a b).atMost.2 h
  rw [meet_def, meetWith.eq_def, plain_compare, pure_bind]
  cases o : a.compare b <;> simp [o, Comparison.isAtMost] at outcome ⊢

theorem meet_eq_right {a b : Ty} (h : Below b a) (other : ¬Below a b) : a.meet b = b := by
  have outcome : a.compare b = .higher :=
    (compare_reflects a b).unique (Comparison.reflects_higher_iff.2 ⟨other, h⟩)
  rw [meet_def, meetWith.eq_def, plain_compare, outcome]
  rfl

section Incomparable

variable {d x d' y : Ty} {dl n dl' k : Option Nat}

theorem meet_arrays
    (h : (array d x dl n).compare (array d' y dl' k) = .incomparable) :
    (array d x dl n).meet (array d' y dl' k) =
      Id.run (Rules.meetArrays n k (pure (x.meet y))) := by
  rw [meet_def, meetWith, plain_compare, h]
  rfl

theorem meet_records {ls ls' : NameSet} {d x : ls.Member → Ty} {d' y : ls'.Member → Ty}
    (h : (record ls d x).compare (record ls' d' y) = .incomparable) :
    (record ls d x).meet (record ls' d' y) =
      ofFields (Id.run (Rules.unitedRow x y fun l h => pure ((x l).meet (y ⟨l.1, h⟩)))) := by
  rw [meet_def, meetWith, plain_compare, h]
  rfl

theorem meet_unions {ls ls' : NameSet} {d x : ls.Member → Ty} {d' y : ls'.Member → Ty}
    (h : (union ls d x).compare (union ls' d' y) = .incomparable) :
    (union ls d x).meet (union ls' d' y) =
      ofAlternatives (Id.run (Rules.sharedRow fun l h => pure ((x l).meet (y ⟨l.1, h⟩)))) := by
  rw [meet_def, meetWith, plain_compare, h]
  rfl

theorem meet_functions {n k : Nat} {d x : Fin n → Ty} {d' y : Fin k → Ty} {dr r ds s : Ty}
    (h : (function n d x dr r).compare (function k d' y ds s) = .incomparable) :
    (function n d x dr r).meet (function k d' y ds s) =
      if h : n = k then
        function n (fun i => (x i).meet (y (i.cast h))) (fun i => (x i).meet (y (i.cast h)))
          (r.meet s) (r.meet s)
      else unknown := by
  rw [meet_def, meetWith, plain_compare, h]
  by_cases arities : n = k
  · simp only [pure_bind, arities, dite_true]
    exact Rules.combineFunctions_eq _ _
  · simp [arities]

theorem meet_single_array {s : Ty} (single : s.isArray = false)
    (h : s.compare (array d y dl k) = .incomparable) :
    s.meet (array d y dl k) =
      if Length.acceptsScalar k = true then s.meet y else unknown := by
  rw [meet_def, meetWith, plain_compare, h]
  · simp only [pure_bind]
    split <;> rfl
  · rintro _ _ _ _ rfl
    simp [isArray, family?] at single

theorem meet_array_single {s : Ty} (single : s.isArray = false)
    (h : (array d x dl n).compare s = .incomparable) :
    (array d x dl n).meet s =
      if Length.acceptsScalar n = true then s.meet x else unknown := by
  rw [meet_def, meetWith, plain_compare, h]
  · simp only [pure_bind]
    split <;> rfl
  · rintro _ _ _ _ rfl
    simp [isArray, family?] at single

theorem meet_nodes {a b : Ty} (h : a.compare b = .incomparable) (single : a.isArray = false)
    (single' : b.isArray = false) (families : a.family? = b.family? → a.family? = none) :
    a.meet b = ofNode (BaseOrder.meet BaseOrder.order a.node b.node) := by
  rw [meet_def, meetWith.eq_def, plain_compare, h]
  cases a <;> cases b <;> simp_all [isArray, family?]

theorem meet_objects {c c' : ObjectClass}
    (h : (object c).compare (object c') = .incomparable) :
    (object c).meet (object c') = object (c.meet c') := by
  rw [meet_def, meetWith, plain_compare, h]
  rfl

end Incomparable

/-! ## The rules are exact -/

theorem isMeet_unknown {a b : Ty} (h : ∀ c, Below c a → Below c b → c = unknown) :
    IsMeet unknown a b :=
  ⟨.bottom a, .bottom b, fun c _ ca cb => by rw [h c ca cb]; exact .bottom _⟩

section Arrays

variable {d x d' y e s : Ty} {dl n dl' k l : Option Nat}

theorem isMeet_arrayOf (lengths : BestBound Length.Below (fun _ => True) l n k)
    (elements : IsMeet e x y) :
    IsMeet (arrayOf e l) (array d x dl n) (array d' y dl' k) where
  left := below_array_iff.2 ⟨lengths.left, elements.left⟩
  right := below_array_iff.2 ⟨lengths.right, elements.right⟩
  best c _ ca cb := by
    cases hc : c.isArray with
    | true =>
        obtain ⟨_, z, _, m, rfl⟩ := isArray_iff.1 hc
        rw [below_array_iff] at ca cb
        exact .array (lengths.best m trivial ca.1 cb.1) (elements.best z trivial ca.2 cb.2)
    | false =>
        rw [single_below_array_iff hc] at ca cb
        rcases ca with rfl | ⟨proper, accepts, cx⟩
        · exact .bottom _
        rcases cb with rfl | ⟨-, accepts', cy⟩
        · exact .bottom _
        rw [Length.acceptsScalar_iff] at accepts accepts'
        exact .widen hc proper
          (Length.acceptsScalar_iff.2 (lengths.best _ trivial accepts accepts'))
          (elements.best c trivial cx cy)

theorem isMeet_arrays (elements : IsMeet e x y) :
    IsMeet (Id.run (Rules.meetArrays n k (pure e))) (array d x dl n) (array d' y dl' k) := by
  rcases n with _ | n
  · exact isMeet_arrayOf (.symm (.of_related (.refl k) (.inl rfl))) elements
  rcases k with _ | k
  · exact isMeet_arrayOf (.of_related (.refl _) (.inl rfl)) elements
  by_cases same : n = k
  · subst same
    simp only [Rules.meetArrays, if_true]
    exact isMeet_arrayOf (.of_related (.refl _) (.refl _)) elements
  · have none : ∀ m, Length.Below m (some n) → ¬Length.Below m (some k) := by
      simp only [Length.Below, reduceCtorEq, false_or]
      rintro _ rfl other
      exact same (Option.some.inj other)
    simp only [Rules.meetArrays, if_neg same]
    apply isMeet_unknown
    intro c ca cb
    cases hc : c.isArray with
    | true =>
        obtain ⟨_, _, _, m, rfl⟩ := isArray_iff.1 hc
        rw [below_array_iff] at ca cb
        exact absurd cb.1 (none m ca.1)
    | false =>
        rw [single_below_array_iff hc] at ca cb
        rcases ca with unknown | ⟨-, accepts, -⟩
        · exact unknown
        rcases cb with unknown | ⟨-, accepts', -⟩
        · exact unknown
        rw [Length.acceptsScalar_iff] at accepts accepts'
        exact absurd accepts' (none _ accepts)

theorem isMeet_single_array (single : s.isArray = false) (proper : s ≠ general)
    (accepts : Length.acceptsScalar k = true) (element : IsMeet e s y) :
    IsMeet e s (array d y dl k) where
  left := element.left
  right := by
    obtain ⟨hs, hp⟩ := element.left.single single proper
    exact .widen hs hp accepts element.right
  best c _ cs ca := by
    rcases (single_below_array_iff (cs.single single proper).1).1 ca with rfl | ⟨-, -, cy⟩
    · exact .bottom _
    · exact element.best c trivial cs cy

theorem isMeet_single_array_unknown (single : s.isArray = false) (proper : s ≠ general)
    (accepts : ¬Length.acceptsScalar k = true) : IsMeet unknown s (array d y dl k) := by
  apply isMeet_unknown
  intro c cs ca
  rcases (single_below_array_iff (cs.single single proper).1).1 ca with unknown | ⟨-, h, -⟩
  · exact unknown
  · exact absurd h accepts

end Arrays

section Rows

variable {ls ls' : NameSet} {d x : ls.Member → Ty} {d' y : ls'.Member → Ty}
  {f : Ty → Ty → Ty} {row : Row Ty}

theorem isMeet_records (hrow : ∀ l, row.get? l = Option.merge f (ls.find? x l) (ls'.find? y l))
    (fields : ∀ l l', IsMeet (f (x l) (y l')) (x l) (y l')) :
    IsMeet (ofFields row) (record ls d x) (record ls' d' y) := by
  have bound := covers_merge (T := fun _ => True) Below.refl (find?_components fields)
  rw [← show row.labels.find? row.value = _ from funext hrow] at bound
  refine ⟨below_record_iff_covers.2 bound.left, below_record_iff_covers.2 bound.right,
    fun c _ ca cb => ?_⟩
  rcases ca.eq_unknown_or_family?_eq rfl rfl with rfl | family
  · exact .bottom _
  · cases c with
    | record =>
        rw [below_record_iff_covers] at ca cb
        exact below_record_iff_covers.2 (bound.best _ (fun _ _ _ => trivial) ca cb)
    | _ => simp [family?] at family

theorem isMeet_unions
    (hrow : ∀ l, row.get? l = (ls.find? x l).bind fun s => (ls'.find? y l).map fun t => f s t)
    (alternatives : ∀ l l', IsMeet (f (x l) (y l')) (x l) (y l')) :
    IsMeet (ofAlternatives row) (union ls d x) (union ls' d' y) := by
  have bound := covers_common (T := fun _ => True) (find?_components alternatives)
  rw [← show row.labels.find? row.value = _ from funext hrow] at bound
  refine ⟨below_union_iff_covers.2 bound.left, below_union_iff_covers.2 bound.right,
    fun c _ ca cb => ?_⟩
  rcases ca.eq_unknown_or_family?_eq rfl rfl with rfl | family
  · exact .bottom _
  · cases c with
    | union =>
        rw [below_union_iff_covers] at ca cb
        exact below_union_iff_covers.2 (bound.best _ (fun _ _ _ => trivial) ca cb)
    | _ => simp [family?] at family

end Rows

theorem isMeet_functions {n : Nat} {d x d' y z : Fin n → Ty} {dr r ds s t : Ty}
    (params : ∀ i, IsMeet (z i) (x i) (y i)) (result : IsMeet t r s) :
    IsMeet (function n z z t t) (function n d x dr r) (function n d' y ds s) where
  left := .function (fun i => (params i).left) result.left
  right := .function (fun i => (params i).right) result.right
  best c _ ca cb := by
    rcases ca.eq_unknown_or_family?_eq rfl rfl with rfl | family
    · exact .bottom _
    · cases c with
      | function =>
          obtain ⟨rfl, lower, lowerResult⟩ := below_function_iff.1 ca
          obtain ⟨_, lower', lowerResult'⟩ := below_function_iff.1 cb
          exact .function (fun i => (params i).best _ trivial (lower i) (lower' i))
            (result.best _ trivial lowerResult lowerResult')
      | _ => simp [family?] at family

theorem isMeet_functions_unknown {n k : Nat} {d x : Fin n → Ty} {d' y : Fin k → Ty}
    {dr r ds s : Ty} (arities : n ≠ k) :
    IsMeet unknown (function n d x dr r) (function k d' y ds s) := by
  apply isMeet_unknown
  intro c ca cb
  rcases ca.eq_unknown_or_family?_eq rfl rfl with unknown | family
  · exact unknown
  · cases c with
    | function =>
        obtain ⟨rfl, -⟩ := below_function_iff.1 ca
        obtain ⟨same, -⟩ := below_function_iff.1 cb
        exact absurd same arities
    | _ => simp [family?] at family

theorem isMeet_objects {c c' : ObjectClass} (notBelow : ¬c.Below c') (notAbove : ¬c'.Below c) :
    IsMeet (object (c.meet c')) (object c) (object c') := by
  have outcome : c.compare c' = .incomparable :=
    (ObjectClass.compare_reflects c c').unique
      (Comparison.reflects_incomparable_iff.2 ⟨notBelow, notAbove⟩)
  simp only [ObjectClass.meet, outcome]
  refine ⟨.object trivial, .object trivial, fun e _ ea eb => ?_⟩
  rcases ea.eq_unknown_or_family?_eq rfl rfl with rfl | family
  · exact .bottom _
  · cases e with
    | object e =>
        rw [below_object_iff] at ea eb ⊢
        -- Two ancestors of one class lie on one path, so only the impossible class is left.
        cases e with
        | impossible => trivial
        | unconstrained => cases c <;> cases c' <;> simp_all [ObjectClass.Below]
        | named r =>
            cases c <;> cases c' <;> simp_all [ObjectClass.Below]
            rcases List.prefix_or_prefix_of_prefix ea eb with h | h
            · exact notAbove h
            · exact notBelow h
    | _ => simp [family?] at family

private theorem isMeet_nodes {a b : Ty} (notBelow : ¬Below a b) (notAbove : ¬Below b a)
    (single : a.isArray = false) (single' : b.isArray = false)
    (families : a.family? = b.family? → a.family? = none) :
    IsMeet (ofNode (BaseOrder.meet BaseOrder.order a.node b.node)) a b := by
  have proper : a ≠ general := fun h => notAbove (h ▸ .top b)
  have proper' : b ≠ general := fun h => notBelow (h ▸ .top a)
  obtain ⟨lower, lower', greatest⟩ := BaseOrder.meet_isGreatest a.node b.node
  generalize BaseOrder.meet BaseOrder.order a.node b.node = p at lower lower' greatest
  have flat : ∀ f, p ≠ .family f := by
    rintro f rfl
    rcases BaseOrder.eq_of_family_le lower with ha | ha
    · rcases BaseOrder.eq_of_family_le lower' with hb | hb
      · rw [node_eq_family_iff.1 ha, node_eq_family_iff.1 hb] at families
        cases families rfl
      · exact proper' (eq_of_node_eq_base hb)
    · exact proper (eq_of_node_eq_base ha)
  obtain ⟨unstructured, node⟩ := ofNode_flat flat
  have below_iff {c t : Ty} (hc : c.isStructured = false) (ht : t.isArray = false) :
      Below c t ↔ BaseOrder.le c.node t.node = true :=
    below_iff_node_le (fun _ => by simpa [isStructured] using hc) (by simp [ht])
  refine ⟨(below_iff unstructured single).2 (by rw [node]; exact lower),
    (below_iff unstructured single').2 (by rw [node]; exact lower'), fun c _ ca cb => ?_⟩
  have hc : c.isStructured = false := by
    cases structured : c.isStructured with
    | false => rfl
    | true =>
        have inA := ca.family?_eq structured single proper
        have inB := cb.family?_eq structured single' proper'
        rw [isStructured, inA, families (inA.symm.trans inB)] at structured
        cases structured
  rw [below_iff hc single] at ca
  rw [below_iff hc single'] at cb
  rw [below_iff hc (isArray_eq_false unstructured), node]
  exact greatest c.node ca cb

/-! ## The greatest lower bound -/

theorem isMeet_of_incomparable {a b : Ty}
    (h : ¬Below a b → ¬Below b a → a.compare b = .incomparable → IsMeet (a.meet b) a b) :
    IsMeet (a.meet b) a b := by
  by_cases below : Below a b
  · rw [meet_eq_left below]
    exact .of_related (.refl a) below
  by_cases above : Below b a
  · rw [meet_eq_right above below]
    exact .symm (.of_related (.refl b) above)
  exact h below above (compare_eq_incomparable below above)

theorem meet_isMeet (a b : Ty) : IsMeet (a.meet b) a b := by
  induction a, b using pair_induction with
  | arrays d x dl n d' y dl' k ih =>
      apply isMeet_of_incomparable
      intro _ _ outcome
      rw [meet_arrays outcome]
      exact isMeet_arrays ih
  | arraySingle d x dl n s single ih =>
      apply isMeet_of_incomparable
      intro below _ outcome
      have proper : s ≠ general := fun h => below (h ▸ .top _)
      rw [meet_array_single single outcome]
      split
      · next accepts => exact (isMeet_single_array single proper accepts ih).symm
      · next accepts => exact (isMeet_single_array_unknown single proper accepts).symm
  | singleArray s d y dl k single ih =>
      apply isMeet_of_incomparable
      intro _ above outcome
      have proper : s ≠ general := fun h => above (h ▸ .top _)
      rw [meet_single_array single outcome]
      split
      · next accepts => exact isMeet_single_array single proper accepts ih
      · next accepts => exact isMeet_single_array_unknown single proper accepts
  | records ls d x ls' d' y ih =>
      apply isMeet_of_incomparable
      intro _ _ outcome
      rw [meet_records outcome]
      exact isMeet_records (Rules.get?_unitedRow x y meet) ih
  | unions ls d x ls' d' y ih =>
      apply isMeet_of_incomparable
      intro _ _ outcome
      rw [meet_unions outcome]
      exact isMeet_unions (Rules.get?_sharedRow x y meet) ih
  | functions n d x dr r k d' y ds s ihParams ihResult =>
      apply isMeet_of_incomparable
      intro _ _ outcome
      rw [meet_functions outcome]
      by_cases arities : n = k
      · subst arities
        simp only [dite_true]
        exact isMeet_functions (fun i => ihParams i i) ihResult
      · simp only [dif_neg arities]
        exact isMeet_functions_unknown arities
  | objects c c' =>
      apply isMeet_of_incomparable
      intro below above outcome
      rw [meet_objects outcome]
      rw [below_object_iff] at below above
      exact isMeet_objects below above
  | nodes a b single single' families =>
      apply isMeet_of_incomparable
      intro below above outcome
      rw [meet_nodes outcome single single' families]
      exact isMeet_nodes below above single single' families

/-- The meet of two types is their greatest lower bound in the order of comparison. -/
theorem meet_isGreatestLowerBound (a b c : Ty) :
    a.meet b ≤ a ∧ a.meet b ≤ b ∧ (c ≤ a → c ≤ b → c ≤ a.meet b) := by
  simp only [le_iff_below]
  have bound := meet_isMeet a b
  exact ⟨bound.left, bound.right, bound.best c trivial⟩

theorem meet_isGreatestLowerBound_single :
    base .int ≤ (arrayOf (base .int) none).meet (arrayOf (base .int) (some 1)) :=
  (meet_isGreatestLowerBound _ _ (base .int)).2.2
    (le_iff_below.2 (.widen rfl (by simp) rfl (.refl _)))
    (le_iff_below.2 (.widen rfl (by simp) rfl (.refl _)))

end Ty

end DataflowTypes
