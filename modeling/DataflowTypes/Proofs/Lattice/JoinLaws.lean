import DataflowTypes.Proofs.Lattice.Join

/-!
# Laws of joins

Up to `==`, the join of two types depends neither on their order nor on anything
but what they denote now.  Leastness alone does not give this, since joins are the
least upper bounds among regular types only and need not be regular themselves, so
both laws are proved rule by rule.
-/

namespace DataflowTypes

namespace Ty

theorem join_beq_left {a b : Ty} (h : Below b a) : (a.join b == a) = true := by
  refine join_cases (P := fun j => (j == a) = true) (fun _ => BEq.rfl) (fun below => ?_)
    fun _ above => absurd h above
  exact h.beq below

theorem unknown_join (t : Ty) : unknown.join t = t := join_eq_right (.bottom t)

theorem join_unknown (t : Ty) : t.join unknown = t := by
  by_cases known : t = unknown
  · rw [known]
    exact join_eq_right (.bottom _)
  · exact join_eq_left (.bottom t) fun h => known (below_unknown_iff.1 h)

theorem general_join (t : Ty) : general.join t = general :=
  general_below_iff.1 (join_isJoin general t).left

theorem join_ne_rootless {a b : Ty} (ha : a ≠ object (.named [])) (hb : b ≠ object (.named [])) :
    a.join b ≠ object (.named []) := by
  refine join_cases (P := (· ≠ object (.named []))) (fun _ => ha) (fun _ => hb)
    fun below above outcome rootless => ?_
  have bound := join_isJoin a b
  rw [rootless] at bound
  have family := (bound.left.eq_unknown_or_family?_eq rfl rfl).resolve_left fun h =>
    below (h ▸ .bottom b)
  have family' := (bound.right.eq_unknown_or_family?_eq rfl rfl).resolve_left fun h =>
    above (h ▸ .bottom a)
  cases a with
  | object c =>
      cases b with
      | object c' =>
          rw [below_object_iff] at below above
          rw [join_objects outcome] at rootless
          exact ObjectClass.join_ne_rootless below above (Ty.object.inj rootless)
      | _ => simp [family?] at family'
  | _ => simp [family?] at family

/-! ## Rows -/

theorem option_beq_symm {o o' : Option Ty} (h : (o == o') = true) : (o' == o) = true := by
  cases o <;> cases o' <;> simp at h ⊢
  exact BEq.symm h

theorem covers_of_beq {R : Ty → Ty → Prop} {F G : String → Option Ty}
    (related : ∀ s t, (s == t) = true → R s t) (h : ∀ l, (F l == G l) = true) :
    Covers R F G := by
  intro l t ht
  have same := h l
  rw [ht] at same
  cases hs : F l with
  | none => simp [hs] at same
  | some s => exact ⟨s, rfl, related s t (by simpa [hs] using same)⟩

theorem ofFields_beq {row row' : Row Ty} (h : ∀ l, (row.get? l == row'.get? l) = true) :
    (ofFields row == ofFields row') = true := by
  have below : Covers Below row.get? row'.get? :=
    covers_of_beq (fun _ _ same => (below_of_beq same).1) h
  have above : Covers Below row'.get? row.get? :=
    covers_of_beq (fun _ _ same => (below_of_beq same).1) fun l => option_beq_symm (h l)
  exact beq_iff_below.2 ⟨below_record_iff_covers.2 below, below_record_iff_covers.2 above⟩

theorem ofAlternatives_beq {row row' : Row Ty} (h : ∀ l, (row.get? l == row'.get? l) = true) :
    (ofAlternatives row == ofAlternatives row') = true := by
  have below : Covers (flip Below) row'.get? row.get? :=
    covers_of_beq (fun _ _ same => (below_of_beq same).2) fun l => option_beq_symm (h l)
  have above : Covers (flip Below) row.get? row'.get? :=
    covers_of_beq (fun _ _ same => (below_of_beq same).2) h
  exact beq_iff_below.2 ⟨below_union_iff_covers.2 below, below_union_iff_covers.2 above⟩

/-! ## Commutativity -/

theorem join_comm_of_incomparable {a b : Ty}
    (h : ¬Below a b → ¬Below b a → a.compare b = .incomparable → b.compare a = .incomparable →
      (a.join b == b.join a) = true) :
    (a.join b == b.join a) = true := by
  by_cases below : Below a b
  · rw [join_eq_right below]
    exact BEq.symm (join_beq_left below)
  by_cases above : Below b a
  · rw [join_eq_right above]
    exact join_beq_left above
  exact h below above (compare_eq_incomparable below above) (compare_eq_incomparable above below)

theorem join_comm (a b : Ty) : (a.join b == b.join a) = true := by
  induction a, b using pair_induction with
  | arrays d x dl n d' y dl' k ih =>
      apply join_comm_of_incomparable
      intro _ _ outcome outcome'
      rw [join_arrays outcome, join_arrays outcome']
      refine beq_array_iff.2 ⟨?_, ih⟩
      by_cases same : n = k
      · rw [if_pos same, if_pos same.symm, same]
      · rw [if_neg same, if_neg (Ne.symm same)]
  | arraySingle d x dl n s single ih =>
      apply join_comm_of_incomparable
      intro _ _ outcome outcome'
      rw [join_array_single single outcome, join_single_array single outcome']
      exact BEq.rfl
  | singleArray s d y dl k single ih =>
      apply join_comm_of_incomparable
      intro _ _ outcome outcome'
      rw [join_single_array single outcome, join_array_single single outcome']
      exact BEq.rfl
  | records ls d x ls' d' y ih =>
      apply join_comm_of_incomparable
      intro _ _ outcome outcome'
      rw [join_records outcome, join_records outcome']
      apply ofFields_beq
      intro l
      rw [Rules.get?_sharedRow x y join, Rules.get?_sharedRow y x join]
      have component := find?_components (P := fun s t => (s.join t == t.join s) = true) ih l
      cases hs : ls.find? x l <;> cases ht : ls'.find? y l <;> simp
      exact component _ _ hs ht
  | unions ls d x ls' d' y ih =>
      apply join_comm_of_incomparable
      intro _ _ outcome outcome'
      rw [join_unions outcome, join_unions outcome']
      apply ofAlternatives_beq
      intro l
      rw [Rules.get?_unitedRow x y join, Rules.get?_unitedRow y x join]
      have component := find?_components (P := fun s t => (s.join t == t.join s) = true) ih l
      cases hs : ls.find? x l <;> cases ht : ls'.find? y l <;> simp
      exact component _ _ hs ht
  | functions n d x dr r k d' y ds s ihParams ihResult =>
      apply join_comm_of_incomparable
      intro _ _ outcome outcome'
      rw [join_functions outcome, join_functions outcome']
      by_cases arities : n = k
      · subst arities
        simp only [dite_true]
        exact beq_function_iff.2 ⟨rfl, fun i => ihParams i i, ihResult⟩
      · rw [dif_neg arities, dif_neg (Ne.symm arities)]
        exact BEq.rfl
  | objects c c' =>
      apply join_comm_of_incomparable
      intro below above outcome outcome'
      rw [below_object_iff] at below above
      rw [join_objects outcome, join_objects outcome', ObjectClass.join_comm below above]
      exact BEq.rfl
  | nodes a b single single' families =>
      apply join_comm_of_incomparable
      intro _ _ outcome outcome'
      have families' : b.family? = a.family? → b.family? = none :=
        fun h => h.trans (families h.symm)
      rw [join_nodes outcome single single' families, join_nodes outcome' single' single families',
        BaseOrder.join_comm a.node]
      exact BEq.rfl

/-! ## Congruence -/

theorem node_eq_of_beq {a b : Ty} (h : (a == b) = true) :
    a.node = b.node ∧ a.family? = b.family? := by
  induction a using rowInduction with
  | base => rw [eq_of_flat_beq rfl h]; exact ⟨rfl, rfl⟩
  | matrix => rw [eq_of_flat_beq rfl h]; exact ⟨rfl, rfl⟩
  | array => obtain ⟨_, _, _, rfl, -⟩ := eq_array_of_beq h; exact ⟨rfl, rfl⟩
  | row k => obtain ⟨_, _, rfl, -⟩ := eq_row_of_beq h; cases k <;> exact ⟨rfl, rfl⟩
  | function => obtain ⟨_, _, _, _, rfl, -⟩ := eq_function_of_beq h; exact ⟨rfl, rfl⟩
  | object => rw [eq_object_of_beq h]; exact ⟨rfl, rfl⟩

theorem isArray_eq_of_beq {a b : Ty} (h : (a == b) = true) : a.isArray = b.isArray := by
  rw [isArray, isArray, (node_eq_of_beq h).2]

theorem join_congr_of_incomparable {a b a' b' : Ty} (ha : (a == a') = true)
    (hb : (b == b') = true)
    (h : a.compare b = .incomparable → a'.compare b' = .incomparable →
      (a.join b == a'.join b') = true) :
    (a.join b == a'.join b') = true := by
  by_cases below : Below a b
  · rw [join_eq_right below, join_eq_right ((Below.congr ha hb).1 below)]
    exact hb
  have notBelow : ¬Below a' b' := fun h => below ((Below.congr ha hb).2 h)
  by_cases above : Below b a
  · rw [join_eq_left above below, join_eq_left ((Below.congr hb ha).1 above) notBelow]
    exact ha
  have notAbove : ¬Below b' a' := fun h => above ((Below.congr hb ha).2 h)
  exact h (compare_eq_incomparable below above) (compare_eq_incomparable notBelow notAbove)

theorem join_congr {a b a' b' : Ty} (ha : (a == a') = true) (hb : (b == b') = true) :
    (a.join b == a'.join b') = true := by
  induction a, b using pair_induction generalizing a' b' with
  | arrays d x dl n d' y dl' k ih =>
      apply join_congr_of_incomparable ha hb
      intro outcome outcome'
      obtain ⟨_, _, _, rfl, left⟩ := eq_array_of_beq ha
      obtain ⟨_, _, _, rfl, right⟩ := eq_array_of_beq hb
      rw [join_arrays outcome, join_arrays outcome']
      exact beq_array_iff.2 ⟨rfl, ih left right⟩
  | arraySingle d x dl n s single ih =>
      apply join_congr_of_incomparable ha hb
      intro outcome outcome'
      obtain ⟨_, _, _, rfl, element⟩ := eq_array_of_beq ha
      have single' : b'.isArray = false := isArray_eq_of_beq hb ▸ single
      rw [join_array_single single outcome, join_array_single single' outcome']
      exact beq_array_iff.2 ⟨rfl, ih hb element⟩
  | singleArray s d y dl k single ih =>
      apply join_congr_of_incomparable ha hb
      intro outcome outcome'
      obtain ⟨_, _, _, rfl, element⟩ := eq_array_of_beq hb
      have single' : a'.isArray = false := isArray_eq_of_beq ha ▸ single
      rw [join_single_array single outcome, join_single_array single' outcome']
      exact beq_array_iff.2 ⟨rfl, ih ha element⟩
  | records ls d x ls' d' y ih =>
      apply join_congr_of_incomparable ha hb
      intro outcome outcome'
      obtain ⟨_, x', rfl, left⟩ := eq_record_of_beq ha
      obtain ⟨_, y', rfl, right⟩ := eq_record_of_beq hb
      rw [join_records outcome, join_records outcome']
      apply ofFields_beq
      intro l
      rw [Rules.get?_sharedRow x y join, Rules.get?_sharedRow x' y' join]
      by_cases hl : l ∈ ls <;> by_cases hl' : l ∈ ls' <;> simp [NameSet.find?, hl, hl']
      exact ih _ _ (left _) (right _)
  | unions ls d x ls' d' y ih =>
      apply join_congr_of_incomparable ha hb
      intro outcome outcome'
      obtain ⟨_, x', rfl, left⟩ := eq_union_of_beq ha
      obtain ⟨_, y', rfl, right⟩ := eq_union_of_beq hb
      rw [join_unions outcome, join_unions outcome']
      apply ofAlternatives_beq
      intro l
      rw [Rules.get?_unitedRow x y join, Rules.get?_unitedRow x' y' join]
      by_cases hl : l ∈ ls <;> by_cases hl' : l ∈ ls' <;> simp [NameSet.find?, hl, hl', left, right]
      exact ih _ _ (left _) (right _)
  | functions n d x dr r k d' y ds s ihParams ihResult =>
      apply join_congr_of_incomparable ha hb
      intro outcome outcome'
      obtain ⟨_, _, _, _, rfl, left, leftResult⟩ := eq_function_of_beq ha
      obtain ⟨_, _, _, _, rfl, right, rightResult⟩ := eq_function_of_beq hb
      rw [join_functions outcome, join_functions outcome']
      by_cases arities : n = k
      · subst arities
        simp only [dite_true]
        exact beq_function_iff.2
          ⟨rfl, fun i => ihParams i i (left i) (right i), ihResult leftResult rightResult⟩
      · rw [dif_neg arities, dif_neg arities]
        exact BEq.rfl
  | objects c c' =>
      rw [eq_object_of_beq ha, eq_object_of_beq hb]
      exact BEq.rfl
  | nodes a b single single' families =>
      apply join_congr_of_incomparable ha hb
      intro outcome outcome'
      obtain ⟨node, family⟩ := node_eq_of_beq ha
      obtain ⟨node', family'⟩ := node_eq_of_beq hb
      rw [join_nodes outcome single single' families, node, node',
        join_nodes outcome' (isArray_eq_of_beq ha ▸ single) (isArray_eq_of_beq hb ▸ single')
          (by rwa [← family, ← family'])]
      exact BEq.rfl

end Ty

end DataflowTypes
