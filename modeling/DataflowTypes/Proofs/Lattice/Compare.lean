import DataflowTypes.Lattice.Basic
import DataflowTypes.Proofs.Lattice.Below

/-!
# Comparing types decides their order

The outcome of a comparison reflects two statements: that the first operand is at
most the second, and that it is at least the second.  The rule of each family
reflects the rule of `Below` for this family, and so `compare` reflects `Below` in
both directions.  Everything else about `compare` follows from the laws of `Below`.
-/

namespace DataflowTypes

namespace Comparison

/-- The outcome says whether `p` and whether `q`, where `p` stands for "at most" and
`q` for "at least". -/
structure Reflects (o : Comparison) (p q : Prop) : Prop where
  atMost : o.isAtMost = true ↔ p
  atLeast : o.isAtLeast = true ↔ q

namespace Reflects

variable {o o' : Comparison} {p q p' q' : Prop}

theorem congr (h : o.Reflects p q) (hp : p ↔ p') (hq : q ↔ q') : o.Reflects p' q' :=
  ⟨h.atMost.trans hp, h.atLeast.trans hq⟩

theorem reverse (h : o.Reflects p q) : o.reverse.Reflects q p := by
  obtain ⟨atMost, atLeast⟩ := h
  cases o <;> exact ⟨atLeast, atMost⟩

theorem combine (h : o.Reflects p q) (h' : o'.Reflects p' q') :
    (o.combine o').Reflects (p ∧ p') (q ∧ q') := by
  constructor
  · rw [← h.atMost, ← h'.atMost]
    cases o <;> cases o' <;> simp [Comparison.combine, isAtMost]
  · rw [← h.atLeast, ← h'.atLeast]
    cases o <;> cases o' <;> simp [Comparison.combine, isAtLeast]

theorem unique (h : o.Reflects p q) (h' : o'.Reflects p q) : o = o' := by
  have atMost := h.atMost.trans h'.atMost.symm
  have atLeast := h.atLeast.trans h'.atLeast.symm
  cases o <;> cases o' <;> simp [isAtMost, isAtLeast] at atMost atLeast ⊢

private theorem eq_same_iff (h : o.Reflects p q) : o = .same ↔ p ∧ q := by
  rw [← h.atMost, ← h.atLeast]
  cases o <;> simp [isAtMost, isAtLeast]

end Reflects

theorem reflects_iff {o : Comparison} {p q : Prop} :
    o.Reflects p q ↔ (o.isAtMost = true ↔ p) ∧ (o.isAtLeast = true ↔ q) :=
  ⟨fun h => ⟨h.atMost, h.atLeast⟩, fun h => ⟨h.1, h.2⟩⟩

@[simp] theorem reflects_lower_iff {p q : Prop} : lower.Reflects p q ↔ p ∧ ¬q := by
  simp [reflects_iff, isAtMost, isAtLeast]

@[simp] theorem reflects_same_iff {p q : Prop} : same.Reflects p q ↔ p ∧ q := by
  simp [reflects_iff, isAtMost, isAtLeast]

@[simp] theorem reflects_higher_iff {p q : Prop} : higher.Reflects p q ↔ ¬p ∧ q := by
  simp [reflects_iff, isAtMost, isAtLeast]

@[simp] theorem reflects_incomparable_iff {p q : Prop} :
    incomparable.Reflects p q ↔ ¬p ∧ ¬q := by
  simp [reflects_iff, isAtMost, isAtLeast]

theorem reflects_ofBounds (below above : Bool) :
    (ofBounds below above).Reflects (below = true) (above = true) := by
  cases below <;> cases above <;> simp [ofBounds]

end Comparison

/-! ## The rules of the families -/

theorem Length.compare_reflects (n k : Option Nat) :
    (Length.compare n k).Reflects (Length.Below n k) (Length.Below k n) := by
  rcases n with _ | n <;> rcases k with _ | k <;> simp [Length.compare, Length.Below]
  by_cases same : n = k <;> simp [same, eq_comm]

theorem ObjectClass.compare_reflects (c c' : ObjectClass) :
    (c.compare c').Reflects (c.Below c') (c'.Below c) := by
  by_cases same : c = c'
  · subst same
    simp [ObjectClass.compare, Below.refl]
  · have ordered : ¬(c.Below c' ∧ c'.Below c) := fun h => same (h.1.antisymm h.2)
    cases c <;> cases c' <;> simp [ObjectClass.compare, Below] at same ordered ⊢
    rename_i p q
    simp only [if_neg same]
    split
    · next h => simpa [h] using ordered
    · split
      · next h' h => simpa [h] using h'
      · next h' h => exact Comparison.reflects_incomparable_iff.2 ⟨h', h⟩

namespace Rules

open Comparison

private theorem compareArrays_reflects {n k : Option Nat} {o : Comparison} {p q : Prop}
    (h : o.Reflects p q) :
    (Id.run (compareArrays n k (pure o))).Reflects
      (Length.Below n k ∧ p) (Length.Below k n ∧ q) := by
  have rule : Id.run (compareArrays n k (pure o)) = (Length.compare n k).combine o := by
    unfold compareArrays
    cases Length.compare n k <;> cases o <;> rfl
  rw [rule]
  exact (Length.compare_reflects n k).combine h

theorem compareLabels_reflects (a b : NameSet) :
    (compareLabels a b).Reflects (∀ l ∈ b, l ∈ a) (∀ l ∈ a, l ∈ b) :=
  (reflects_ofBounds _ _).congr NameSet.subset_iff NameSet.subset_iff

section Components

variable {a b : NameSet} {compare : (x : a.Member) → x.1 ∈ b → Comparison}
  {P Q : (x : a.Member) → x.1 ∈ b → Prop}

/-- Stopping early changes nothing: the outcome that cannot change any more is kept. -/
theorem compareShared_cons (o : Comparison) (x : a.Member) (xs : List a.Member) :
    Id.run (compareShared (fun x hx => pure (compare x hx)) o (x :: xs)) =
      if hx : x.1 ∈ b then
        Id.run (compareShared (fun x hx => pure (compare x hx)) (o.combine (compare x hx)) xs)
      else Id.run (compareShared (fun x hx => pure (compare x hx)) o xs) := by
  have stuck : Id.run (compareShared (fun x hx => pure (compare x hx)) .incomparable xs) =
      .incomparable := by
    cases xs <;> rfl
  cases o with
  | incomparable =>
      split
      · next hx => cases compare x hx <;> exact stuck.symm
      · exact stuck.symm
  | _ =>
      simp only [compareShared]
      split <;> rfl

theorem compareShared_reflects (h : ∀ x hx, (compare x hx).Reflects (P x hx) (Q x hx))
    {o : Comparison} {p q : Prop} (ho : o.Reflects p q) (xs : List a.Member) :
    (Id.run (compareShared (fun x hx => pure (compare x hx)) o xs)).Reflects
      (p ∧ ∀ x ∈ xs, ∀ hx, P x hx) (q ∧ ∀ x ∈ xs, ∀ hx, Q x hx) := by
  induction xs generalizing o p q with
  | nil => exact ho.congr (by simp) (by simp)
  | cons x xs ih =>
      rw [compareShared_cons]
      split
      · next hx =>
          refine (ih (ho.combine (h x hx))).congr ?_ ?_ <;> simp [hx, and_assoc]
      · next hx =>
          refine (ih ho).congr ?_ ?_ <;> simp [hx]

private theorem compareRecords_reflects (h : ∀ x hx, (compare x hx).Reflects (P x hx) (Q x hx)) :
    (Id.run (compareRecords fun x hx => pure (compare x hx))).Reflects
      ((∀ l ∈ b, l ∈ a) ∧ ∀ x hx, P x hx) ((∀ l ∈ a, l ∈ b) ∧ ∀ x hx, Q x hx) := by
  refine (compareShared_reflects h (compareLabels_reflects a b) a.members).congr ?_ ?_ <;>
    simp [NameSet.mem_members]

private theorem compareUnions_reflects (h : ∀ x hx, (compare x hx).Reflects (P x hx) (Q x hx)) :
    (Id.run (compareUnions fun x hx => pure (compare x hx))).Reflects
      ((∀ l ∈ a, l ∈ b) ∧ ∀ x hx, P x hx) ((∀ l ∈ b, l ∈ a) ∧ ∀ x hx, Q x hx) := by
  refine (compareShared_reflects h (compareLabels_reflects a b).reverse a.members).congr ?_ ?_ <;>
    simp [NameSet.mem_members]

end Components

private theorem compareInOrder_reflects {ι : Type} {compare : ι → Comparison} {P Q : ι → Prop}
    (h : ∀ i, (compare i).Reflects (P i) (Q i)) {o : Comparison} {p q : Prop}
    (ho : o.Reflects p q) (is : List ι) :
    (Id.run (compareInOrder (fun i => pure (compare i)) o is)).Reflects
      (p ∧ ∀ i ∈ is, P i) (q ∧ ∀ i ∈ is, Q i) := by
  induction is generalizing o p q with
  | nil => exact ho.congr (by simp) (by simp)
  | cons i is ih =>
      have rule : Id.run (compareInOrder (fun i => pure (compare i)) o (i :: is)) =
          Id.run (compareInOrder (fun i => pure (compare i)) (o.combine (compare i)) is) := by
        cases o with
        | incomparable => cases compare i <;> cases is <;> rfl
        | _ => rfl
      rw [rule]
      refine (ih (ho.combine (h i))).congr ?_ ?_ <;> simp [and_assoc]

private theorem compareFunctions_reflects {n : Nat} {params : Fin n → Comparison}
    {P Q : Fin n → Prop} (h : ∀ i, (params i).Reflects (P i) (Q i)) {result : Comparison}
    {p q : Prop} (hr : result.Reflects p q) :
    (Id.run (compareFunctions (fun i => pure (params i)) (pure result))).Reflects
      ((∀ i, P i) ∧ p) ((∀ i, Q i) ∧ q) := by
  have all := compareInOrder_reflects h (reflects_same_iff.2 ⟨trivial, trivial⟩)
    (List.finRange n)
  have rule : Id.run (compareFunctions (fun i => pure (params i)) (pure result)) =
      (Id.run (compareInOrder (fun i => pure (params i)) .same (List.finRange n))).combine
        result := by
    unfold compareFunctions
    simp only [Id.run_bind]
    cases Id.run (compareInOrder (fun i => pure (params i)) .same (List.finRange n)) <;>
      cases result <;> rfl
  rw [rule]
  refine (all.combine hr).congr ?_ ?_ <;> simp

end Rules

namespace Ty

/-! ## How types are compared -/

theorem compare_def (a b : Ty) :
    a.compare b = Id.run (compareWith (fun _ _ outcome => outcome) a b) := rfl

theorem plain_compare (a b : Ty) : Lattice.plain.compare a b = pure (a.compare b) := rfl

private theorem compare_of_beq {a b : Ty} (h : (a == b) = true) : a.compare b = .same := by
  rw [compare_def, compareWith_of_beq _ h]
  rfl

private theorem compare_arrays {d x d' y : Ty} {dl n dl' k : Option Nat}
    (different : (array d x dl n == array d' y dl' k) = false) :
    (array d x dl n).compare (array d' y dl' k) =
      Id.run (Rules.compareArrays n k (pure (x.compare y))) := by
  rw [compare_def, compareWith.eq_def]
  simp [different, isStructured, family?]
  rfl

private theorem compare_records {ls ls' : NameSet} {d x : ls.Member → Ty} {d' y : ls'.Member → Ty}
    (different : (record ls d x == record ls' d' y) = false) :
    (record ls d x).compare (record ls' d' y) =
      Id.run (Rules.compareRecords fun l h => pure ((x l).compare (y ⟨l.1, h⟩))) := by
  rw [compare_def, compareWith.eq_def]
  simp [different, isStructured, family?]
  rfl

private theorem compare_unions {ls ls' : NameSet} {d x : ls.Member → Ty} {d' y : ls'.Member → Ty}
    (different : (union ls d x == union ls' d' y) = false) :
    (union ls d x).compare (union ls' d' y) =
      Id.run (Rules.compareUnions fun l h => pure ((x l).compare (y ⟨l.1, h⟩))) := by
  rw [compare_def, compareWith.eq_def]
  simp [different, isStructured, family?]
  rfl

private theorem compare_functions {n k : Nat} {d x : Fin n → Ty} {d' y : Fin k → Ty}
    {dr r ds s : Ty} (different : (function n d x dr r == function k d' y ds s) = false) :
    (function n d x dr r).compare (function k d' y ds s) =
      if h : n = k then
        Id.run (Rules.compareFunctions (fun i => pure ((x i).compare (y (i.cast h))))
          (pure (r.compare s)))
      else .incomparable := by
  rw [compare_def, compareWith.eq_def]
  simp [different, isStructured, family?]
  split <;> rfl

private theorem compare_objects {c c' : ObjectClass} (different : (object c == object c') = false) :
    (object c).compare (object c') = c.compare c' := by
  rw [compare_def, compareWith.eq_def]
  simp [different, isStructured, family?]

theorem compare_single_array {s d y : Ty} {dl k : Option Nat} (single : s.isArray = false)
    (proper : s.isBound = false) :
    s.compare (array d y dl k) =
      if Length.acceptsScalar k = true ∧ (s.compare y).isAtMost = true then .lower
      else .incomparable := by
  have different : (s == array d y dl k) = false := by
    cases s <;> simp [isArray, family?] at single <;> rfl
  have structured : (array d y dl k).isStructured = true := rfl
  rw [compare_def, compareWith]
  · simp only [different, proper, structured]
    by_cases accepts : Length.acceptsScalar k = true
    · simp [accepts, compare_def]
      rfl
    · simp [accepts]
  · rintro _ _ _ _ rfl
    simp [isArray, family?] at single

private theorem compare_array_single {s d x : Ty} {dl n : Option Nat} (single : s.isArray = false)
    (proper : s.isBound = false) :
    (array d x dl n).compare s =
      if Length.acceptsScalar n = true ∧ (s.compare x).isAtMost = true then .higher
      else .incomparable := by
  have different : (array d x dl n == s) = false := by
    cases s <;> simp [isArray, family?] at single <;> rfl
  have structured : (array d x dl n).isStructured = true := rfl
  rw [compare_def, compareWith]
  · simp only [different, proper, structured]
    by_cases accepts : Length.acceptsScalar n = true
    · simp [accepts, compare_def]
      rfl
    · simp [accepts]
  · rintro _ _ _ _ rfl
    simp [isArray, family?] at single

theorem compare_nodes {a b : Ty} (different : (a == b) = false)
    (families : a.family? = b.family? → a.family? = none)
    (bound : a.isArray = true → b.isBound = true)
    (bound' : b.isArray = true → a.isBound = true) :
    a.compare b = .ofBounds (BaseOrder.le a.node b.node) (BaseOrder.le b.node a.node) := by
  change _ = compareNodes a b
  rw [compare_def, compareWith.eq_def]
  simp only [different]
  cases a <;> cases b <;> simp_all [isArray, family?, isStructured]

/-! ## The outcome reflects the order -/

/-- Induction on two types at once, in the cases that the rules distinguish: two types of
one family, a single type and an array, and types that meet in the base order only. -/
theorem pair_induction {P : Ty → Ty → Prop}
    (arrays : ∀ d x dl n d' y dl' k, P x y → P (array d x dl n) (array d' y dl' k))
    (arraySingle : ∀ d x dl n s, s.isArray = false → P s x → P (array d x dl n) s)
    (singleArray : ∀ s d y dl k, s.isArray = false → P s y → P s (array d y dl k))
    (records : ∀ ls d x ls' d' y, (∀ l l', P (x l) (y l')) →
      P (record ls d x) (record ls' d' y))
    (unions : ∀ ls d x ls' d' y, (∀ l l', P (x l) (y l')) → P (union ls d x) (union ls' d' y))
    (functions : ∀ n d x dr r k d' y ds s, (∀ i j, P (x i) (y j)) → P r s →
      P (function n d x dr r) (function k d' y ds s))
    (objects : ∀ c c', P (object c) (object c'))
    (nodes : ∀ a b, a.isArray = false → b.isArray = false →
      (a.family? = b.family? → a.family? = none) → P a b)
    (a b : Ty) : P a b := by
  generalize total : a.depth + b.depth = size
  induction size using Nat.strongRecOn generalizing a b with
  | ind size ih =>
      subst total
      replace ih (a' b' : Ty) (less : a'.depth + b'.depth < a.depth + b.depth) : P a' b' :=
        ih _ less a' b' rfl
      by_cases ha : a.isArray = true
      · obtain ⟨d, x, dl, n, rfl⟩ := isArray_iff.1 ha
        by_cases hb : b.isArray = true
        · obtain ⟨d', y, dl', k, rfl⟩ := isArray_iff.1 hb
          exact arrays _ _ _ _ _ _ _ _
            (ih x y (Nat.add_lt_add (depth_element_lt ..) (depth_element_lt ..)))
        · refine arraySingle _ _ _ _ _ (by simpa using hb) (ih b x ?_)
          rw [Nat.add_comm]
          exact Nat.add_lt_add_right (depth_element_lt ..) _
      by_cases hb : b.isArray = true
      · obtain ⟨d', y, dl', k, rfl⟩ := isArray_iff.1 hb
        exact singleArray _ _ _ _ _ (by simpa using ha)
          (ih a y (Nat.add_lt_add_left (depth_element_lt ..) _))
      by_cases families : a.family? = b.family? → a.family? = none
      · exact nodes _ _ (by simpa using ha) (by simpa using hb) families
      -- What is left are two types of one family other than arrays.
      cases a with
      | record ls d x =>
          cases b with
          | record ls' d' y =>
              exact records _ _ _ _ _ _ fun l l' =>
                ih _ _ (Nat.add_lt_add (depth_field_lt ..) (depth_field_lt ..))
          | _ => simp [family?] at families
      | union ls d x =>
          cases b with
          | union ls' d' y =>
              exact unions _ _ _ _ _ _ fun l l' =>
                ih _ _ (Nat.add_lt_add (depth_alternative_lt ..) (depth_alternative_lt ..))
          | _ => simp [family?] at families
      | function n d x dr r =>
          cases b with
          | function k d' y ds s =>
              exact functions _ _ _ _ _ _ _ _ _ _
                (fun i j => ih _ _ (Nat.add_lt_add (depth_param_lt ..) (depth_param_lt ..)))
                (ih _ _ (Nat.add_lt_add (depth_result_lt ..) (depth_result_lt ..)))
          | _ => simp [family?] at families
      | object c =>
          cases b with
          | object c' => exact objects c c'
          | _ => simp [family?] at families
      | array => exact absurd rfl ha
      | _ => simp [family?] at families

theorem reflects_of_different {a b : Ty}
    (h : (a == b) = false → (a.compare b).Reflects (Below a b) (Below b a)) :
    (a.compare b).Reflects (Below a b) (Below b a) := by
  cases same : a == b with
  | true =>
      rw [compare_of_beq same]
      exact Comparison.reflects_same_iff.2 (below_of_beq same)
  | false => exact h same

theorem nodes_reflects {a b : Ty} (different : (a == b) = false)
    (families : a.family? = b.family? → a.family? = none)
    (bound : a.isArray = true → b.isBound = true)
    (bound' : b.isArray = true → a.isBound = true) :
    (a.compare b).Reflects (Below a b) (Below b a) := by
  rw [compare_nodes different families bound bound', below_iff_node_le families bound',
    below_iff_node_le (fun h => h.trans (families h.symm)) bound]
  exact Comparison.reflects_ofBounds _ _

theorem single_array_reflects {s d y : Ty} {dl k : Option Nat} (single : s.isArray = false)
    (element : (s.compare y).Reflects (Below s y) (Below y s)) :
    (s.compare (array d y dl k)).Reflects
      (Below s (array d y dl k)) (Below (array d y dl k) s) := by
  have families : s.family? ≠ some .array := by simpa [isArray] using single
  cases bound : s.isBound with
  | true =>
      refine nodes_reflects ?_ (fun h => absurd h families) (by simp [single]) (fun _ => bound)
      cases s <;> simp [isArray, family?] at single <;> rfl
  | false =>
      have proper : s ≠ unknown ∧ s ≠ general := by
        simpa [isBound, ← Bool.not_eq_true, isUnknown_iff, isGeneral_iff] using bound
      rw [compare_single_array single bound, single_below_array_iff single,
        array_below_iff single, ← element.atMost]
      split
      · next h => simp [proper, h]
      · next h => simpa [proper] using h

private theorem compare_array_single_eq_reverse {s d x : Ty} {dl n : Option Nat}
    (single : s.isArray = false) :
    (array d x dl n).compare s = (s.compare (array d x dl n)).reverse := by
  have families : s.family? ≠ some .array := by simpa [isArray] using single
  cases bound : s.isBound with
  | true =>
      have different : (s == array d x dl n) = false ∧ (array d x dl n == s) = false := by
        cases s <;> simp [isArray, family?] at single <;> exact ⟨rfl, rfl⟩
      rw [compare_nodes different.1 (fun h => absurd h families) (by simp [single])
          (fun _ => bound),
        compare_nodes different.2 (fun h => absurd h.symm families) (fun _ => bound)
          (by simp [single])]
      cases BaseOrder.le s.node (array d x dl n).node <;>
        cases BaseOrder.le (array d x dl n).node s.node <;> rfl
  | false =>
      rw [compare_array_single single bound, compare_single_array single bound]
      split <;> rfl

section Families

variable {ls ls' : NameSet} {d x : ls.Member → Ty} {d' y : ls'.Member → Ty}

theorem arrays_reflects {d x d' y : Ty} {dl n dl' k : Option Nat}
    (element : (x.compare y).Reflects (Below x y) (Below y x)) :
    (Id.run (Rules.compareArrays n k (pure (x.compare y)))).Reflects
      (Below (array d x dl n) (array d' y dl' k)) (Below (array d' y dl' k) (array d x dl n)) := by
  rw [below_array_iff, below_array_iff]
  exact Rules.compareArrays_reflects element

theorem records_reflects
    (fields : ∀ l l', ((x l).compare (y l')).Reflects (Below (x l) (y l')) (Below (y l') (x l))) :
    (Id.run (Rules.compareRecords fun l h => pure ((x l).compare (y ⟨l.1, h⟩)))).Reflects
      (Below (record ls d x) (record ls' d' y)) (Below (record ls' d' y) (record ls d x)) := by
  rw [below_record_iff, below_record_iff]
  refine (Rules.compareRecords_reflects fun l h => fields l ⟨l.1, h⟩).congr .rfl
    (and_congr_right' ?_)
  exact NameSet.forall_common_iff (P := fun l l' => Below (y l') (x l))

theorem unions_reflects
    (alternatives : ∀ l l',
      ((x l).compare (y l')).Reflects (Below (x l) (y l')) (Below (y l') (x l))) :
    (Id.run (Rules.compareUnions fun l h => pure ((x l).compare (y ⟨l.1, h⟩)))).Reflects
      (Below (union ls d x) (union ls' d' y)) (Below (union ls' d' y) (union ls d x)) := by
  rw [below_union_iff, below_union_iff]
  refine (Rules.compareUnions_reflects fun l h => alternatives l ⟨l.1, h⟩).congr .rfl
    (and_congr_right' ?_)
  exact NameSet.forall_common_iff (P := fun l l' => Below (y l') (x l))

theorem functions_reflects {n k : Nat} {d x : Fin n → Ty} {d' y : Fin k → Ty} {dr r ds s : Ty}
    (params : ∀ i j, ((x i).compare (y j)).Reflects (Below (x i) (y j)) (Below (y j) (x i)))
    (result : (r.compare s).Reflects (Below r s) (Below s r)) :
    (if h : n = k then
      Id.run (Rules.compareFunctions (fun i => pure ((x i).compare (y (i.cast h))))
        (pure (r.compare s)))
    else .incomparable).Reflects
      (Below (function n d x dr r) (function k d' y ds s))
      (Below (function k d' y ds s) (function n d x dr r)) := by
  rw [below_function_iff, below_function_iff]
  by_cases arities : n = k
  · subst arities
    simp only [dite_true]
    exact (Rules.compareFunctions_reflects (fun i => params i i) result).congr
      (by simp) (by simp)
  · simp [arities, Ne.symm arities]

theorem objects_reflects (c c' : ObjectClass) :
    (c.compare c').Reflects (Below (object c) (object c')) (Below (object c') (object c)) := by
  rw [below_object_iff, below_object_iff]
  exact ObjectClass.compare_reflects c c'

end Families

theorem compare_reflects (a b : Ty) : (a.compare b).Reflects (Below a b) (Below b a) := by
  induction a, b using pair_induction with
  | arrays d x dl n d' y dl' k ih =>
      apply reflects_of_different
      intro different
      rw [compare_arrays different]
      exact arrays_reflects ih
  | arraySingle d x dl n s single ih =>
      rw [compare_array_single_eq_reverse single]
      exact (single_array_reflects single ih).reverse
  | singleArray s d y dl k single ih => exact single_array_reflects single ih
  | records ls d x ls' d' y ih =>
      apply reflects_of_different
      intro different
      rw [compare_records different]
      exact records_reflects ih
  | unions ls d x ls' d' y ih =>
      apply reflects_of_different
      intro different
      rw [compare_unions different]
      exact unions_reflects ih
  | functions n d x dr r k d' y ds s ihParams ihResult =>
      apply reflects_of_different
      intro different
      rw [compare_functions different]
      exact functions_reflects ihParams ihResult
  | objects c c' =>
      apply reflects_of_different
      intro different
      rw [compare_objects different]
      exact objects_reflects c c'
  | nodes a b single single' families =>
      apply reflects_of_different
      intro different
      exact nodes_reflects different families (by simp [single]) (by simp [single'])

theorem compare_eq_incomparable {a b : Ty} (notBelow : ¬Below a b) (notAbove : ¬Below b a) :
    a.compare b = .incomparable :=
  (compare_reflects a b).unique (Comparison.reflects_incomparable_iff.2 ⟨notBelow, notAbove⟩)

theorem compare_swap (a b : Ty) : b.compare a = (a.compare b).reverse :=
  (compare_reflects b a).unique (compare_reflects a b).reverse

theorem compare_congr {a b a' b' : Ty} (ha : (a == a') = true) (hb : (b == b') = true) :
    a.compare b = a'.compare b' :=
  (compare_reflects a b).unique
    ((compare_reflects a' b').congr (Below.congr ha hb).symm (Below.congr hb ha).symm)

/-! ## The order itself -/

/-- A type is at most another if comparing them says so. -/
instance : LE Ty := ⟨fun a b => (a.compare b).isAtMost = true⟩

theorem le_iff_below {a b : Ty} : a ≤ b ↔ Below a b := (compare_reflects a b).atMost

/-- Types form a partial order under `==`, and the comparison tells where two of them
stand in it.  It sees of a type only what the type denotes. -/
theorem compare_partialOrder (a b c a' b' : Ty) :
    (a.compare b = .same ↔ (a == b) = true) ∧
      b.compare a = (a.compare b).reverse ∧
      (a ≤ b → b ≤ c → a ≤ c) ∧
      ((a == a') = true → (b == b') = true → a'.compare b' = a.compare b) := by
  refine ⟨?_, ?_, ?_, ?_⟩
  · rw [(compare_reflects a b).eq_same_iff, beq_iff_below]
  · exact (compare_reflects b a).unique (compare_reflects a b).reverse
  · rw [le_iff_below, le_iff_below, le_iff_below]
    exact Below.trans
  · intro ha hb
    refine (compare_reflects a' b').unique ((compare_reflects a b).congr ?_ ?_)
    · exact Below.congr ha hb
    · exact Below.congr hb ha

theorem compare_partialOrder_widening :
    base .int ≤ arrayOf (arrayOf (base .int) none) none ∧
      (base .int).compare (array unknown (base .int) (some 2) none) =
        (base .int).compare (arrayOf (base .int) none) := by
  have widened : base .int ≤ arrayOf (base .int) none :=
    le_iff_below.2 (.widen rfl (by simp) rfl (.refl _))
  have nested : arrayOf (base .int) none ≤ arrayOf (arrayOf (base .int) none) none :=
    le_iff_below.2 (.array (.refl none) (.widen rfl (by simp) rfl (.refl _)))
  obtain ⟨-, -, trans, congr⟩ := compare_partialOrder (base .int) (arrayOf (base .int) none)
    (arrayOf (arrayOf (base .int) none) none) (base .int)
    (array unknown (base .int) (some 2) none)
  exact ⟨trans widened nested, congr rfl (beq_array_iff.2 ⟨rfl, rfl⟩)⟩

end Ty

end DataflowTypes
