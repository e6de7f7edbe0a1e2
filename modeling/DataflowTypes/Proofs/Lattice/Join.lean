import DataflowTypes.Proofs.Lattice.Compare
import DataflowTypes.Proofs.Lattice.Rules

/-!
# Least upper bounds of types

`join` gives an upper bound of any two types.  It is the least one among the types
in which no array has `general` elements, so in particular among those that do not
mention `general`.  Without a restriction there need not be a least upper bound:
where `general` is one, so are the array of `general`, the array of that, and so
on, each below the one before.
-/

namespace DataflowTypes

/-! ## Classes -/

namespace ObjectClass

theorem prefix_commonPath_iff {r p q : List String} :
    r <+: commonPath p q ↔ r <+: p ∧ r <+: q := by
  induction p generalizing q r with
  | nil =>
      simp only [commonPath, List.prefix_nil]
      exact ⟨fun h => ⟨h, h ▸ List.nil_prefix⟩, And.left⟩
  | cons x xs ih =>
      rcases q with _ | ⟨y, ys⟩
      · simp only [commonPath, List.prefix_nil]
        exact ⟨fun h => ⟨h ▸ List.nil_prefix, h⟩, And.right⟩
      rcases r with _ | ⟨z, zs⟩
      · simp
      by_cases same : x = y
      · subst same
        simp only [commonPath, if_true, List.cons_prefix_cons, ih]
        exact and_and_left
      · simp only [commonPath, if_neg same, List.cons_prefix_cons, List.prefix_nil, reduceCtorEq,
          false_iff]
        rintro ⟨⟨rfl, -⟩, rfl, -⟩
        exact same rfl

theorem commonPath_comm (p q : List String) : commonPath p q = commonPath q p := by
  have below (p q : List String) : commonPath p q <+: commonPath q p :=
    prefix_commonPath_iff.2 (prefix_commonPath_iff.1 (List.prefix_refl _)).symm
  exact (below p q).eq_of_length_le (below q p).length_le

theorem eq_named_of_incomparable {c c' : ObjectClass} (notBelow : ¬c.Below c')
    (notAbove : ¬c'.Below c) : ∃ p q, c = named p ∧ c' = named q := by
  cases c <;> cases c' <;> simp_all [Below]

theorem join_comm {c c' : ObjectClass} (notBelow : ¬c.Below c') (notAbove : ¬c'.Below c) :
    c.join c' = c'.join c := by
  obtain ⟨p, q, rfl, rfl⟩ := eq_named_of_incomparable notBelow notAbove
  simp only [join, commonPath_comm p q]

theorem join_isLeast {c c' : ObjectClass} (notBelow : ¬c.Below c') (notAbove : ¬c'.Below c) :
    c.Below (c.join c') ∧ c'.Below (c.join c') ∧
      ∀ e, e ≠ named [] → c.Below e → c'.Below e → (c.join c').Below e := by
  obtain ⟨p, q, rfl, rfl⟩ := eq_named_of_incomparable notBelow notAbove
  obtain ⟨left, right⟩ := prefix_commonPath_iff.1 (List.prefix_refl (commonPath p q))
  simp only [join]
  split
  · next none =>
      refine ⟨trivial, trivial, fun e path pe qe => ?_⟩
      cases e with
      | impossible => exact pe
      | unconstrained => trivial
      | named r =>
          have both := prefix_commonPath_iff.2 ⟨pe, qe⟩
          rw [none, List.prefix_nil] at both
          exact absurd (congrArg named both) path
  · refine ⟨left, right, fun e _ pe qe => ?_⟩
    cases e with
    | impossible => exact pe
    | unconstrained => trivial
    | named r => exact prefix_commonPath_iff.2 ⟨pe, qe⟩

theorem join_ne_rootless {c c' : ObjectClass} (notBelow : ¬c.Below c') (notAbove : ¬c'.Below c) :
    c.join c' ≠ named [] := by
  obtain ⟨p, q, rfl, rfl⟩ := eq_named_of_incomparable notBelow notAbove
  simp only [join]
  split
  · simp
  · next path => simpa using path

end ObjectClass

namespace Ty

/-! ## Conditions on all components -/

def Everywhere (P : Ty → Prop) : Ty → Prop
  | base b => P (base b)
  | matrix k => P (matrix k)
  | array d r dl l => P (array d r dl l) ∧ Everywhere P r
  | record ls d r => P (record ls d r) ∧ ∀ l, Everywhere P (r l)
  | union ls d r => P (union ls d r) ∧ ∀ l, Everywhere P (r l)
  | function n d r ds s => P (function n d r ds s) ∧ (∀ i, Everywhere P (r i)) ∧ Everywhere P s
  | object c => P (object c)

theorem Everywhere.here {P : Ty → Prop} {t : Ty} (h : t.Everywhere P) : P t := by
  cases t with
  | base => exact h
  | matrix => exact h
  | object => exact h
  | _ => exact h.1

/-- No class is given by an empty path. -/
def HasPaths : Ty → Prop := Everywhere (· ≠ object (.named []))

@[simp] theorem hasPaths_base (b : BaseType) : (base b).HasPaths := by
  simp [HasPaths, Everywhere]

@[simp] theorem hasPaths_arrayOf {t : Ty} {n : Option Nat} :
    (arrayOf t n).HasPaths ↔ t.HasPaths := by
  simp [HasPaths, Everywhere, arrayOf]

@[simp] theorem hasPaths_ofFields_empty : (ofFields .empty).HasPaths :=
  ⟨by simp, fun l => absurd l.2 (NameSet.not_mem_empty l.1)⟩

def GeneralFree : Ty → Prop := Everywhere (· ≠ general)

/-- No class is given by an empty path and no array has `general` elements, though
`general` may occur elsewhere. -/
def Regular : Ty → Prop :=
  Everywhere fun t => t ≠ object (.named []) ∧ ∀ d dl n, t ≠ array d general dl n

theorem regular_of_generalFree {t : Ty} (paths : t.HasPaths) (free : t.GeneralFree) :
    t.Regular := by
  induction t with
  | base => exact ⟨paths, by simp⟩
  | matrix => exact ⟨paths, by simp⟩
  | object => exact ⟨paths, by simp⟩
  | array _ r _ _ _ ih =>
      have element : r ≠ general := free.2.here
      exact ⟨⟨paths.1, by simp [element]⟩, ih paths.2 free.2⟩
  | record _ _ _ _ ih => exact ⟨⟨paths.1, by simp⟩, fun l => ih l (paths.2 l) (free.2 l)⟩
  | union _ _ _ _ ih => exact ⟨⟨paths.1, by simp⟩, fun l => ih l (paths.2 l) (free.2 l)⟩
  | function _ _ _ _ _ _ ihParams _ ihResult =>
      exact ⟨⟨paths.1, by simp⟩, fun i => ihParams i (paths.2.1 i) (free.2.1 i),
        ihResult paths.2.2 free.2.2⟩

/-- `j` is an upper bound of `a` and `b`, and the least among the regular ones. -/
abbrev IsJoin : Ty → Ty → Ty → Prop := BestBound (flip Below) Regular

/-! ## How joins are computed -/

theorem join_def (a b : Ty) : a.join b = Id.run (joinWith Lattice.plain.compare a b) := rfl

theorem join_eq_right {a b : Ty} (h : Below a b) : a.join b = b := by
  have outcome := (compare_reflects a b).atMost.2 h
  rw [join_def, joinWith.eq_def, plain_compare, pure_bind]
  cases o : a.compare b <;> simp [o, Comparison.isAtMost] at outcome ⊢

theorem join_eq_left {a b : Ty} (h : Below b a) (other : ¬Below a b) : a.join b = a := by
  have outcome : a.compare b = .higher :=
    (compare_reflects a b).unique (Comparison.reflects_higher_iff.2 ⟨other, h⟩)
  rw [join_def, joinWith.eq_def, plain_compare, outcome]
  rfl

theorem join_cases {a b : Ty} {P : Ty → Prop} (left : Below b a → P a) (right : Below a b → P b)
    (rule : ¬Below a b → ¬Below b a → a.compare b = .incomparable → P (a.join b)) :
    P (a.join b) := by
  by_cases below : Below a b
  · rw [join_eq_right below]
    exact right below
  by_cases above : Below b a
  · rw [join_eq_left above below]
    exact left above
  exact rule below above (compare_eq_incomparable below above)

section Incomparable

variable {d x d' y : Ty} {dl n dl' k : Option Nat}

theorem join_arrays
    (h : (array d x dl n).compare (array d' y dl' k) = .incomparable) :
    (array d x dl n).join (array d' y dl' k) =
      arrayOf (x.join y) (if n = k then n else none) := by
  rw [join_def, joinWith, plain_compare, h]
  rfl

theorem join_records {ls ls' : NameSet} {d x : ls.Member → Ty} {d' y : ls'.Member → Ty}
    (h : (record ls d x).compare (record ls' d' y) = .incomparable) :
    (record ls d x).join (record ls' d' y) =
      ofFields (Id.run (Rules.sharedRow fun l h => pure ((x l).join (y ⟨l.1, h⟩)))) := by
  rw [join_def, joinWith, plain_compare, h]
  rfl

theorem join_unions {ls ls' : NameSet} {d x : ls.Member → Ty} {d' y : ls'.Member → Ty}
    (h : (union ls d x).compare (union ls' d' y) = .incomparable) :
    (union ls d x).join (union ls' d' y) =
      ofAlternatives (Id.run (Rules.unitedRow x y fun l h =>
        pure ((x l).join (y ⟨l.1, h⟩)))) := by
  rw [join_def, joinWith, plain_compare, h]
  rfl

theorem join_functions {n k : Nat} {d x : Fin n → Ty} {d' y : Fin k → Ty} {dr r ds s : Ty}
    (h : (function n d x dr r).compare (function k d' y ds s) = .incomparable) :
    (function n d x dr r).join (function k d' y ds s) =
      if h : n = k then
        function n (fun i => (x i).join (y (i.cast h))) (fun i => (x i).join (y (i.cast h)))
          (r.join s) (r.join s)
      else general := by
  rw [join_def, joinWith, plain_compare, h]
  by_cases arities : n = k
  · simp only [pure_bind, arities, dite_true]
    exact Rules.combineFunctions_eq _ _
  · simp [arities]

theorem join_objects {c c' : ObjectClass}
    (h : (object c).compare (object c') = .incomparable) :
    (object c).join (object c') = object (c.join c') := by
  rw [join_def, joinWith, plain_compare, h]
  rfl

theorem join_single_array {s : Ty} (single : s.isArray = false)
    (h : s.compare (array d y dl k) = .incomparable) :
    s.join (array d y dl k) = arrayOf (s.join y) (widenedLength k) := by
  rw [join_def, joinWith, plain_compare, h]
  · rfl
  · rintro _ _ _ _ rfl
    simp [isArray, family?] at single

theorem join_array_single {s : Ty} (single : s.isArray = false)
    (h : (array d x dl n).compare s = .incomparable) :
    (array d x dl n).join s = arrayOf (s.join x) (widenedLength n) := by
  rw [join_def, joinWith, plain_compare, h]
  · rfl
  · rintro _ _ _ _ rfl
    simp [isArray, family?] at single

theorem join_nodes {a b : Ty} (h : a.compare b = .incomparable) (single : a.isArray = false)
    (single' : b.isArray = false) (families : a.family? = b.family? → a.family? = none) :
    a.join b = ofNode (BaseOrder.join BaseOrder.order a.node b.node) := by
  rw [join_def, joinWith.eq_def, plain_compare, h]
  cases a <;> cases b <;> simp_all [isArray, family?]

end Incomparable

/-! ## The rules are exact -/

section Arrays

variable {d x d' y e s : Ty} {dl n dl' k l : Option Nat}

theorem joinLength_isLeast (n k : Option Nat) :
    BestBound (flip Length.Below) (fun _ => True) (if n = k then n else none) n k := by
  split
  · next same =>
      rw [same]
      exact .of_related (.refl k) (.refl k)
  · next different =>
      refine ⟨.inl rfl, .inl rfl, fun m _ nm km => ?_⟩
      rcases nm with rfl | rfl
      · exact .inl rfl
      · exact .inl (km.resolve_right (Ne.symm different))

theorem widenedLength_isLeast (k : Option Nat) :
    BestBound (flip Length.Below) (fun _ => True) (widenedLength k) (some 1) k := by
  have least := joinLength_isLeast (some 1) k
  rwa [show (if some 1 = k then some 1 else none) = widenedLength k by
    simp [widenedLength, @eq_comm _ k]] at least

private theorem isJoin_arrays (elements : IsJoin e x y) :
    IsJoin (arrayOf e (if n = k then n else none)) (array d x dl n) (array d' y dl' k) where
  left := below_array_iff.2 ⟨(joinLength_isLeast n k).left, elements.left⟩
  right := below_array_iff.2 ⟨(joinLength_isLeast n k).right, elements.right⟩
  best c regular ac bc := by
    cases hc : c.isArray with
    | false =>
        rw [(array_below_iff hc).1 ac]
        exact .top _
    | true =>
        obtain ⟨_, z, _, m, rfl⟩ := isArray_iff.1 hc
        obtain ⟨nm, xz⟩ := below_array_iff.1 ac
        obtain ⟨km, yz⟩ := below_array_iff.1 bc
        exact below_array_iff.2 ⟨(joinLength_isLeast n k).best m trivial nm km,
          elements.best z regular.2 xz yz⟩

theorem isJoin_single_array (single : s.isArray = false) (proper : s ≠ general)
    (known : s ≠ unknown) (element : IsJoin e s y) :
    IsJoin (arrayOf e (widenedLength k)) s (array d y dl k) where
  left := .widen single proper (Length.acceptsScalar_iff.2 (widenedLength_isLeast k).left)
    element.left
  right := below_array_iff.2 ⟨(widenedLength_isLeast k).right, element.right⟩
  best c regular sc ac := by
    cases hc : c.isArray with
    | false =>
        rw [(array_below_iff hc).1 ac]
        exact .top _
    | true =>
        obtain ⟨_, z, _, m, rfl⟩ := isArray_iff.1 hc
        obtain ⟨km, yz⟩ := below_array_iff.1 ac
        obtain ⟨-, accepts, sz⟩ := ((single_below_array_iff single).1 sc).resolve_left known
        rw [Length.acceptsScalar_iff] at accepts
        exact below_array_iff.2 ⟨(widenedLength_isLeast k).best m trivial accepts km,
          element.best z regular.2 sz yz⟩

end Arrays

/-- Upper bounds of single types that are arrays come from upper bounds that are not, so
only the latter have to be looked at. -/
theorem isJoin_of_single {a b j : Ty} (ha : a.isArray = false) (hb : b.isArray = false)
    (hj : j.isArray = false) (known : a ≠ unknown) (known' : b ≠ unknown)
    (left : Below a j) (right : Below b j)
    (least : ∀ c, c.isArray = false → Regular c → Below a c → Below b c → Below j c) :
    IsJoin j a b := by
  refine ⟨left, right, fun c => ?_⟩
  induction c with
  | array d z dl m _ ih =>
      intro regular ac bc
      obtain ⟨-, accepts, az⟩ := ((single_below_array_iff ha).1 ac).resolve_left known
      obtain ⟨-, -, bz⟩ := ((single_below_array_iff hb).1 bc).resolve_left known'
      have jz : Below j z := ih regular.2 az bz
      -- Otherwise the element would be `general`, which no array of a regular type has.
      have proper : j ≠ general := by
        rintro rfl
        exact regular.1.2 d dl m (by rw [general_below_iff.1 jz])
      exact .widen hj proper accepts jz
  | _ => exact least _ rfl

private theorem isJoin_general {a b : Ty} (ha : a.isArray = false) (hb : b.isArray = false)
    (known : a ≠ unknown) (known' : b ≠ unknown)
    (h : ∀ c, c.isArray = false → Below a c → Below b c → c = general) :
    IsJoin general a b :=
  isJoin_of_single ha hb rfl known known' (.top a) (.top b) fun c hc _ ac bc => by
    rw [h c hc ac bc]
    exact .top _

section Rows

variable {ls ls' : NameSet} {d x : ls.Member → Ty} {d' y : ls'.Member → Ty}
  {f : Ty → Ty → Ty} {row : Row Ty}

private theorem isJoin_records
    (hrow : ∀ l, row.get? l = (ls.find? x l).bind fun s => (ls'.find? y l).map fun t => f s t)
    (fields : ∀ l l', IsJoin (f (x l) (y l')) (x l) (y l')) :
    IsJoin (ofFields row) (record ls d x) (record ls' d' y) := by
  have bound := covers_common (find?_components fields)
  rw [← show row.labels.find? row.value = _ from funext hrow] at bound
  refine isJoin_of_single rfl rfl rfl (by simp) (by simp) (below_record_iff_covers.2 bound.left)
    (below_record_iff_covers.2 bound.right) fun c hc regular ac bc => ?_
  rcases ac.eq_general_or_family?_eq rfl hc with rfl | family
  · exact .top _
  · cases c with
    | record =>
        rw [below_record_iff_covers] at ac bc
        exact below_record_iff_covers.2 (bound.best _ (find?_component regular.2) ac bc)
    | _ => simp [family?] at family

private theorem isJoin_unions
    (hrow : ∀ l, row.get? l = Option.merge f (ls.find? x l) (ls'.find? y l))
    (alternatives : ∀ l l', IsJoin (f (x l) (y l')) (x l) (y l')) :
    IsJoin (ofAlternatives row) (union ls d x) (union ls' d' y) := by
  have bound := covers_merge (R := flip Below) Below.refl (find?_components alternatives)
  rw [← show row.labels.find? row.value = _ from funext hrow] at bound
  refine isJoin_of_single rfl rfl rfl (by simp) (by simp) (below_union_iff_covers.2 bound.left)
    (below_union_iff_covers.2 bound.right) fun c hc regular ac bc => ?_
  rcases ac.eq_general_or_family?_eq rfl hc with rfl | family
  · exact .top _
  · cases c with
    | union =>
        rw [below_union_iff_covers] at ac bc
        exact below_union_iff_covers.2 (bound.best _ (find?_component regular.2) ac bc)
    | _ => simp [family?] at family

end Rows

private theorem isJoin_functions {n : Nat} {d x d' y z : Fin n → Ty} {dr r ds s t : Ty}
    (params : ∀ i, IsJoin (z i) (x i) (y i)) (result : IsJoin t r s) :
    IsJoin (function n z z t t) (function n d x dr r) (function n d' y ds s) := by
  refine isJoin_of_single rfl rfl rfl (by simp) (by simp)
    (.function (fun i => (params i).left) result.left)
    (.function (fun i => (params i).right) result.right) fun c hc regular ac bc => ?_
  rcases ac.eq_general_or_family?_eq rfl hc with rfl | family
  · exact .top _
  · cases c with
    | function =>
        obtain ⟨rfl, upper, upperResult⟩ := below_function_iff.1 ac
        obtain ⟨_, upper', upperResult'⟩ := below_function_iff.1 bc
        obtain ⟨-, regularParams, regularResult⟩ := regular
        exact .function (fun i => (params i).best _ (regularParams i) (upper i) (upper' i))
          (result.best _ regularResult upperResult upperResult')
    | _ => simp [family?] at family

private theorem isJoin_functions_general {n k : Nat} {d x : Fin n → Ty} {d' y : Fin k → Ty}
    {dr r ds s : Ty} (arities : n ≠ k) :
    IsJoin general (function n d x dr r) (function k d' y ds s) := by
  apply isJoin_general rfl rfl (by simp) (by simp)
  intro c hc ac bc
  rcases ac.eq_general_or_family?_eq rfl hc with top | family
  · exact top
  · cases c with
    | function =>
        obtain ⟨rfl, -⟩ := below_function_iff.1 ac
        obtain ⟨same, -⟩ := below_function_iff.1 bc
        exact absurd same.symm arities
    | _ => simp [family?] at family

private theorem isJoin_objects {c c' : ObjectClass} (notBelow : ¬c.Below c')
    (notAbove : ¬c'.Below c) : IsJoin (object (c.join c')) (object c) (object c') := by
  obtain ⟨upper, upper', least⟩ := ObjectClass.join_isLeast notBelow notAbove
  refine isJoin_of_single rfl rfl rfl (by simp) (by simp) (.object upper) (.object upper')
    fun e he regular ae be => ?_
  rcases ae.eq_general_or_family?_eq rfl he with rfl | family
  · exact .top _
  · cases e with
    | object e =>
        have path : e ≠ .named [] := fun h => regular.1 (by rw [h])
        rw [below_object_iff] at ae be ⊢
        exact least e path ae be
    | _ => simp [family?] at family

theorem join_node_ne_family {a b : Ty} (notBelow : ¬Below a b) (notAbove : ¬Below b a)
    (families : a.family? = b.family? → a.family? = none) (f : Family) :
    BaseOrder.join BaseOrder.order a.node b.node ≠ .family f := by
  obtain ⟨upper, upper', -⟩ := BaseOrder.join_isLeast a.node b.node
  intro h
  rw [h] at upper upper'
  rcases BaseOrder.eq_of_le_family upper with ha | ha
  · rcases BaseOrder.eq_of_le_family upper' with hb | hb
    · rw [node_eq_family_iff.1 ha, node_eq_family_iff.1 hb] at families
      cases families rfl
    · rw [eq_of_node_eq_base hb] at notAbove
      exact notAbove (.bottom a)
  · rw [eq_of_node_eq_base ha] at notBelow
    exact notBelow (.bottom b)

private theorem isJoin_nodes {a b : Ty} (notBelow : ¬Below a b) (notAbove : ¬Below b a)
    (single : a.isArray = false) (single' : b.isArray = false)
    (families : a.family? = b.family? → a.family? = none) :
    IsJoin (ofNode (BaseOrder.join BaseOrder.order a.node b.node)) a b := by
  have known : a ≠ unknown := fun h => notBelow (h ▸ .bottom b)
  have known' : b ≠ unknown := fun h => notAbove (h ▸ .bottom a)
  have flat := join_node_ne_family notBelow notAbove families
  obtain ⟨upper, upper', least⟩ := BaseOrder.join_isLeast a.node b.node
  generalize BaseOrder.join BaseOrder.order a.node b.node = p at flat upper upper' least
  obtain ⟨unstructured, node⟩ := ofNode_flat flat
  have below_iff {c t : Ty} (hc : c.isStructured = false) (ht : t.isArray = false) :
      Below t c ↔ BaseOrder.le t.node c.node = true :=
    below_iff_node_le (fun h => by simpa [isStructured, ← h] using hc)
      (by simp [isArray_eq_false hc])
  refine isJoin_of_single single single' (isArray_eq_false unstructured) known known'
    ((below_iff unstructured single).2 (by rw [node]; exact upper))
    ((below_iff unstructured single').2 (by rw [node]; exact upper')) fun c hc _ ac bc => ?_
  have flatBound : c.isStructured = false := by
    cases structured : c.isStructured with
    | false => rfl
    | true =>
        have inA := (ac.eq_unknown_or_family?_eq structured hc).resolve_left known
        have inB := (bc.eq_unknown_or_family?_eq structured hc).resolve_left known'
        rw [isStructured, ← inA, families (inA.trans inB.symm)] at structured
        cases structured
  rw [below_iff flatBound single] at ac
  rw [below_iff flatBound single'] at bc
  rw [below_iff flatBound (isArray_eq_false unstructured), node]
  exact least c.node ac bc

/-! ## The least upper bound -/

theorem isJoin_of_incomparable {a b : Ty}
    (rule : ¬Below a b → ¬Below b a → a.compare b = .incomparable → IsJoin (a.join b) a b) :
    IsJoin (a.join b) a b := by
  refine join_cases (P := fun j => IsJoin j a b) (fun above => ?_) (fun below => ?_) rule
  · exact .of_related (.refl a) above
  · exact .symm (.of_related (.refl b) below)

theorem join_isJoin (a b : Ty) : IsJoin (a.join b) a b := by
  induction a, b using pair_induction with
  | arrays d x dl n d' y dl' k ih =>
      apply isJoin_of_incomparable
      intro _ _ outcome
      rw [join_arrays outcome]
      exact isJoin_arrays ih
  | arraySingle d x dl n s single ih =>
      apply isJoin_of_incomparable
      intro below above outcome
      have proper : s ≠ general := fun h => below (h ▸ .top _)
      have known : s ≠ unknown := fun h => above (h ▸ .bottom _)
      rw [join_array_single single outcome]
      exact (isJoin_single_array single proper known ih).symm
  | singleArray s d y dl k single ih =>
      apply isJoin_of_incomparable
      intro below above outcome
      have proper : s ≠ general := fun h => above (h ▸ .top _)
      have known : s ≠ unknown := fun h => below (h ▸ .bottom _)
      rw [join_single_array single outcome]
      exact isJoin_single_array single proper known ih
  | records ls d x ls' d' y ih =>
      apply isJoin_of_incomparable
      intro _ _ outcome
      rw [join_records outcome]
      exact isJoin_records (Rules.get?_sharedRow x y join) ih
  | unions ls d x ls' d' y ih =>
      apply isJoin_of_incomparable
      intro _ _ outcome
      rw [join_unions outcome]
      exact isJoin_unions (Rules.get?_unitedRow x y join) ih
  | functions n d x dr r k d' y ds s ihParams ihResult =>
      apply isJoin_of_incomparable
      intro _ _ outcome
      rw [join_functions outcome]
      by_cases arities : n = k
      · subst arities
        simp only [dite_true]
        exact isJoin_functions (fun i => ihParams i i) ihResult
      · simp only [dif_neg arities]
        exact isJoin_functions_general arities
  | objects c c' =>
      apply isJoin_of_incomparable
      intro below above outcome
      rw [join_objects outcome]
      rw [below_object_iff] at below above
      exact isJoin_objects below above
  | nodes a b single single' families =>
      apply isJoin_of_incomparable
      intro below above outcome
      rw [join_nodes outcome single single' families]
      exact isJoin_nodes below above single single' families

/-- The join of two types is an upper bound, and below every upper bound that does not
mention `general`. -/
theorem join_isLeastUpperBound (a b c : Ty) :
    a ≤ a.join b ∧ b ≤ a.join b ∧
      (c.HasPaths → c.GeneralFree → a ≤ c → b ≤ c → a.join b ≤ c) := by
  simp only [le_iff_below]
  have bound := join_isJoin a b
  exact ⟨bound.left, bound.right,
    fun paths free => bound.best c (regular_of_generalFree paths free)⟩

theorem join_isLeastUpperBound_nested :
    (base .int).join (arrayOf (base .int) (some 2)) ≤ arrayOf (arrayOf (base .int) none) none := by
  have element : Below (base .int) (arrayOf (base .int) none) :=
    .widen rfl (by simp) rfl (.refl _)
  refine (join_isLeastUpperBound _ _ (arrayOf (arrayOf (base .int) none) none)).2.2 ?_ ?_
    (le_iff_below.2 (.widen rfl (by simp) rfl element))
    (le_iff_below.2 (.array (.inl rfl) element))
  · simp
  · simp [GeneralFree, Everywhere, arrayOf]

end Ty

end DataflowTypes
