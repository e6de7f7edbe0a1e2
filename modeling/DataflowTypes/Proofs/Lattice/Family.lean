import DataflowTypes.Proofs.Lattice.Correspondence
import DataflowTypes.Proofs.Lattice.JoinLaws
import DataflowTypes.Proofs.Lattice.Meet

/-!
# The rules of the families and the lattice

The lattice answers for equal and for comparable types without looking at their
components.  The rule of their family would have given the same: comparing by rule
reflects the order, the meet by rule is a greatest lower bound, and joining comparable
types by rule gives back the greater one, component by component.  Only the class of
the empty path is not given back, since an empty common path means no common class.
-/

namespace DataflowTypes

/-! ## Classes -/

namespace ObjectClass

variable {c c' : ObjectClass}

theorem meet_eq_left (h : c.Below c') : c.meet c' = c := by
  have outcome := (compare_reflects c c').atMost.2 h
  unfold meet
  cases o : c.compare c' <;> simp [o, Comparison.isAtMost] at outcome ⊢

theorem meet_eq_right (h : c'.Below c) : c.meet c' = c' := by
  by_cases below : c.Below c'
  · rw [meet_eq_left below, below.antisymm h]
  · have outcome : c.compare c' = .higher :=
      (compare_reflects c c').unique (Comparison.reflects_higher_iff.2 ⟨below, h⟩)
    rw [meet, outcome]

theorem commonPath_eq_right {p q : List String} (h : q <+: p) : commonPath p q = q := by
  obtain ⟨-, below⟩ := prefix_commonPath_iff.1 (List.prefix_refl (commonPath p q))
  exact below.eq_of_length_le (prefix_commonPath_iff.2 ⟨h, List.prefix_refl q⟩).length_le

theorem join_named {p q : List String} (path : commonPath p q ≠ []) :
    (named p).join (named q) = named (commonPath p q) := by
  rw [join]
  cases shared : commonPath p q with
  | nil => exact absurd shared path
  | cons => rfl

theorem join_eq_right (h : c.Below c') (path : c' ≠ named []) : c.join c' = c' := by
  cases c with
  | named p =>
      cases c' with
      | named q =>
          have shared := commonPath_eq_right h
          have rooted : q ≠ [] := fun none => path (congrArg named none)
          rw [join_named (by rwa [shared]), shared]
      | _ => simp_all [Below, join, compare]
  | _ => cases c' <;> simp_all [Below, join, compare]

theorem join_eq_left (h : c'.Below c) (path : c ≠ named []) : c.join c' = c := by
  cases c with
  | named p =>
      cases c' with
      | named q =>
          have shared := (commonPath_comm p q).trans (commonPath_eq_right h)
          have rooted : p ≠ [] := fun none => path (congrArg named none)
          rw [join_named (by rwa [shared]), shared]
      | _ => simp_all [Below, join, compare]
  | _ => cases c' <;> simp_all [Below, join, compare]

end ObjectClass

namespace Ty

variable {a b : Ty}

inductive Akin : Ty → Ty → Prop
  | arrays {d x d' y : Ty} {dl n dl' k : Option Nat} :
      Akin (array d x dl n) (array d' y dl' k)
  | records {ls ls' : NameSet} {d x : ls.Member → Ty} {d' y : ls'.Member → Ty} :
      Akin (record ls d x) (record ls' d' y)
  | unions {ls ls' : NameSet} {d x : ls.Member → Ty} {d' y : ls'.Member → Ty} :
      Akin (union ls d x) (union ls' d' y)
  | functions {n k : Nat} {d x : Fin n → Ty} {d' y : Fin k → Ty} {dr r ds s : Ty} :
      Akin (function n d x dr r) (function k d' y ds s)
  | objects {c c' : ObjectClass} : Akin (object c) (object c')

private theorem akin_of_family?_eq (structured : a.isStructured = true)
    (family : a.family? = b.family?) : Akin a b := by
  cases a with
  | array => cases b with
    | array => exact .arrays
    | _ => cases family
  | record => cases b with
    | record => exact .records
    | _ => cases family
  | union => cases b with
    | union => exact .unions
    | _ => cases family
  | function => cases b with
    | function => exact .functions
    | _ => cases family
  | object => cases b with
    | object => exact .objects
    | _ => cases family
  | _ => cases structured

/-! ## Comparisons -/

private theorem plain_familyCompare? (akin : Akin a b) :
    Lattice.plain.familyCompare? a b = some (pure (a.compare b)) := by
  have outcome {o : Comparison} (h : o.Reflects (Below a b) (Below b a)) :
      o = a.compare b := h.unique (compare_reflects a b)
  cases akin with
  | arrays => exact congrArg some (outcome (arrays_reflects (compare_reflects _ _)))
  | records => exact congrArg some (outcome (records_reflects fun _ _ => compare_reflects _ _))
  | unions => exact congrArg some (outcome (unions_reflects fun _ _ => compare_reflects _ _))
  | functions =>
      refine congrArg some (outcome ?_)
      exact functions_reflects (fun _ _ => compare_reflects _ _) (compare_reflects _ _)
  | objects => exact congrArg some (outcome (objects_reflects _ _))

/-! ## Meets -/

theorem isMeet_unique {m m' : Ty} (h : IsMeet m a b) (h' : IsMeet m' a b) : (m == m') = true :=
  (h'.best m trivial h.left h.right).beq (h.best m' trivial h'.left h'.right)

private theorem exists_plain_familyMeet? (akin : Akin a b) :
    ∃ m, Lattice.plain.familyMeet? a b = some (pure m) ∧ (m == a.meet b) = true := by
  cases akin with
  | arrays =>
      refine ⟨_, rfl, isMeet_unique ?_ (meet_isMeet _ _)⟩
      exact isMeet_arrays (meet_isMeet _ _)
  | @records ls ls' d x d' y =>
      refine ⟨_, rfl, isMeet_unique ?_ (meet_isMeet _ _)⟩
      exact isMeet_records (Rules.get?_unitedRow x y meet) fun _ _ => meet_isMeet _ _
  | @unions ls ls' d x d' y =>
      refine ⟨_, rfl, isMeet_unique ?_ (meet_isMeet _ _)⟩
      exact isMeet_unions (Rules.get?_sharedRow x y meet) fun _ _ => meet_isMeet _ _
  | @functions n k d x d' y dr r ds s =>
      by_cases arities : n = k
      · subst arities
        have rule := Rules.combineFunctions_eq (fun i => (x i).meet (y i)) (r.meet s)
        refine ⟨_, congrArg some ((dif_pos rfl).trans rule), isMeet_unique ?_ (meet_isMeet _ _)⟩
        exact isMeet_functions (fun _ => meet_isMeet _ _) (meet_isMeet _ _)
      · refine ⟨_, congrArg some (dif_neg arities), isMeet_unique ?_ (meet_isMeet _ _)⟩
        exact isMeet_functions_unknown arities
  | @objects c c' =>
      refine ⟨_, rfl, isMeet_unique ?_ (meet_isMeet _ _)⟩
      by_cases below : c.Below c'
      · rw [ObjectClass.meet_eq_left below]
        exact .of_related (.refl _) (.object below)
      by_cases above : c'.Below c
      · rw [ObjectClass.meet_eq_right above]
        exact .symm (.of_related (.refl _) (.object above))
      · exact isMeet_objects below above

/-! ## Joins -/

structure IsGreater (j a b : Ty) : Prop where
  right : Below a b → (j == b) = true
  left : Below b a → (j == a) = true

theorem join_isGreater (a b : Ty) : IsGreater (a.join b) a b where
  right below := by
    rw [join_eq_right below]
    exact BEq.rfl
  left := join_beq_left

private theorem isGreater_arrays {d x d' y e : Ty} {dl n dl' k : Option Nat}
    (elements : IsGreater e x y) :
    IsGreater (arrayOf e (if n = k then n else none)) (array d x dl n) (array d' y dl' k) := by
  constructor
  · intro below
    obtain ⟨lengths, element⟩ := below_array_iff.1 below
    refine beq_array_iff.2 ⟨?_, elements.right element⟩
    rcases lengths with rfl | rfl <;> simp
  · intro above
    obtain ⟨lengths, element⟩ := below_array_iff.1 above
    refine beq_array_iff.2 ⟨?_, elements.left element⟩
    rcases lengths with rfl | rfl <;> simp

section Rows

variable {ls ls' : NameSet} {d x : ls.Member → Ty} {d' y : ls'.Member → Ty}
  {f : Ty → Ty → Ty} {row : Row Ty}

theorem ofFields_beq_record (h : ∀ l, (row.get? l == ls.find? x l) = true) :
    (ofFields row == record ls d x) = true :=
  @ofFields_beq row ⟨ls, x⟩ h

theorem ofAlternatives_beq_union (h : ∀ l, (row.get? l == ls.find? x l) = true) :
    (ofAlternatives row == union ls d x) = true :=
  @ofAlternatives_beq row ⟨ls, x⟩ h

private theorem isGreater_records
    (hrow : ∀ l, row.get? l = (ls.find? x l).bind fun s => (ls'.find? y l).map fun t => f s t)
    (fields : ∀ l l', IsGreater (f (x l) (y l')) (x l) (y l')) :
    IsGreater (ofFields row) (record ls d x) (record ls' d' y) := by
  have component := find?_components (P := fun s t => IsGreater (f s t) s t) fields
  constructor
  · intro below
    refine ofFields_beq_record fun l => ?_
    rw [hrow]
    cases ht : ls'.find? y l with
    | none => simp
    | some t =>
        obtain ⟨s, hs, lower⟩ := below_record_iff_covers.1 below l t ht
        simpa [hs] using (component l s t hs ht).right lower
  · intro above
    refine ofFields_beq_record fun l => ?_
    rw [hrow]
    cases hs : ls.find? x l with
    | none => simp
    | some s =>
        obtain ⟨t, ht, lower⟩ := below_record_iff_covers.1 above l s hs
        simpa [ht] using (component l s t hs ht).left lower

private theorem isGreater_unions
    (hrow : ∀ l, row.get? l = Option.merge f (ls.find? x l) (ls'.find? y l))
    (alternatives : ∀ l l', IsGreater (f (x l) (y l')) (x l) (y l')) :
    IsGreater (ofAlternatives row) (union ls d x) (union ls' d' y) := by
  have component := find?_components (P := fun s t => IsGreater (f s t) s t) alternatives
  constructor
  · intro below
    refine ofAlternatives_beq_union fun l => ?_
    rw [hrow]
    cases hs : ls.find? x l with
    | none => simp
    | some s =>
        obtain ⟨t, ht, lower⟩ := below_union_iff_covers.1 below l s hs
        simpa [ht] using (component l s t hs ht).right lower
  · intro above
    refine ofAlternatives_beq_union fun l => ?_
    rw [hrow]
    cases ht : ls'.find? y l with
    | none => simp
    | some t =>
        obtain ⟨s, hs, lower⟩ := below_union_iff_covers.1 above l t ht
        simpa [hs] using (component l s t hs ht).left lower

end Rows

private theorem isGreater_functions {n : Nat} {d x d' y z : Fin n → Ty} {dr r ds s t : Ty}
    (params : ∀ i, IsGreater (z i) (x i) (y i)) (result : IsGreater t r s) :
    IsGreater (function n z z t t) (function n d x dr r) (function n d' y ds s) := by
  constructor
  · intro below
    obtain ⟨_, lower, lowerResult⟩ := below_function_iff.1 below
    exact beq_function_iff.2 ⟨rfl, fun i => (params i).right (lower i), result.right lowerResult⟩
  · intro above
    obtain ⟨_, lower, lowerResult⟩ := below_function_iff.1 above
    exact beq_function_iff.2 ⟨rfl, fun i => (params i).left (lower i), result.left lowerResult⟩

private theorem isGreater_functions_general {n k : Nat} {d x : Fin n → Ty} {d' y : Fin k → Ty}
    {dr r ds s : Ty} (arities : n ≠ k) :
    IsGreater general (function n d x dr r) (function k d' y ds s) := by
  constructor
  · intro below
    exact absurd (below_function_iff.1 below).1 arities
  · intro above
    exact absurd (below_function_iff.1 above).1.symm arities

private theorem isGreater_objects {c c' : ObjectClass} (path : c ≠ .named [])
    (path' : c' ≠ .named []) : IsGreater (object (c.join c')) (object c) (object c') where
  right below := beq_object_iff.2 (ObjectClass.join_eq_right (below_object_iff.1 below) path')
  left above := beq_object_iff.2 (ObjectClass.join_eq_left (below_object_iff.1 above) path)

theorem beq_join {j : Ty} (rule : a.compare b = .incomparable → a.join b = j)
    (greater : IsGreater j a b) : (j == a.join b) = true := by
  refine join_cases (P := fun t => (j == t) = true) greater.left greater.right
    fun _ _ outcome => ?_
  rw [rule outcome]
  exact BEq.rfl

private theorem exists_plain_familyJoin? (akin : Akin a b) (ha : a ≠ object (.named []))
    (hb : b ≠ object (.named [])) :
    ∃ j, Lattice.plain.familyJoin? a b = some (pure j) ∧ (j == a.join b) = true := by
  cases akin with
  | arrays =>
      refine ⟨_, rfl, beq_join join_arrays ?_⟩
      exact isGreater_arrays (join_isGreater _ _)
  | @records ls ls' d x d' y =>
      refine ⟨_, rfl, beq_join join_records ?_⟩
      exact isGreater_records (Rules.get?_sharedRow x y join) fun _ _ => join_isGreater _ _
  | @unions ls ls' d x d' y =>
      refine ⟨_, rfl, beq_join join_unions ?_⟩
      exact isGreater_unions (Rules.get?_unitedRow x y join) fun _ _ => join_isGreater _ _
  | @functions n k d x d' y dr r ds s =>
      by_cases arities : n = k
      · subst arities
        have rule := Rules.combineFunctions_eq (fun i => (x i).join (y i)) (r.join s)
        refine ⟨_, congrArg some ((dif_pos rfl).trans rule),
          beq_join (fun outcome => (join_functions outcome).trans (dif_pos rfl)) ?_⟩
        exact isGreater_functions (fun _ => join_isGreater _ _) (join_isGreater _ _)
      · refine ⟨_, congrArg some (dif_neg arities),
          beq_join (fun outcome => (join_functions outcome).trans (dif_neg arities)) ?_⟩
        exact isGreater_functions_general arities
  | @objects c c' =>
      refine ⟨_, rfl, beq_join join_objects (isGreater_objects ?_ ?_)⟩
      · exact fun none => ha (congrArg object none)
      · exact fun none => hb (congrArg object none)

end Ty

/-! ## With a memo table -/

namespace Lattice

open Ty

variable {m n : Type → Type} [Monad m] [Monad n] (R : Correspondence m n) {L : Lattice m}
  {K : Lattice n} {a b : Ty}

section Related

variable (h : ∀ a b, R.Related (L.compare a b) (K.compare a b))

include h

private theorem familyCompare?_related (akin : Akin a b) :
    ∃ x y, L.familyCompare? a b = some x ∧ K.familyCompare? a b = some y ∧ R.Related x y := by
  cases akin with
  | arrays => exact ⟨_, _, rfl, rfl, Rules.compareArrays_related R (h _ _)⟩
  | records => exact ⟨_, _, rfl, rfl, Rules.compareShared_related R (fun _ _ => h _ _) _ _⟩
  | unions => exact ⟨_, _, rfl, rfl, Rules.compareShared_related R (fun _ _ => h _ _) _ _⟩
  | functions =>
      refine ⟨_, _, rfl, rfl, R.dite (fun _ => ?_) fun _ => R.pure _⟩
      exact Rules.compareFunctions_related R (fun _ => h _ _) (h _ _)
  | objects => exact ⟨_, _, rfl, rfl, R.pure _⟩

private theorem familyMeet?_related (akin : Akin a b) :
    ∃ x y, L.familyMeet? a b = some x ∧ K.familyMeet? a b = some y ∧ R.Related x y := by
  have meets := meet_related R h
  cases akin with
  | arrays => exact ⟨_, _, rfl, rfl, Rules.meetArrays_related R (meets _ _)⟩
  | records =>
      refine ⟨_, _, rfl, rfl, R.bind ?_ fun _ => R.pure _⟩
      exact Rules.unitedRow_related R _ _ fun _ _ => meets _ _
  | unions =>
      refine ⟨_, _, rfl, rfl, R.bind ?_ fun _ => R.pure _⟩
      exact Rules.sharedRow_related R fun _ _ => meets _ _
  | functions =>
      refine ⟨_, _, rfl, rfl, R.dite (fun _ => ?_) fun _ => R.pure _⟩
      exact Rules.combineFunctions_related R (fun _ => meets _ _) (meets _ _)
  | objects => exact ⟨_, _, rfl, rfl, R.pure _⟩

private theorem familyJoin?_related (akin : Akin a b) :
    ∃ x y, L.familyJoin? a b = some x ∧ K.familyJoin? a b = some y ∧ R.Related x y := by
  have joins := join_related R h
  cases akin with
  | arrays => exact ⟨_, _, rfl, rfl, Rules.joinArrays_related R (joins _ _)⟩
  | records =>
      refine ⟨_, _, rfl, rfl, R.bind ?_ fun _ => R.pure _⟩
      exact Rules.sharedRow_related R fun _ _ => joins _ _
  | unions =>
      refine ⟨_, _, rfl, rfl, R.bind ?_ fun _ => R.pure _⟩
      exact Rules.unitedRow_related R _ _ fun _ _ => joins _ _
  | functions =>
      refine ⟨_, _, rfl, rfl, R.dite (fun _ => ?_) fun _ => R.pure _⟩
      exact Rules.combineFunctions_related R (fun _ => joins _ _) (joins _ _)
  | objects => exact ⟨_, _, rfl, rfl, R.pure _⟩

end Related

theorem fst_run_of_related {α : Type} {x : Memo α} {y : Id α} {memo : Option Cache}
    (h : memoCorrespondence.Related x y) (sound : SoundMemo memo) :
    (Id.run (x.run memo)).1 = Id.run y := by
  obtain ⟨memo', -, -, run⟩ := h memo sound
  rw [run]

/-- For two types of one family the lattice gives what the rule of the family gives, although
it answers for equal and comparable types without the rule.  Neither depends on what the memo
table was used for before.  Only joins with the class of the empty path are left out. -/
theorem familyRules_agree (structured : a.isStructured = true) (family : a.family? = b.family?)
    {memo memo' : Option Cache} (sound : SoundMemo memo) (sound' : SoundMemo memo') :
    (∃ rule, memoized.familyCompare? a b = some rule ∧
        (Id.run (rule.run memo)).1 = (Id.run ((memoized.compare a b).run memo')).1) ∧
      (∃ rule, memoized.familyMeet? a b = some rule ∧
        ((Id.run (rule.run memo)).1 == (Id.run ((memoized.meet a b).run memo')).1) = true) ∧
      (a ≠ object (.named []) → b ≠ object (.named []) →
        ∃ rule, memoized.familyJoin? a b = some rule ∧
          ((Id.run (rule.run memo)).1 == (Id.run ((memoized.join a b).run memo')).1) = true) := by
  have akin := akin_of_family?_eq structured family
  have compares := memoized_compare_related
  refine ⟨?_, ?_, ?_⟩
  · obtain ⟨x, y, rule, plainRule, related⟩ := familyCompare?_related _ compares akin
    obtain rfl : pure (a.compare b) = y :=
      Option.some.inj ((plain_familyCompare? akin).symm.trans plainRule)
    refine ⟨x, rule, ?_⟩
    rw [fst_run_of_related related sound, fst_run_of_related (compares a b) sound']
    rfl
  · obtain ⟨x, y, rule, plainRule, related⟩ := familyMeet?_related _ compares akin
    obtain ⟨t, plainMeet, same⟩ := exists_plain_familyMeet? akin
    obtain rfl : pure t = y := Option.some.inj (plainMeet.symm.trans plainRule)
    refine ⟨x, rule, ?_⟩
    rw [fst_run_of_related related sound, fst_run_of_related (meet_related _ compares a b) sound']
    exact same
  · intro ha hb
    obtain ⟨x, y, rule, plainRule, related⟩ := familyJoin?_related _ compares akin
    obtain ⟨t, plainJoin, same⟩ := exists_plain_familyJoin? akin ha hb
    obtain rfl : pure t = y := Option.some.inj (plainJoin.symm.trans plainRule)
    refine ⟨x, rule, ?_⟩
    rw [fst_run_of_related related sound, fst_run_of_related (join_related _ compares a b) sound']
    exact same

theorem familyRules_agree_classes :
    ∃ rule, memoized.familyJoin? (arrayOf (objectOf ["shape", "disc"]) (some 1))
        (arrayOf (objectOf ["shape"]) none) = some rule ∧
      ((Id.run (rule.run none)).1 ==
        (Id.run ((memoized.join (arrayOf (objectOf ["shape", "disc"]) (some 1))
          (arrayOf (objectOf ["shape"]) none)).run (some .empty))).1) = true := by
  have uncached : SoundMemo none := fun _ h => by cases h
  have fresh : SoundMemo (some .empty) := by
    rintro _ ⟨⟩
    exact Cache.sound_empty
  obtain ⟨-, -, joins⟩ := familyRules_agree (a := arrayOf (objectOf ["shape", "disc"]) (some 1))
    (b := arrayOf (objectOf ["shape"]) none) rfl rfl uncached fresh
  exact joins (by simp [arrayOf]) (by simp [arrayOf])

end Lattice

end DataflowTypes
