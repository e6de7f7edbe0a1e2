import DataflowTypes.Proofs.Lattice.JoinLaws

/-!
# Components of joins

A slot is a place at which types of one family have a component.  What is below a
type that has a slot has the slot as well, so bounds can be followed slot by slot.
To make this hold without exceptions, a single type counts as an array of itself, a
union as having every alternative, and `unknown` as having every slot.  The only
type without any is `general`.

Main statement: the component of a join is the join of the components, except that
two single types may have the join `general`.
-/

namespace DataflowTypes

inductive Slot
  | element
  | field (label : String)
  | alternative (label : String)
  | param (arity : Nat) (index : Fin arity)
  | result (arity : Nat)

namespace Ty

def part? : Ty → Slot → Option Ty
  | base .unknown, _ => some unknown
  | base .general, _ => none
  | array _ r _ _, .element => some r
  | t, .element => some t
  | record ls _ r, .field l => ls.find? r l
  | union ls _ r, .alternative l => some ((ls.find? r l).getD unknown)
  | function k _ r _ _, .param n i => if h : n = k then some (r (i.cast h)) else none
  | function k _ _ _ s, .result n => if n = k then some s else none
  | _, _ => none

variable {a b s t u : Ty} {slot : Slot}

@[simp] theorem part?_unknown : unknown.part? slot = some unknown := rfl

@[simp] theorem part?_general : general.part? slot = none := rfl

/-! ## Which types have a slot -/

theorem part?_element_iff :
    t.part? .element = some u ↔
      (∃ d dl n, t = array d u dl n) ∨ t.isArray = false ∧ t ≠ general ∧ u = t := by
  cases t with
  | base b => cases b <;> simp [part?, isArray, family?, @eq_comm _ _ u]
  | _ => simp [part?, isArray, family?, @eq_comm _ _ u]

theorem part?_field_iff {l : String} :
    t.part? (.field l) = some u ↔
      t = unknown ∧ u = unknown ∨ ∃ ls d x, t = record ls d x ∧ ls.find? x l = some u := by
  cases t with
  | base b => cases b <;> simp [part?, @eq_comm _ _ u]
  | record ls d x =>
      constructor
      · intro h
        exact .inr ⟨ls, d, x, rfl, h⟩
      · rintro (⟨h, -⟩ | ⟨_, _, _, h, found⟩) <;> cases h
        exact found
  | _ => simp [part?]

theorem part?_alternative_iff {l : String} :
    t.part? (.alternative l) = some u ↔
      t = unknown ∧ u = unknown ∨
        ∃ ls d x, t = union ls d x ∧ (ls.find? x l).getD unknown = u := by
  cases t with
  | base b => cases b <;> simp [part?, @eq_comm _ _ u]
  | union ls d x =>
      constructor
      · intro h
        exact .inr ⟨ls, d, x, rfl, Option.some.inj h⟩
      · rintro (⟨h, -⟩ | ⟨_, _, _, h, found⟩) <;> cases h
        exact congrArg some found
  | _ => simp [part?]

theorem part?_param_iff {n : Nat} {i : Fin n} :
    t.part? (.param n i) = some u ↔
      t = unknown ∧ u = unknown ∨ ∃ d x ds s, t = function n d x ds s ∧ x i = u := by
  cases t with
  | base b => cases b <;> simp [part?, @eq_comm _ _ u]
  | function k d x ds s =>
      by_cases arity : n = k
      · subst arity
        constructor
        · intro h
          exact .inr ⟨d, x, ds, s, rfl, by simpa [part?] using h⟩
        · rintro (⟨h, -⟩ | ⟨_, _, _, _, h, found⟩) <;> cases h
          simpa [part?] using found
      · simp [part?, arity, Ne.symm arity]
  | _ => simp [part?]

theorem part?_result_iff {n : Nat} :
    t.part? (.result n) = some u ↔
      t = unknown ∧ u = unknown ∨ ∃ d x ds, t = function n d x ds u := by
  cases t with
  | base b => cases b <;> simp [part?, @eq_comm _ _ u]
  | function k d x ds s =>
      by_cases arity : n = k
      · subst arity
        simp [part?, @eq_comm _ _ u]
      · simp [part?, arity, Ne.symm arity]
  | _ => simp [part?]

/-! ## Slots and the order -/

private theorem Below.part?_element (h : Below a b) (hb : b.part? .element = some u) :
    ∃ s, a.part? .element = some s ∧ Below s u := by
  rcases part?_element_iff.1 hb with ⟨d, dl, n, rfl⟩ | ⟨single, proper, rfl⟩
  · cases ha : a.isArray with
    | true =>
        obtain ⟨_, x, _, _, rfl⟩ := isArray_iff.1 ha
        exact ⟨x, rfl, (below_array_iff.1 h).2⟩
    | false =>
        rcases (single_below_array_iff ha).1 h with rfl | ⟨proper, -, element⟩
        · exact ⟨unknown, rfl, .bottom u⟩
        · exact ⟨a, part?_element_iff.2 (.inr ⟨ha, proper, rfl⟩), element⟩
  · obtain ⟨ha, proper'⟩ := h.single single proper
    exact ⟨a, part?_element_iff.2 (.inr ⟨ha, proper', rfl⟩), h⟩

theorem Below.part? (h : Below a b) (hb : b.part? slot = some u) :
    ∃ s, a.part? slot = some s ∧ Below s u := by
  by_cases known : a = unknown
  · rw [known]
    exact ⟨unknown, rfl, .bottom u⟩
  -- What is left is of the family of `b`, unless the slot is that of elements.
  cases slot with
  | element => exact h.part?_element hb
  | field l =>
      rcases part?_field_iff.1 hb with ⟨rfl, rfl⟩ | ⟨ls', d', y, rfl, found⟩
      · exact absurd (below_unknown_iff.1 h) known
      have family := (h.eq_unknown_or_family?_eq rfl rfl).resolve_left known
      cases a with
      | record => exact below_record_iff_covers.1 h l u found
      | _ => simp [family?] at family
  | alternative l =>
      rcases part?_alternative_iff.1 hb with ⟨rfl, rfl⟩ | ⟨ls', d', y, rfl, rfl⟩
      · exact absurd (below_unknown_iff.1 h) known
      have family := (h.eq_unknown_or_family?_eq rfl rfl).resolve_left known
      cases a with
      | union ls d x =>
          refine ⟨_, rfl, ?_⟩
          cases hs : ls.find? x l with
          | none => exact .bottom _
          | some s =>
              obtain ⟨t, ht, below⟩ := below_union_iff_covers.1 h l s hs
              rw [ht]
              exact below
      | _ => simp [family?] at family
  | param n i =>
      rcases part?_param_iff.1 hb with ⟨rfl, rfl⟩ | ⟨d', y, ds', s', rfl, rfl⟩
      · exact absurd (below_unknown_iff.1 h) known
      have family := (h.eq_unknown_or_family?_eq rfl rfl).resolve_left known
      cases a with
      | function =>
          obtain ⟨rfl, params, -⟩ := below_function_iff.1 h
          exact ⟨_, part?_param_iff.2 (.inr ⟨_, _, _, _, rfl, rfl⟩), params i⟩
      | _ => simp [family?] at family
  | result n =>
      rcases part?_result_iff.1 hb with ⟨rfl, rfl⟩ | ⟨d', y, ds', rfl⟩
      · exact absurd (below_unknown_iff.1 h) known
      have family := (h.eq_unknown_or_family?_eq rfl rfl).resolve_left known
      cases a with
      | function =>
          obtain ⟨rfl, -, result⟩ := below_function_iff.1 h
          exact ⟨_, part?_result_iff.2 (.inr ⟨_, _, _, rfl⟩), result⟩
      | _ => simp [family?] at family

theorem Below.part?_le (h : Below a b) (ha : a.part? slot = some s)
    (hb : b.part? slot = some t) : Below s t := by
  obtain ⟨s', hs', below⟩ := h.part? hb
  rw [ha] at hs'
  rw [Option.some.inj hs']
  exact below

theorem part?_beq (h : (a == b) = true) (ha : a.part? slot = some s)
    (hb : b.part? slot = some t) : (s == t) = true := by
  obtain ⟨below, above⟩ := below_of_beq h
  exact (below.part?_le ha hb).beq (above.part?_le hb ha)

/-! ## Slots of joins -/

theorem isArray_join (ha : a.isArray = false) (hb : b.isArray = false) :
    (a.join b).isArray = false := by
  refine join_cases (P := fun j => j.isArray = false) (fun _ => ha) (fun _ => hb)
    fun below above outcome => ?_
  induction a, b using pair_induction with
  | arrays => simp [isArray, family?] at ha
  | arraySingle => simp [isArray, family?] at ha
  | singleArray => simp [isArray, family?] at hb
  | records =>
      rw [join_records outcome]
      rfl
  | unions =>
      rw [join_unions outcome]
      rfl
  | functions =>
      rw [join_functions outcome]
      split <;> rfl
  | objects =>
      rw [join_objects outcome]
      rfl
  | nodes a b _ _ families =>
      rw [join_nodes outcome ha hb families]
      exact isArray_eq_false (ofNode_flat (join_node_ne_family below above families)).1

private theorem join_part?_element (outcome : a.compare b = .incomparable)
    (ha : a.part? .element = some s) (hb : b.part? .element = some t) :
    (a.isArray = false ∧ b.isArray = false ∧ a.join b = general) ∨
      ∃ u, (a.join b).part? .element = some u ∧ (u == s.join t) = true := by
  rcases part?_element_iff.1 ha with ⟨_, _, _, rfl⟩ | ⟨single, proper, rfl⟩
  · rcases part?_element_iff.1 hb with ⟨_, _, _, rfl⟩ | ⟨single', proper', rfl⟩
    · rw [join_arrays outcome]
      exact .inr ⟨_, rfl, BEq.rfl⟩
    · rw [join_array_single single' outcome]
      exact .inr ⟨_, rfl, join_comm _ _⟩
  · rcases part?_element_iff.1 hb with ⟨_, _, _, rfl⟩ | ⟨single', proper', rfl⟩
    · rw [join_single_array single outcome]
      exact .inr ⟨_, rfl, BEq.rfl⟩
    · by_cases top : s.join t = general
      · exact .inl ⟨single, single', top⟩
      · have joined := part?_element_iff.2 (.inr ⟨isArray_join single single', top, rfl⟩)
        exact .inr ⟨_, joined, BEq.rfl⟩

/-- The component of a join is the join of the components.  Of single types alone the join
can be `general`, which has no component. -/
theorem join_part? (ha : a.part? slot = some s) (hb : b.part? slot = some t) :
    (slot = .element ∧ a.isArray = false ∧ b.isArray = false ∧ a.join b = general) ∨
      ∃ u, (a.join b).part? slot = some u ∧ (u == s.join t) = true := by
  by_cases below : Below a b
  · rw [join_eq_right below, join_eq_right (below.part?_le ha hb)]
    exact .inr ⟨t, hb, BEq.rfl⟩
  by_cases above : Below b a
  · rw [join_eq_left above below]
    exact .inr ⟨s, ha, BEq.symm (join_beq_left (above.part?_le hb ha))⟩
  have outcome := compare_eq_incomparable below above
  have known : a ≠ unknown := fun h => below (h ▸ .bottom b)
  have known' : b ≠ unknown := fun h => above (h ▸ .bottom a)
  cases slot with
  | element => exact (join_part?_element outcome ha hb).imp_left fun h => ⟨rfl, h⟩
  | field l =>
      obtain ⟨ls, d, x, rfl, hs⟩ := (part?_field_iff.1 ha).resolve_left fun h => known h.1
      obtain ⟨ls', d', y, rfl, ht⟩ := (part?_field_iff.1 hb).resolve_left fun h => known' h.1
      have shared := Rules.get?_sharedRow x y join l
      rw [hs, ht] at shared
      rw [join_records outcome]
      exact .inr ⟨s.join t, shared, BEq.rfl⟩
  | alternative l =>
      obtain ⟨ls, d, x, rfl, rfl⟩ := (part?_alternative_iff.1 ha).resolve_left fun h => known h.1
      obtain ⟨ls', d', y, rfl, rfl⟩ :=
        (part?_alternative_iff.1 hb).resolve_left fun h => known' h.1
      rw [join_unions outcome]
      refine .inr ⟨_, ?_, BEq.rfl⟩
      change some ((Row.get? _ l).getD unknown) = _
      rw [Rules.get?_unitedRow x y join l]
      cases ls.find? x l <;> cases ls'.find? y l <;> simp [join_unknown, unknown_join]
  | param n i =>
      obtain ⟨d, x, dr, r, rfl, rfl⟩ := (part?_param_iff.1 ha).resolve_left fun h => known h.1
      obtain ⟨d', y, ds, s, rfl, rfl⟩ := (part?_param_iff.1 hb).resolve_left fun h => known' h.1
      rw [join_functions outcome, dif_pos rfl]
      exact .inr ⟨_, part?_param_iff.2 (.inr ⟨_, _, _, _, rfl, rfl⟩), BEq.rfl⟩
  | result n =>
      obtain ⟨d, x, dr, rfl⟩ := (part?_result_iff.1 ha).resolve_left fun h => known h.1
      obtain ⟨d', y, ds, rfl⟩ := (part?_result_iff.1 hb).resolve_left fun h => known' h.1
      rw [join_functions outcome, dif_pos rfl]
      exact .inr ⟨_, part?_result_iff.2 (.inr ⟨_, _, _, rfl⟩), BEq.rfl⟩

/-! ## Equality by slots -/

inductive SameShape : Ty → Ty → Prop
  | array {d x d' y : Ty} {dl n dl' : Option Nat} :
      SameShape (array d x dl n) (array d' y dl' n)
  | record {ls : NameSet} {d x d' y : ls.Member → Ty} :
      SameShape (record ls d x) (record ls d' y)
  | union {ls : NameSet} {d x d' y : ls.Member → Ty} : SameShape (union ls d x) (union ls d' y)
  | function {n : Nat} {d x d' y : Fin n → Ty} {dr r ds s : Ty} :
      SameShape (function n d x dr r) (function n d' y ds s)

theorem SameShape.beq (h : SameShape a b)
    (parts : ∀ slot s t, s.depth < a.depth → a.part? slot = some s → b.part? slot = some t →
      (s == t) = true) :
    (a == b) = true := by
  cases h with
  | array => exact beq_array_iff.2 ⟨rfl, parts .element _ _ (depth_element_lt ..) rfl rfl⟩
  | record =>
      exact (beq_row_iff (k := .record)).2 ⟨rfl, fun l h => parts (.field l.1) _ _
        (depth_field_lt ..) (NameSet.find?_member _ _ l) (NameSet.find?_member _ _ ⟨l.1, h⟩)⟩
  | @union ls _ x _ y =>
      refine (beq_row_iff (k := .union)).2 ⟨rfl, fun l h => parts (.alternative l.1) _ _
        (depth_alternative_lt ..) ?_ ?_⟩
      · simp [part?]
      · simp [part?]
  | @function n =>
      refine beq_function_iff.2 ⟨rfl, fun i => parts (.param n i) _ _ (depth_param_lt ..) ?_ ?_,
        parts (.result n) _ _ (depth_result_lt ..) ?_ ?_⟩ <;> simp [part?]

theorem depth_eq_of_beq (h : (a == b) = true) : a.depth = b.depth := by
  induction a using rowInduction generalizing b with
  | base => rw [eq_of_flat_beq rfl h]
  | matrix => rw [eq_of_flat_beq rfl h]
  | array _ _ _ _ _ ih =>
      obtain ⟨_, _, _, rfl, element⟩ := eq_array_of_beq h
      simp only [depth, ih element]
  | row k _ _ _ _ ih =>
      obtain ⟨_, _, rfl, components⟩ := eq_row_of_beq h
      cases k <;> simp only [row, depth, fun l => ih l (components l)]
  | function _ _ _ _ _ _ ihParams _ ihResult =>
      obtain ⟨_, _, _, _, rfl, params, result⟩ := eq_function_of_beq h
      simp only [depth, fun i => ihParams i (params i), ihResult result]
  | object => rw [eq_object_of_beq h]

theorem HasPaths.part? (h : t.HasPaths) (found : t.part? slot = some u) : u.HasPaths := by
  cases slot with
  | element =>
      rcases part?_element_iff.1 found with ⟨_, _, _, rfl⟩ | ⟨-, -, rfl⟩
      · exact h.2
      · exact h
  | field l =>
      rcases part?_field_iff.1 found with ⟨-, rfl⟩ | ⟨_, _, _, rfl, found⟩
      · exact hasPaths_base _
      · exact find?_component h.2 l u found
  | alternative l =>
      rcases part?_alternative_iff.1 found with ⟨-, rfl⟩ | ⟨ls, _, x, rfl, rfl⟩
      · exact hasPaths_base _
      · cases hs : ls.find? x l with
        | none => exact hasPaths_base _
        | some s => exact find?_component h.2 l s hs
  | param n i =>
      rcases part?_param_iff.1 found with ⟨-, rfl⟩ | ⟨_, _, _, _, rfl, rfl⟩
      · exact hasPaths_base _
      · exact h.2.1 i
  | result n =>
      rcases part?_result_iff.1 found with ⟨-, rfl⟩ | ⟨_, _, _, rfl⟩
      · exact hasPaths_base _
      · exact h.2.2

end Ty

end DataflowTypes
