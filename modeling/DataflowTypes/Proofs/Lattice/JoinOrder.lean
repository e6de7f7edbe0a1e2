import DataflowTypes.Proofs.Lattice.JoinAll

/-!
# The order in which a list is joined

The join of a list can depend on the order of its members.  Single types without a
common upper bound have the join `general`; but if one of them is widened into an
array first, the others follow it into the array and only its elements become
`general`.  `Torn` describes the lists in which this can happen, at the top or
within components.  Main statement: a list has one join in all orders if and only
if it is not torn.
-/

namespace DataflowTypes

namespace Ty

variable {ts ts' cs cs' : List Ty} {a b : Ty} {slot : Slot}

def OrderFree (ts : List Ty) : Prop :=
  ∀ ts', ts'.Perm ts → (joinAll ts' == joinAll ts) = true

/-- `general` is the only single type above all single members of the list. -/
def Clash (ts : List Ty) : Prop :=
  ∀ c : Ty, c.isArray = false → (∀ t ∈ ts, t.isArray = false → t ≤ c) → c = general

/-- The list has an array among its members and not `general`, while the single members
clash; or the components at a slot form such a list. -/
inductive Torn : List Ty → Prop
  | split {ts : List Ty} (proper : general ∉ ts) (array : ∃ t ∈ ts, t.isArray = true)
      (clash : Clash ts) : Torn ts
  | part {ts cs : List Ty} {slot : Slot} (parts : Parts slot ts cs) (torn : Torn cs) : Torn ts

theorem Clash.perm (clash : Clash ts) (perm : ts'.Perm ts) : Clash ts' := by
  intro c single bound
  apply clash c single
  intro t mem
  exact bound t (perm.mem_iff.2 mem)

theorem clash_iff_joinAll_eq_general :
    Clash ts ↔ joinAll (ts.filter fun t => !t.isArray) = general := by
  have singles : ∀ t ∈ ts.filter fun t => !t.isArray, t.isArray = false := by simp
  constructor
  · intro clash
    refine clash _ (isArray_joinAll singles) fun t mem single => ?_
    exact le_iff_below.2 (below_joinAll (by simp [mem, single]))
  · intro top c single bound
    have below : Below general c.regularize := by
      rw [← top]
      refine joinAll_below (regular_regularize c) fun t mem => ?_
      have least := bound t (List.mem_filter.1 mem).1 (singles t mem)
      exact (le_iff_below.1 least).trans (below_regularize c)
    exact eq_general_of_regularize single (general_below_iff.1 below)

theorem clash_of_joinAll_eq_general (proper : general ∉ ts) (top : joinAll ts = general) :
    Clash ts := by
  rw [clash_iff_joinAll_eq_general, joinAll_filter proper (by rw [top]; rfl)]
  exact top

/-! ## Torn lists depend on the order -/

theorem not_orderFree_of_split (proper : general ∉ ts) (array : ∃ t ∈ ts, t.isArray = true)
    (clash : Clash ts) : ¬OrderFree ts := by
  intro orderFree
  obtain ⟨t, mem, isArray⟩ := array
  obtain ⟨front, back, rfl⟩ := List.append_of_mem mem
  -- With all single members first the join is `general`.
  have singlesFirst := orderFree _
    (List.perm_append_comm.trans (List.filter_append_perm Ty.isArray (front ++ t :: back)))
  rw [joinAll_eq_foldl, List.foldl_append, ← joinAll_eq_foldl,
    clash_iff_joinAll_eq_general.1 clash, foldl_join_general] at singlesFirst
  -- With an array first it is an array.
  have arrayFirst := orderFree (t :: (front ++ back)) List.perm_middle.symm
  have rest : general ∉ front ++ back := fun h => proper (by
    rcases List.mem_append.1 h with h | h <;> simp [h])
  have joined : (joinAll (t :: (front ++ back))).isArray = true := by
    rw [joinAll_eq_foldl, List.foldl_cons, unknown_join]
    exact isArray_foldl_join isArray rest
  have same := isArray_eq_of_beq (BEq.trans arrayFirst (BEq.symm singlesFirst))
  rw [joined] at same
  cases same

private theorem exists_perm_of_parts (parts : Parts slot ts cs) (perm : cs'.Perm cs) :
    ∃ ts', ts'.Perm ts ∧ Parts slot ts' cs' := by
  obtain ⟨ts', related, perm'⟩ := List.perm_comp_forall₂ perm parts.flip
  exact ⟨ts', perm', related.flip⟩

theorem parts_eq_self (single : ∀ t ∈ ts, t.isArray = false) (parts : Parts .element ts cs) :
    cs = ts := by
  induction parts with
  | nil => rfl
  | @cons t c ts cs found _ ih =>
      rw [ih fun t mem => single t (by simp [mem])]
      rcases part?_element_iff.1 found with ⟨_, _, _, rfl⟩ | ⟨-, -, rfl⟩
      · simpa [isArray, family?] using single _ List.mem_cons_self
      · rfl

private theorem general_not_mem_of_parts (parts : Parts slot ts cs) : general ∉ ts := by
  induction parts with
  | nil => simp
  | cons found _ ih =>
      rw [List.mem_cons, not_or]
      refine ⟨?_, ih⟩
      rintro rfl
      simp at found

theorem OrderFree.parts (orderFree : OrderFree ts) (parts : Parts slot ts cs) : OrderFree cs := by
  intro cs' perm
  obtain ⟨ts', perm', parts'⟩ := exists_perm_of_parts parts perm
  have same := orderFree ts' perm'
  rcases joinAll_part? parts with ⟨rfl, top⟩ | ⟨u, hu, component⟩
  · by_cases array : ∃ t ∈ ts, t.isArray = true
    · have proper := general_not_mem_of_parts parts
      have clash : Clash ts := clash_of_joinAll_eq_general proper top
      exact absurd orderFree (not_orderFree_of_split proper array clash)
    · have single : ∀ t ∈ ts, t.isArray = false := by simpa using array
      have single' : ∀ t ∈ ts', t.isArray = false := fun t mem => single t (perm'.mem_iff.1 mem)
      rwa [parts_eq_self single parts, parts_eq_self single' parts']
  · rcases joinAll_part? parts' with ⟨rfl, top⟩ | ⟨u', hu', component'⟩
    · rw [top] at same
      rw [eq_of_flat_beq rfl same] at hu
      cases hu
    · exact BEq.trans (BEq.symm component') (BEq.trans (part?_beq same hu' hu) component)

theorem not_orderFree_of_torn (torn : Torn ts) : ¬OrderFree ts := by
  induction torn with
  | split proper array clash => exact not_orderFree_of_split proper array clash
  | part parts _ ih => exact fun orderFree => ih (orderFree.parts parts)

private theorem eq_general_of_families {c : Ty} (single : c.isArray = false) (below : Below a c)
    (below' : Below b c) (structured : a.isStructured = true) (known : b ≠ unknown)
    (families : a.family? ≠ b.family?) : c = general := by
  rcases below.eq_general_or_family?_eq structured single with top | family
  · exact top
  · have structured' : c.isStructured = true := by
      rw [isStructured, ← family]
      exact structured
    have family' := (below'.eq_unknown_or_family?_eq structured' single).resolve_left known
    exact absurd (family.trans family'.symm) families

theorem clash_of_record_base (row : Row Ty) {b : BaseType} (known : b ≠ .unknown)
    (mem : ofFields row ∈ ts) (mem' : base b ∈ ts) : Clash ts := by
  intro c single bound
  have below := le_iff_below.1 (bound _ mem rfl)
  have below' := le_iff_below.1 (bound _ mem' rfl)
  exact eq_general_of_families single below below' rfl (by simpa using known)
    (by simp [ofFields, family?])

/-! ## Other lists do not -/

/-- Unless the list is torn, an array among its members makes the join an array. -/
theorem isArray_joinAll_of_not_torn (torn : ¬Torn ts) (proper : general ∉ ts)
    (array : ∃ t ∈ ts, t.isArray = true) (perm : ts'.Perm ts) :
    (joinAll ts').isArray = true := by
  cases joined : (joinAll ts').isArray with
  | true => rfl
  | false =>
      have proper' : general ∉ ts' := fun h => proper (perm.mem_iff.1 h)
      have top : joinAll ts' = general := by
        obtain ⟨t, mem, isArray⟩ := array
        obtain ⟨_, _, _, _, rfl⟩ := isArray_iff.1 isArray
        exact (array_below_iff joined).1 (below_joinAll (perm.mem_iff.2 mem))
      have clash := clash_of_joinAll_eq_general proper' top
      exact absurd (.split proper array (clash.perm perm.symm)) torn

private theorem beq_or_sameShape (ha : a.isArray = false) (hb : b.isArray = false)
    (rooted : a ≠ object (.named [])) (rooted' : b ≠ object (.named []))
    (below : Below a b.regularize) (above : Below b a.regularize) :
    (a == b) = true ∨ SameShape a b := by
  cases structured : a.isStructured with
  | false =>
      rw [regularize_flat structured] at above
      by_cases top : a = general
      · rw [top] at below ⊢
        rw [eq_general_of_regularize hb (general_below_iff.1 below)]
        exact .inl BEq.rfl
      · rw [regularize_flat (above.isStructured_eq_false structured top)] at below
        exact .inl (below.beq above)
  | true =>
      have known : b ≠ unknown := by
        rintro rfl
        rw [below_unknown_iff.1 below] at structured
        cases structured
      cases a with
      | base => cases structured
      | matrix => cases structured
      | array => cases ha
      | record ls d x =>
          have family := (above.eq_unknown_or_family?_eq rfl rfl).resolve_left known
          cases b with
          | record =>
              obtain ⟨labels, -⟩ := below_record_iff.1 below
              obtain ⟨labels', -⟩ := below_record_iff.1 above
              obtain rfl := NameSet.ext_mem fun l => ⟨labels' l, labels l⟩
              exact .inr .record
          | _ => simp [family?, regularize] at family
      | union ls d x =>
          have family := (above.eq_unknown_or_family?_eq rfl rfl).resolve_left known
          cases b with
          | union =>
              obtain ⟨labels, -⟩ := below_union_iff.1 below
              obtain ⟨labels', -⟩ := below_union_iff.1 above
              obtain rfl := NameSet.ext_mem fun l => ⟨labels l, labels' l⟩
              exact .inr .union
          | _ => simp [family?, regularize] at family
      | function n d x dr r =>
          have family := (above.eq_unknown_or_family?_eq rfl rfl).resolve_left known
          cases b with
          | function =>
              obtain ⟨rfl, -⟩ := below_function_iff.1 below
              exact .inr .function
          | _ => simp [family?, regularize] at family
      | object c =>
          rw [regularize_object (by simpa using rooted)] at above
          have family := (above.eq_unknown_or_family?_eq rfl rfl).resolve_left known
          cases b with
          | object c' =>
              rw [regularize_object (by simpa using rooted')] at below
              exact .inl (below.beq above)
          | _ => simp [family?] at family

private theorem joinAll_beq_or_sameShape (paths : ∀ t ∈ ts, t.HasPaths) (torn : ¬Torn ts)
    (proper : general ∉ ts) (perm : ts'.Perm ts) :
    (joinAll ts == joinAll ts') = true ∨ SameShape (joinAll ts) (joinAll ts') := by
  by_cases array : ∃ t ∈ ts, t.isArray = true
  · obtain ⟨_, _, _, _, h⟩ :=
      isArray_iff.1 (isArray_joinAll_of_not_torn torn proper array (.refl ts))
    obtain ⟨_, _, _, _, h'⟩ :=
      isArray_iff.1 (isArray_joinAll_of_not_torn torn proper array perm)
    rw [h, h', length_joinAll_eq perm h h']
    exact .inr .array
  · have single : ∀ t ∈ ts, t.isArray = false := by simpa using array
    have rooted : ∀ t ∈ ts, t ≠ object (.named []) := fun t mem => (paths t mem).here
    exact beq_or_sameShape (isArray_joinAll single)
      (isArray_joinAll fun t mem => single t (perm.mem_iff.1 mem))
      (joinAll_ne_rootless rooted)
      (joinAll_ne_rootless fun t mem => rooted t (perm.mem_iff.1 mem))
      (joinAll_below_regularize perm) (joinAll_below_regularize perm.symm)

theorem orderFree_of_not_torn (paths : ∀ t ∈ ts, t.HasPaths) (torn : ¬Torn ts) :
    OrderFree ts := by
  -- The components of the join are joins of lists of components, which are less deep.
  generalize levels : (joinAll ts).depth = size
  induction size using Nat.strongRecOn generalizing ts with
  | ind size ih =>
      intro ts' perm
      by_cases proper : general ∈ ts
      · rw [joinAll_eq_general proper, joinAll_eq_general (perm.mem_iff.2 proper)]
        exact BEq.rfl
      rcases joinAll_beq_or_sameShape paths torn proper perm with same | shape
      · exact BEq.symm same
      refine BEq.symm (shape.beq fun slot s t less hs ht => ?_)
      obtain ⟨cs, parts⟩ := exists_parts hs
      obtain ⟨cs', parts', perm'⟩ := List.perm_comp_forall₂ perm parts
      have component := part?_joinAll parts hs
      have component' := part?_joinAll parts' ht
      have lower : (joinAll cs).depth < size := by
        rwa [← depth_eq_of_beq component, ← levels]
      have orderFree : OrderFree cs :=
        ih _ lower (hasPaths_of_parts parts paths) (fun h => torn (.part parts h)) rfl
      exact BEq.trans component (BEq.trans (BEq.symm (orderFree cs' perm')) (BEq.symm component'))

/-- A list of types has one join in all orders exactly if it is not torn. -/
theorem joinAll_orderFree_iff (ts : List Ty) (paths : ∀ t ∈ ts, t.HasPaths) :
    (∀ ts', ts'.Perm ts → (joinAll ts' == joinAll ts) = true) ↔ ¬Torn ts :=
  ⟨fun orderFree torn => not_orderFree_of_torn torn orderFree, orderFree_of_not_torn paths⟩

theorem joinAll_orderFree_iff_record_string_array :
    ¬∀ ts', ts'.Perm [ofFields .empty, base .string, arrayOf (base .int) none] →
      (joinAll ts' == joinAll [ofFields .empty, base .string, arrayOf (base .int) none]) =
        true := by
  rw [joinAll_orderFree_iff _ (by simp), not_not]
  have known : BaseType.string ≠ .unknown := by decide
  exact .split (by simp [ofFields, arrayOf]) ⟨arrayOf (base .int) none, by simp, rfl⟩
    (clash_of_record_base .empty known (by simp) (by simp))

/-- With the array last they have the join `general`, with the array first they do not. -/
theorem joinAll_ne_of_rotate :
    [arrayOf (base .int) none, ofFields .empty, base .string].Perm
        [ofFields .empty, base .string, arrayOf (base .int) none] ∧
      (∀ t ∈ [ofFields .empty, base .string, arrayOf (base .int) none], t.HasPaths) ∧
      joinAll [ofFields .empty, base .string, arrayOf (base .int) none] = general ∧
      (joinAll [arrayOf (base .int) none, ofFields .empty, base .string] ==
        joinAll [ofFields .empty, base .string, arrayOf (base .int) none]) = false := by
  have last : joinAll [ofFields .empty, base .string, arrayOf (base .int) none] = general := by
    have known : BaseType.string ≠ .unknown := by decide
    have clash : Clash [ofFields .empty, base .string] :=
      clash_of_record_base .empty known (by simp) (by simp)
    have step := joinAll_concat [ofFields .empty, base .string] (arrayOf (base .int) none)
    have top : joinAll [ofFields .empty, base .string] = general :=
      clash_iff_joinAll_eq_general.1 clash
    rwa [top, general_join] at step
  have first :
      (joinAll [arrayOf (base .int) none, ofFields .empty, base .string]).isArray = true := by
    rw [joinAll_eq_foldl, List.foldl_cons, unknown_join]
    exact isArray_foldl_join rfl (by simp [ofFields])
  refine ⟨@List.perm_append_comm _ [_] [_, _], by simp, last, ?_⟩
  rw [last]
  by_contra same
  rw [Bool.not_eq_false] at same
  rw [isArray_eq_of_beq same] at first
  cases first

end Ty

end DataflowTypes
