import DataflowTypes.Lattice.Compare
import DataflowTypes.Proofs.Lattice.BaseOrder
import DataflowTypes.Proofs.Ty.Row

/-!
# The order of types as a relation

`Ty.Below a b` says by rules when each value of type `a` is a value of type `b`,
possibly after widening it into an array.  Types are taken for what they denote
now, so the rules look at resolved components and current lengths.  Main
statements: `Below` is transitive, and two types are below each other if and only
if they are equal in the sense of `==`.
-/

namespace DataflowTypes

/-! ## Lengths -/

namespace Length

/-- A known length is below itself and the unknown one. -/
def Below (n k : Option Nat) : Prop := k = none ∨ n = k

theorem Below.refl (n : Option Nat) : Below n n := .inr rfl

theorem Below.trans {n k l : Option Nat} (first : Below n k) (second : Below k l) :
    Below n l := by
  rcases second with rfl | rfl
  · exact .inl rfl
  · exact first

theorem Below.antisymm {n k : Option Nat} (first : Below n k) (second : Below k n) : n = k := by
  rcases first with rfl | rfl
  · rcases second with rfl | rfl <;> rfl
  · rfl

theorem acceptsScalar_iff {n : Option Nat} : acceptsScalar n = true ↔ Below (some 1) n := by
  rcases n with _ | n
  · simp [acceptsScalar, Below]
  · simp [acceptsScalar, Below, @eq_comm _ 1 n]

theorem Below.acceptsScalar {n k : Option Nat} (h : Below n k)
    (accepts : acceptsScalar n = true) : acceptsScalar k = true :=
  acceptsScalar_iff.2 ((acceptsScalar_iff.1 accepts).trans h)

end Length

/-! ## Classes -/

namespace ObjectClass

def Below : ObjectClass → ObjectClass → Prop
  | impossible, _ => True
  | _, unconstrained => True
  | named p, named q => q <+: p
  | _, _ => False

theorem Below.refl (c : ObjectClass) : Below c c := by
  cases c <;> simp [Below]

theorem Below.trans {a b c : ObjectClass} (first : Below a b) (second : Below b c) :
    Below a c := by
  cases a <;> cases b <;> cases c <;> simp only [Below] at first second ⊢
  exact second.trans first

theorem Below.antisymm {a b : ObjectClass} (first : Below a b) (second : Below b a) :
    a = b := by
  cases a <;> cases b <;> simp only [Below] at first second ⊢
  rw [second.eq_of_length_le first.length_le]

end ObjectClass

namespace Ty

/-! ## Kinds of types -/

def isArray (t : Ty) : Bool := t.family? == some .array

theorem isArray_iff {t : Ty} : t.isArray = true ↔ ∃ d x dl n, t = array d x dl n := by
  cases t <;> simp [isArray, family?]

theorem isArray_row {k : RowKind} {ls : NameSet} {d r : ls.Member → Ty} :
    (row k ls d r).isArray = false := by
  cases k <;> rfl

theorem isUnknown_iff {t : Ty} : t.isUnknown = true ↔ t = unknown := by
  cases t with
  | base b => cases b <;> simp [isUnknown]
  | _ => simp [isUnknown]

theorem isGeneral_iff {t : Ty} : t.isGeneral = true ↔ t = general := by
  cases t with
  | base b => cases b <;> simp [isGeneral]
  | _ => simp [isGeneral]

theorem eq_of_node_eq {a b : Ty} (ha : a.isStructured = false) (hb : b.isStructured = false)
    (same : a.node = b.node) : a = b := by
  cases a <;> simp [isStructured, family?] at ha <;>
    cases b <;> simp [isStructured, family?] at hb <;>
      simp_all [node]

theorem node_eq_family_iff {t : Ty} {f : Family} :
    t.node = .family f ↔ t.family? = some f := by
  cases t <;> simp [node, family?]

theorem eq_of_node_eq_base {t : Ty} {b : BaseType} (h : t.node = .base b) : t = base b := by
  cases t <;> simp_all [node]

theorem ofNode_flat {p : Node} (h : ∀ f, p ≠ .family f) :
    (ofNode p).isStructured = false ∧ (ofNode p).node = p := by
  cases p with
  | family f => exact absurd rfl (h f)
  | _ => exact ⟨rfl, rfl⟩

/-! ## The rules -/

/-- The order of types.  A single value widens into an array that can have one element;
records with more fields and unions with fewer alternatives are lower. -/
inductive Below : Ty → Ty → Prop
  | bottom (b : Ty) : Below unknown b
  | top (a : Ty) : Below a general
  | flat {a b : Ty} (ha : a.isStructured = false) (hb : b.isStructured = false)
      (h : BaseOrder.le a.node b.node = true) : Below a b
  | array {d x d' y : Ty} {dl n dl' k : Option Nat} (lengths : Length.Below n k)
      (elements : Below x y) : Below (array d x dl n) (array d' y dl' k)
  | widen {s d y : Ty} {dl k : Option Nat} (single : s.isArray = false) (proper : s ≠ general)
      (accepts : Length.acceptsScalar k = true) (element : Below s y) :
      Below s (array d y dl k)
  | record {ls ls' : NameSet} {d x : ls.Member → Ty} {d' y : ls'.Member → Ty}
      (labels : ∀ l ∈ ls', l ∈ ls)
      (fields : ∀ l : ls'.Member, Below (x ⟨l.1, labels l.1 l.2⟩) (y l)) :
      Below (record ls d x) (record ls' d' y)
  | union {ls ls' : NameSet} {d x : ls.Member → Ty} {d' y : ls'.Member → Ty}
      (labels : ∀ l ∈ ls, l ∈ ls')
      (alternatives : ∀ l : ls.Member, Below (x l) (y ⟨l.1, labels l.1 l.2⟩)) :
      Below (union ls d x) (union ls' d' y)
  | function {n : Nat} {d x d' y : Fin n → Ty} {dr r ds s : Ty}
      (params : ∀ i, Below (x i) (y i)) (result : Below r s) :
      Below (function n d x dr r) (function n d' y ds s)
  | object {c c' : ObjectClass} (classes : c.Below c') : Below (object c) (object c')

/-! ## Inversion -/

theorem below_unknown_iff {a : Ty} : Below a unknown ↔ a = unknown := by
  constructor
  · intro h
    cases h with
    | bottom => rfl
    | flat ha hb h =>
        exact eq_of_node_eq ha hb (BaseOrder.eq_unknown_of_le h)
  · rintro rfl
    exact .bottom _

theorem general_below_iff {b : Ty} : Below general b ↔ b = general := by
  constructor
  · intro h
    cases h with
    | top => rfl
    | flat ha hb h => exact eq_of_node_eq hb ha (BaseOrder.eq_general_of_le h)
    | widen single proper => exact absurd rfl proper
  · rintro rfl
    exact .top _

theorem below_flat_iff {a b : Ty} (ha : a.isStructured = false) (hb : b.isStructured = false) :
    Below a b ↔ BaseOrder.le a.node b.node = true := by
  constructor
  · intro h
    cases h with
    | bottom => exact BaseOrder.unknown_le _
    | top => exact BaseOrder.le_general _
    | flat _ _ h => exact h
    | _ => simp [isStructured, family?] at hb
  · exact .flat ha hb

theorem Below.isStructured_eq_false {a b : Ty} (h : Below a b) (hb : b.isStructured = false)
    (proper : b ≠ general) : a.isStructured = false := by
  cases h with
  | bottom => rfl
  | top => exact absurd rfl proper
  | flat ha _ _ => exact ha
  | _ => simp [isStructured, family?] at hb

theorem below_array_iff {d x d' y : Ty} {dl n dl' k : Option Nat} :
    Below (array d x dl n) (array d' y dl' k) ↔ Length.Below n k ∧ Below x y := by
  constructor
  · intro h
    cases h with
    | flat ha => simp [isStructured, family?] at ha
    | array lengths elements => exact ⟨lengths, elements⟩
    | widen single => simp [isArray, family?] at single
  · rintro ⟨lengths, elements⟩
    exact .array lengths elements

theorem array_below_iff {d x s : Ty} {dl n : Option Nat} (single : s.isArray = false) :
    Below (array d x dl n) s ↔ s = general := by
  constructor
  · intro h
    cases h with
    | top => rfl
    | flat ha => simp [isStructured, family?] at ha
    | _ => simp [isArray, family?] at single
  · rintro rfl
    exact .top _

theorem Below.single {a s : Ty} (h : Below a s) (single : s.isArray = false)
    (proper : s ≠ general) : a.isArray = false ∧ a ≠ general := by
  constructor
  · cases a with
    | array => exact absurd ((array_below_iff single).1 h) proper
    | _ => rfl
  · rintro rfl
    exact proper (general_below_iff.1 h)

theorem Below.family?_eq {a b : Ty} (h : Below a b) (structured : a.isStructured = true)
    (single : b.isArray = false) (proper : b ≠ general) : a.family? = b.family? := by
  cases h with
  | bottom => simp [isStructured, family?] at structured
  | top => exact absurd rfl proper
  | flat ha => rw [ha] at structured; cases structured
  | widen => simp [isArray, family?] at single
  | _ => rfl

theorem Below.eq_general_or_family?_eq {a b : Ty} (h : Below a b)
    (structured : a.isStructured = true) (single : b.isArray = false) :
    b = general ∨ a.family? = b.family? := by
  by_cases proper : b = general
  · exact .inl proper
  · exact .inr (h.family?_eq structured single proper)

/-- Below a structured type other than an array there are `unknown` and types of its
family only. -/
theorem Below.eq_unknown_or_family?_eq {a b : Ty} (h : Below a b)
    (structured : b.isStructured = true) (single : b.isArray = false) :
    a = unknown ∨ a.family? = b.family? := by
  cases h with
  | bottom => exact .inl rfl
  | top => simp [isStructured, family?] at structured
  | flat _ hb => rw [hb] at structured; cases structured
  | widen => simp [isArray, family?] at single
  | _ => exact .inr rfl

theorem single_below_array_iff {s d y : Ty} {dl k : Option Nat} (single : s.isArray = false) :
    Below s (array d y dl k) ↔
      s = unknown ∨ s ≠ general ∧ Length.acceptsScalar k = true ∧ Below s y := by
  constructor
  · intro h
    cases h with
    | bottom => exact .inl rfl
    | flat _ hb => simp [isStructured, family?] at hb
    | array => simp [isArray, family?] at single
    | widen _ proper accepts element => exact .inr ⟨proper, accepts, element⟩
  · rintro (rfl | ⟨proper, accepts, element⟩)
    · exact .bottom _
    · exact .widen single proper accepts element

theorem below_record_iff {ls ls' : NameSet} {d x : ls.Member → Ty} {d' y : ls'.Member → Ty} :
    Below (record ls d x) (record ls' d' y) ↔
      (∀ l ∈ ls', l ∈ ls) ∧ ∀ (l : ls.Member) (h : l.1 ∈ ls'), Below (x l) (y ⟨l.1, h⟩) := by
  constructor
  · intro h
    cases h with
    | flat ha => simp [isStructured, family?] at ha
    | record labels fields => exact ⟨labels, fun l h => fields ⟨l.1, h⟩⟩
  · rintro ⟨labels, fields⟩
    exact .record labels fun l => fields ⟨l.1, labels l.1 l.2⟩ l.2

theorem below_union_iff {ls ls' : NameSet} {d x : ls.Member → Ty} {d' y : ls'.Member → Ty} :
    Below (union ls d x) (union ls' d' y) ↔
      (∀ l ∈ ls, l ∈ ls') ∧ ∀ (l : ls.Member) (h : l.1 ∈ ls'), Below (x l) (y ⟨l.1, h⟩) := by
  constructor
  · intro h
    cases h with
    | flat ha => simp [isStructured, family?] at ha
    | union labels alternatives => exact ⟨labels, fun l _ => alternatives l⟩
  · rintro ⟨labels, alternatives⟩
    exact .union labels fun l => alternatives l (labels l.1 l.2)

section

variable {k : RowKind} {ls ls' : NameSet} {d x e z : ls.Member → Ty} {d' y : ls'.Member → Ty}

theorem below_row_iff :
    Below (row k ls d x) (row k ls e z) ↔ ∀ l, Below (x l) (z l) := by
  cases k with
  | record =>
      refine below_record_iff.trans ⟨fun h l => h.2 l l.2, fun h => ⟨fun _ => id, fun l _ => h l⟩⟩
  | union =>
      refine below_union_iff.trans ⟨fun h l => h.2 l l.2, fun h => ⟨fun _ => id, fun l _ => h l⟩⟩

theorem labels_eq_of_between (above : Below (row k ls d x) (row k ls' d' y))
    (below : Below (row k ls' d' y) (row k ls e z)) : ls = ls' := by
  refine NameSet.ext_mem fun l => ?_
  cases k with
  | record => exact ⟨(below_record_iff.1 below).1 l, (below_record_iff.1 above).1 l⟩
  | union => exact ⟨(below_union_iff.1 above).1 l, (below_union_iff.1 below).1 l⟩

end

theorem below_function_iff {n k : Nat} {d x : Fin n → Ty} {d' y : Fin k → Ty}
    {dr r ds s : Ty} :
    Below (function n d x dr r) (function k d' y ds s) ↔
      ∃ h : n = k, (∀ i, Below (x i) (y (i.cast h))) ∧ Below r s := by
  constructor
  · intro h
    cases h with
    | flat ha => simp [isStructured, family?] at ha
    | function params result => exact ⟨rfl, params, result⟩
  · rintro ⟨rfl, params, result⟩
    exact .function params result

theorem below_object_iff {c c' : ObjectClass} :
    Below (object c) (object c') ↔ c.Below c' := by
  constructor
  · intro h
    cases h with
    | flat ha => simp [isStructured, family?] at ha
    | object classes => exact classes
  · exact .object

theorem isArray_eq_false {t : Ty} (flat : t.isStructured = false) : t.isArray = false := by
  cases t <;> simp_all [isStructured, isArray, family?]

/-- Across families the base order decides, arrays apart. -/
theorem below_iff_node_le {a b : Ty} (families : a.family? = b.family? → a.family? = none)
    (bound : b.isArray = true → a.isBound = true) :
    Below a b ↔ BaseOrder.le a.node b.node = true := by
  constructor
  · intro h
    cases h with
    | bottom => exact BaseOrder.unknown_le _
    | top => exact BaseOrder.le_general _
    | flat _ _ h => exact h
    | widen _ proper =>
        have unknown : a.isUnknown = true := by
          simpa [isBound, isGeneral_iff, proper] using bound rfl
        rw [isUnknown_iff.1 unknown]
        exact BaseOrder.unknown_le _
    | _ => simp [family?] at families
  · intro h
    cases ha : a.family? with
    | some f =>
        rw [node_eq_family_iff.2 ha] at h
        rcases BaseOrder.eq_of_family_le h with same | top
        · rw [ha, node_eq_family_iff.1 same] at families
          simp at families
        · rw [eq_of_node_eq_base top]
          exact .top a
    | none =>
        cases hb : b.family? with
        | some f =>
            rw [node_eq_family_iff.2 hb] at h
            rcases BaseOrder.eq_of_le_family h with same | bottom
            · rw [node_eq_family_iff.1 same] at ha
              cases ha
            · rw [eq_of_node_eq_base bottom]
              exact .bottom b
        | none => exact .flat (by simp [isStructured, ha]) (by simp [isStructured, hb]) h

/-! ## Transitivity -/

theorem Below.trans {a b c : Ty} (first : Below a b) (second : Below b c) : Below a c := by
  -- The chain is followed from its upper step, since widening at `a` leaves the element of
  -- the middle array to be compared with that of the upper one.
  induction second generalizing a with
  | bottom c =>
      rw [below_unknown_iff.1 first]
      exact .bottom c
  | top _ => exact .top a
  | @flat b c hb hc h =>
      by_cases isTop : b = general
      · subst isTop
        have upper : c = Ty.general := eq_of_node_eq hc hb (BaseOrder.eq_general_of_le h)
        rw [upper]
        exact .top a
      · have ha := first.isStructured_eq_false hb isTop
        have lower := (below_flat_iff ha hb).1 first
        exact .flat ha hc (BaseOrder.le_trans lower h)
  | array lengths _ ih =>
      cases first with
      | bottom => exact .bottom _
      | flat _ hb => simp [isStructured, family?] at hb
      | array lengths' elements => exact .array (lengths'.trans lengths) (ih elements)
      | widen single proper accepts element =>
          exact .widen single proper (lengths.acceptsScalar accepts) (ih element)
  | widen single proper accepts _ ih =>
      obtain ⟨lowerSingle, lowerProper⟩ := first.single single proper
      exact .widen lowerSingle lowerProper accepts (ih first)
  | record labels _ ih =>
      cases first with
      | bottom => exact .bottom _
      | flat _ hb => simp [isStructured, family?] at hb
      | record labels' fields =>
          exact .record (fun l h => labels' l (labels l h)) fun l =>
            ih l (fields ⟨l.1, labels l.1 l.2⟩)
  | union labels _ ih =>
      cases first with
      | bottom => exact .bottom _
      | flat _ hb => simp [isStructured, family?] at hb
      | union labels' alternatives =>
          exact .union (fun l h => labels l (labels' l h)) fun l =>
            ih ⟨l.1, labels' l.1 l.2⟩ (alternatives l)
  | function _ _ ihParams ihResult =>
      cases first with
      | bottom => exact .bottom _
      | flat _ hb => simp [isStructured, family?] at hb
      | function params result =>
          exact .function (fun i => ihParams i (params i)) (ihResult result)
  | object classes =>
      cases first with
      | bottom => exact .bottom _
      | flat _ hb => simp [isStructured, family?] at hb
      | object classes' => exact .object (classes'.trans classes)

/-! ## Equality -/

theorem beq_array_iff {d x d' y : Ty} {dl n dl' k : Option Nat} :
    (array d x dl n == array d' y dl' k) = true ↔ n = k ∧ (x == y) = true := by
  change (n == k && x == y) = true ↔ _
  rw [Bool.and_eq_true, beq_iff_eq]

theorem beq_row_iff {k : RowKind} {ls ls' : NameSet} {d x : ls.Member → Ty}
    {d' y : ls'.Member → Ty} :
    (row k ls d x == row k ls' d' y) = true ↔
      ls = ls' ∧ ∀ (l : ls.Member) (h : l.1 ∈ ls'), (x l == y ⟨l.1, h⟩) = true := by
  have rows : (row k ls d x == row k ls' d' y) = (ls == ls' && ls.members.all fun l =>
      if h : l.1 ∈ ls' then x l == y ⟨l.1, h⟩ else false) := by
    cases k <;> rfl
  rw [rows, Bool.and_eq_true, beq_iff_eq, List.all_eq_true]
  constructor
  · rintro ⟨rfl, all⟩
    exact ⟨rfl, fun l h => by simpa [l.2] using all l (NameSet.mem_members l)⟩
  · rintro ⟨rfl, all⟩
    exact ⟨rfl, fun l _ => by simpa [l.2] using all l l.2⟩

theorem beq_function_iff {n k : Nat} {d x : Fin n → Ty} {d' y : Fin k → Ty} {dr r ds s : Ty} :
    (function n d x dr r == function k d' y ds s) = true ↔
      ∃ h : n = k, (∀ i, (x i == y (i.cast h)) = true) ∧ (r == s) = true := by
  change (n == k && (List.finRange n).all (fun i =>
    if h : i.1 < k then x i == y ⟨i.1, h⟩ else false) && r == s) = true ↔ _
  rw [Bool.and_eq_true, Bool.and_eq_true, beq_iff_eq, List.all_eq_true]
  constructor
  · rintro ⟨⟨rfl, all⟩, result⟩
    exact ⟨rfl, fun i => by simpa using all i (List.mem_finRange i), result⟩
  · rintro ⟨rfl, all, result⟩
    exact ⟨⟨rfl, fun i _ => by simpa using all i⟩, result⟩

theorem beq_object_iff {c c' : ObjectClass} : (object c == object c') = true ↔ c = c' := by
  change (c == c') = true ↔ _
  rw [beq_iff_eq]

theorem Below.refl (a : Ty) : Below a a := by
  induction a using rowInduction with
  | base => exact .flat rfl rfl (BaseOrder.le_refl _)
  | matrix => exact .flat rfl rfl (BaseOrder.le_refl _)
  | array _ _ _ n _ ih => exact .array (.refl n) ih
  | row _ _ _ _ _ ih => exact below_row_iff.2 ih
  | function _ _ _ _ _ _ ihParams _ ihResult => exact .function ihParams ihResult
  | object c => exact .object (.refl c)

theorem eq_of_flat_beq {a b : Ty} (flat : a.isStructured = false) (h : (a == b) = true) :
    b = a := by
  cases a with
  | base t =>
      cases b with
      | base t' => rw [beq_iff_eq.1 (show (t == t') = true from h)]
      | _ => cases h
  | matrix k =>
      cases b with
      | matrix k' => rw [beq_iff_eq.1 (show (k == k') = true from h)]
      | _ => cases h
  | _ => cases flat

theorem eq_array_of_beq {d x b : Ty} {dl n : Option Nat} (h : (array d x dl n == b) = true) :
    ∃ d' y dl', b = array d' y dl' n ∧ (x == y) = true := by
  cases b with
  | array =>
      obtain ⟨rfl, elements⟩ := beq_array_iff.1 h
      exact ⟨_, _, _, rfl, elements⟩
  | _ => cases h

theorem eq_row_of_beq {k : RowKind} {ls : NameSet} {d x : ls.Member → Ty} {b : Ty}
    (h : (row k ls d x == b) = true) :
    ∃ d' y, b = row k ls d' y ∧ ∀ l, (x l == y l) = true := by
  have family : b.family? = some k.family := by
    cases k <;> cases b <;> first | rfl | cases h
  obtain ⟨ls', d', y, rfl⟩ := exists_row family
  obtain ⟨rfl, components⟩ := beq_row_iff.1 h
  exact ⟨d', y, rfl, fun l => components l l.2⟩

theorem eq_record_of_beq {ls : NameSet} {d x : ls.Member → Ty} {b : Ty}
    (h : (record ls d x == b) = true) : ∃ d' y, b = record ls d' y ∧ ∀ l, (x l == y l) = true :=
  eq_row_of_beq (k := .record) h

theorem eq_union_of_beq {ls : NameSet} {d x : ls.Member → Ty} {b : Ty}
    (h : (union ls d x == b) = true) : ∃ d' y, b = union ls d' y ∧ ∀ l, (x l == y l) = true :=
  eq_row_of_beq (k := .union) h

theorem eq_function_of_beq {n : Nat} {d x : Fin n → Ty} {dr r b : Ty}
    (h : (function n d x dr r == b) = true) :
    ∃ d' y ds s, b = function n d' y ds s ∧ (∀ i, (x i == y i) = true) ∧ (r == s) = true := by
  cases b with
  | function =>
      obtain ⟨rfl, params, result⟩ := beq_function_iff.1 h
      exact ⟨_, _, _, _, rfl, params, result⟩
  | _ => cases h

theorem eq_object_of_beq {c : ObjectClass} {b : Ty} (h : (object c == b) = true) :
    b = object c := by
  cases b with
  | object => rw [beq_object_iff.1 h]
  | _ => cases h

theorem below_of_beq {a b : Ty} (h : (a == b) = true) : Below a b ∧ Below b a := by
  induction a using rowInduction generalizing b with
  | base =>
      rw [eq_of_flat_beq rfl h]
      exact ⟨.refl _, .refl _⟩
  | matrix =>
      rw [eq_of_flat_beq rfl h]
      exact ⟨.refl _, .refl _⟩
  | array _ _ _ n _ ih =>
      obtain ⟨_, _, _, rfl, elements⟩ := eq_array_of_beq h
      obtain ⟨below, above⟩ := ih elements
      exact ⟨.array (.refl n) below, .array (.refl n) above⟩
  | row _ _ _ _ _ ih =>
      obtain ⟨_, _, rfl, components⟩ := eq_row_of_beq h
      exact ⟨below_row_iff.2 fun l => (ih l (components l)).1,
        below_row_iff.2 fun l => (ih l (components l)).2⟩
  | function _ _ _ _ _ _ ihParams _ ihResult =>
      obtain ⟨_, _, _, _, rfl, params, result⟩ := eq_function_of_beq h
      exact ⟨.function (fun i => (ihParams i (params i)).1) (ihResult result).1,
        .function (fun i => (ihParams i (params i)).2) (ihResult result).2⟩
  | object c =>
      rw [eq_object_of_beq h]
      exact ⟨.refl _, .refl _⟩

theorem Below.beq {a b : Ty} (below : Below a b) (above : Below b a) : (a == b) = true := by
  induction below with
  | bottom b =>
      rw [below_unknown_iff.1 above]
      rfl
  | top a =>
      rw [general_below_iff.1 above]
      rfl
  | @flat a b ha hb h =>
      obtain rfl := eq_of_node_eq ha hb (BaseOrder.le_antisymm h ((below_flat_iff hb ha).1 above))
      cases a with
      | base t => exact (beq_self_eq_true t :)
      | matrix k => exact (beq_self_eq_true k :)
      | _ => cases ha
  | array lengths _ ih =>
      obtain ⟨lengths', elements⟩ := below_array_iff.1 above
      exact beq_array_iff.2 ⟨lengths.antisymm lengths', ih elements⟩
  | widen single proper => exact absurd ((array_below_iff single).1 above) proper
  | record labels _ ih =>
      obtain ⟨labels', fields⟩ := below_record_iff.1 above
      obtain rfl := NameSet.ext_mem fun l => ⟨labels' l, labels l⟩
      exact (beq_row_iff (k := .record)).2 ⟨rfl, fun l h => ih l (fields l h)⟩
  | union labels _ ih =>
      obtain ⟨labels', alternatives⟩ := below_union_iff.1 above
      obtain rfl := NameSet.ext_mem fun l => ⟨labels l, labels' l⟩
      exact (beq_row_iff (k := .union)).2 ⟨rfl, fun l h => ih l (alternatives l h)⟩
  | function _ _ ihParams ihResult =>
      obtain ⟨_, params, result⟩ := below_function_iff.1 above
      exact beq_function_iff.2 ⟨rfl, fun i => ihParams i (params i), ihResult result⟩
  | object classes =>
      exact beq_object_iff.2 (classes.antisymm (below_object_iff.1 above))

theorem beq_iff_below {a b : Ty} : (a == b) = true ↔ Below a b ∧ Below b a :=
  ⟨below_of_beq, fun h => h.1.beq h.2⟩

theorem Below.congr {a b a' b' : Ty} (ha : (a == a') = true) (hb : (b == b') = true) :
    Below a b ↔ Below a' b' := by
  obtain ⟨left, left'⟩ := below_of_beq ha
  obtain ⟨right, right'⟩ := below_of_beq hb
  constructor
  · intro h
    exact left'.trans (h.trans right)
  · intro h
    exact left.trans (h.trans right')

instance : EquivBEq Ty where
  rfl := beq_iff_below.2 ⟨.refl _, .refl _⟩
  symm h := beq_iff_below.2 (below_of_beq h).symm
  trans h h' :=
    have first := below_of_beq h
    have second := below_of_beq h'
    beq_iff_below.2 ⟨first.1.trans second.1, second.2.trans first.2⟩

end Ty

end DataflowTypes
