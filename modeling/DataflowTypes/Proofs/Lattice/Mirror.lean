import DataflowTypes.Proofs.Lattice.Cache
import Mathlib.Data.List.Induction
import Mathlib.Data.Set.Card
import Mathlib.Data.Sym.Sym2

/-!
# Histories of a memo table

Outcomes are inserted into a table and the table is emptied in any order, and the outcomes need
not be those of comparisons.  Main statement: the table always holds what was inserted last for
each pair, the reverse for the exchanged pair, and as many entries as there are such pairs.
-/

namespace DataflowTypes

namespace Ty

def sameMeaning : Setoid Ty where
  r a b := (a == b) = true
  iseqv := ⟨fun _ => BEq.rfl, BEq.symm, BEq.trans⟩

def Meaning := Quotient sameMeaning

def meaning (t : Ty) : Meaning := Quotient.mk sameMeaning t

theorem meaning_eq_iff {a b : Ty} : a.meaning = b.meaning ↔ (a == b) = true := Quotient.eq

theorem exists_meaning (m : Meaning) : ∃ t : Ty, t.meaning = m := Quotient.exists_rep m

instance : DecidableEq Meaning :=
  @Quotient.decidableEq Ty sameMeaning fun a b => inferInstanceAs (Decidable ((a == b) = true))

end Ty

namespace Cache

/-! ## Calls -/

inductive Call where
  | insert (a b : Ty) (o : Comparison)
  | clear

def perform (c : Cache) : Call → Cache
  | .insert a b o => c.insert a b o
  | .clear => c.clear

def after (calls : List Call) : Cache := calls.foldl perform empty

/-- What calls, the latest first, leave for a pair: the outcome that was inserted last for it or,
reversed, for the exchanged pair, unless the table was emptied since. -/
def latest (a b : Ty) : List Call → Option Comparison
  | [] => none
  | .clear :: _ => none
  | .insert l r o :: earlier =>
      if l == a && r == b then some o
      else if l == b && r == a then some o.reverse
      else latest a b earlier

/-- The unordered pairs for which calls, the latest first, inserted an outcome since the table was
last emptied. -/
def inserted : List Call → Finset (Sym2 Ty.Meaning)
  | [] => ∅
  | .clear :: _ => ∅
  | .insert a b _ :: earlier => Insert.insert s(a.meaning, b.meaning) (inserted earlier)

def entered (c : Cache) : Set (Ty.Meaning × Ty.Meaning) :=
  {p | ∃ a b, p = (a.meaning, b.meaning) ∧ c.contains a b = true}

variable {a b x y : Ty} {o : Comparison} {c : Cache} {calls : List Call}

private theorem latest_swap (different : (a == b) = false) (calls : List Call) :
    latest b a calls = (latest a b calls).map Comparison.reverse := by
  induction calls with
  | nil => rfl
  | cons call earlier ih =>
      cases call with
      | clear => rfl
      | insert l r o =>
          rw [latest, latest, ih]
          cases same : l == a && r == b with
          | true =>
              -- The call cannot be about the exchanged pair too, as the types differ.
              have notBoth : (l == b && r == a) = false := by
                rw [BEq.congr_left (Bool.and_eq_true_iff.1 same).1, different]
                rfl
              simp [notBoth]
          | false => cases l == b && r == a <;> simp

private theorem isSome_latest_iff :
    (latest a b calls).isSome = true ↔ s(a.meaning, b.meaning) ∈ inserted calls := by
  induction calls with
  | nil => simp [latest, inserted]
  | cons call earlier ih =>
      cases call with
      | clear => simp [latest, inserted]
      | insert l r o =>
          have same : s(a.meaning, b.meaning) = s(l.meaning, r.meaning) ↔
              (l == a && r == b) = true ∨ (l == b && r == a) = true := by
            rw [eq_comm, Sym2.eq_iff]
            simp only [Ty.meaning_eq_iff, Bool.and_eq_true]
          rw [inserted, Finset.mem_insert, same, ← ih, latest]
          cases l == a && r == b <;> cases l == b && r == a <;> simp

/-! ## What a table holds -/

theorem get?_insert (c : Cache) (a b x y : Ty) (o : Comparison) :
    (c.insert a b o).get? x y =
      if a == x && b == y then some o
      else if a == y && b == x then some o.reverse
      else c.get? x y := by
  rw [insert, get?_record, get?_record, Bool.and_comm (b == x)]

theorem after_concat (calls : List Call) (call : Call) :
    after (calls ++ [call]) = (after calls).perform call := by
  rw [after, List.foldl_concat]
  rfl

theorem get?_after (calls : List Call) (a b : Ty) :
    (after calls).get? a b = latest a b calls.reverse := by
  induction calls using List.reverseRecOn with
  | nil => rfl
  | append_singleton calls call ih =>
      rw [after_concat, List.reverse_concat]
      cases call with
      | insert l r o => rw [perform, get?_insert, ih, latest]
      | clear => rfl

theorem contains_after_iff :
    (after calls).contains a b = true ↔ s(a.meaning, b.meaning) ∈ inserted calls.reverse := by
  rw [contains, get?_after, isSome_latest_iff]

/-! ## How many entries it has -/

theorem mem_entered_iff : (a.meaning, b.meaning) ∈ c.entered ↔ c.contains a b = true := by
  constructor
  · rintro ⟨x, y, same, entered⟩
    obtain ⟨left, right⟩ := Prod.mk.inj same
    rw [contains, get?_congr (Ty.meaning_eq_iff.1 left) (Ty.meaning_eq_iff.1 right)]
    exact entered
  · intro entered
    exact ⟨a, b, rfl, entered⟩

private theorem entered_record (c : Cache) (a b : Ty) (o : Comparison) :
    (c.record a b o).entered = Insert.insert (a.meaning, b.meaning) c.entered := by
  ext ⟨p, q⟩
  obtain ⟨x, rfl⟩ := Ty.exists_meaning p
  obtain ⟨y, rfl⟩ := Ty.exists_meaning q
  have same : (x.meaning, y.meaning) = (a.meaning, b.meaning) ↔ (a == x && b == y) = true := by
    rw [eq_comm, Prod.mk.injEq, Ty.meaning_eq_iff, Ty.meaning_eq_iff, Bool.and_eq_true]
  rw [Set.mem_insert_iff, mem_entered_iff, mem_entered_iff, same, contains, get?_record]
  cases a == x && b == y <;> simp [contains]

theorem encard_entered_record (h : c.entered.encard = c.size) :
    (c.record a b o).entered.encard = (c.record a b o).size := by
  rw [entered_record, size_record]
  cases entered : c.contains a b with
  | true => simp [Set.insert_eq_of_mem (mem_entered_iff.2 entered), h]
  | false =>
      have notMem : (a.meaning, b.meaning) ∉ c.entered := by simp [mem_entered_iff, entered]
      simp [Set.encard_insert_of_notMem notMem, h]

theorem encard_entered_empty : empty.entered.encard = empty.size := by
  have none : empty.entered = ∅ := by
    refine Set.eq_empty_of_forall_notMem ?_
    rintro _ ⟨a, b, -, entered⟩
    cases entered
  rw [none, Set.encard_empty]
  rfl

private theorem encard_entered_after (calls : List Call) :
    (after calls).entered.encard = (after calls).size := by
  induction calls using List.reverseRecOn with
  | nil => exact encard_entered_empty
  | append_singleton calls call ih =>
      rw [after_concat]
      cases call with
      | insert a b o => exact encard_entered_record (encard_entered_record ih)
      | clear => exact encard_entered_empty

private theorem size_insert (c : Cache) (a b : Ty) (o : Comparison) :
    (c.insert a b o).size =
      c.size + (if c.contains b a then 0 else 1) + if a == b || c.contains a b then 0 else 1 := by
  have entered : (c.record b a o.reverse).contains a b = (a == b || c.contains a b) := by
    rw [contains, get?_record, BEq.comm, Bool.and_self, contains]
    cases a == b <;> rfl
  rw [insert, size_record, size_record, entered]

/-- Two entries for each pair of different types and one for each type paired with itself. -/
def entryCount (pairs : Finset (Sym2 Ty.Meaning)) : Nat :=
  2 * (pairs.filter fun p => ¬p.IsDiag).card + (pairs.filter fun p => p.IsDiag).card

private theorem entryCount_insert {pairs : Finset (Sym2 Ty.Meaning)} {p : Sym2 Ty.Meaning}
    (new : p ∉ pairs) :
    entryCount (Insert.insert p pairs) = entryCount pairs + if p.IsDiag then 1 else 2 := by
  rw [entryCount, entryCount, Finset.filter_insert, Finset.filter_insert]
  have notMem (q : Sym2 Ty.Meaning → Prop) [DecidablePred q] : p ∉ pairs.filter q :=
    fun mem => new (Finset.mem_of_mem_filter p mem)
  by_cases diagonal : p.IsDiag
  · rw [if_neg (not_not.2 diagonal), if_pos diagonal, if_pos diagonal,
      Finset.card_insert_of_notMem (notMem _)]
    omega
  · rw [if_pos diagonal, if_neg diagonal, if_neg diagonal,
      Finset.card_insert_of_notMem (notMem _)]
    omega

theorem size_after (calls : List Call) :
    (after calls).size = entryCount (inserted calls.reverse) := by
  induction calls using List.reverseRecOn with
  | nil => rfl
  | append_singleton calls call ih =>
      rw [after_concat, List.reverse_concat]
      cases call with
      | insert a b o =>
          rw [perform, size_insert, ih, inserted]
          by_cases mem : s(a.meaning, b.meaning) ∈ inserted calls.reverse
          · have entered := contains_after_iff.2 mem
            have mirrored := contains_after_iff.2 (Sym2.eq_swap ▸ mem)
            simp [entered, mirrored, Finset.insert_eq_of_mem mem]
          · have absent := Bool.eq_false_iff.2 (mt contains_after_iff.1 mem)
            have mirrored := Bool.eq_false_iff.2 (mt contains_after_iff.1 (Sym2.eq_swap ▸ mem))
            have diagonal : s(a.meaning, b.meaning).IsDiag ↔ (a == b) = true := by
              rw [Sym2.mk_isDiag_iff, Ty.meaning_eq_iff]
            rw [entryCount_insert mem, absent, mirrored]
            simp only [diagonal]
            cases a == b <;> simp
      | clear => rfl

/-- A table is a mirrored map after any calls.  What it gives for a pair is what was inserted last
for it or, reversed, for the exchanged pair since the table was emptied; types that denote the
same are one key; different types have mirrored entries; and its size is the number of ordered
pairs with an entry, two for each two different types and one for each type that was paired with
itself. -/
theorem after_mirrored (calls : List Call) :
    (∀ a b, (after calls).get? a b = latest a b calls.reverse) ∧
      (∀ a b x y, (a == x) = true → (b == y) = true →
        (after calls).get? a b = (after calls).get? x y) ∧
      (∀ a b, (a == b) = false →
        (after calls).get? b a = ((after calls).get? a b).map Comparison.reverse) ∧
      (after calls).entered.encard = (after calls).size ∧
      (after calls).size =
        2 * ((inserted calls.reverse).filter fun p => ¬p.IsDiag).card +
          ((inserted calls.reverse).filter fun p => p.IsDiag).card := by
  refine ⟨get?_after calls, fun _ _ _ _ => get?_congr, fun a b different => ?_,
    encard_entered_after calls, size_after calls⟩
  rw [get?_after, get?_after, latest_swap different]

def restated : List Call :=
  [.insert .unknown .general .same, .clear,
    .insert (.arrayOf .unknown none) .general .lower,
    .insert .general (.array .general .unknown none none) .lower,
    .insert (.arrayOf .unknown none) (.array .general .unknown none none) .higher]

theorem after_mirrored_restated :
    (after restated).get? (.arrayOf .unknown none) .general = some .higher ∧
      ((Ty.arrayOf .unknown none == .general) = false ∧
        (after restated).get? .general (.arrayOf .unknown none) = some .lower) ∧
      (after restated).get? (.arrayOf .unknown none) (.arrayOf .unknown none) = some .higher ∧
      (after restated).get? .unknown .general = none ∧
      (after restated).entered.encard = 3 ∧ (after restated).size = 3 := by
  obtain ⟨found, -, mirrored, entered, size⟩ := after_mirrored restated
  have three : (after restated).size = 3 := size.trans (by decide)
  have different : (Ty.arrayOf .unknown none == .general) = false := rfl
  have first : (after restated).get? (.arrayOf .unknown none) .general = some .higher :=
    (found _ _).trans rfl
  refine ⟨first, ⟨different, ?_⟩, (found _ _).trans rfl, (found _ _).trans rfl, ?_, three⟩
  · rw [mirrored _ _ different, first]
    rfl
  · rw [entered, three]
    rfl

end Cache

end DataflowTypes
