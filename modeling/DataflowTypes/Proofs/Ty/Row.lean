import DataflowTypes.Ty.Basic

/-!
# Rows

A record and a union both have one component under each label.  Equality, instances, fillings and
updates do not tell them apart, so facts about these are stated of rows of either kind.  The order
does tell them apart, by their labels: a record with more fields and a union with fewer alternatives
are lower.
-/

namespace DataflowTypes

inductive RowKind
  | record
  | union

def RowKind.family : RowKind → Family
  | record => .record
  | union => .union

namespace Ty

def row : (kind : RowKind) → (ls : NameSet) → (declared resolved : ls.Member → Ty) → Ty
  | .record => record
  | .union => union

/-- Induction with one case for both kinds of rows. -/
@[elab_as_elim]
theorem rowInduction {motive : Ty → Prop} (base : ∀ b, motive (base b))
    (matrix : ∀ k, motive (matrix k)) (object : ∀ c, motive (object c))
    (array : ∀ d r dl l, motive d → motive r → motive (array d r dl l))
    (row : ∀ kind ls d r, (∀ m, motive (d m)) → (∀ m, motive (r m)) → motive (row kind ls d r))
    (function : ∀ n d r dr s, (∀ i, motive (d i)) → (∀ i, motive (r i)) → motive dr → motive s →
      motive (function n d r dr s)) (t : Ty) : motive t := by
  induction t with
  | base b => exact base b
  | matrix k => exact matrix k
  | object c => exact object c
  | array d r dl l ihd ihr => exact array d r dl l ihd ihr
  | record ls d r ihd ihr => exact row .record ls d r ihd ihr
  | union ls d r ihd ihr => exact row .union ls d r ihd ihr
  | function n d r dr s ihd ihr ihdr ihs => exact function n d r dr s ihd ihr ihdr ihs

section

variable {k : RowKind} {ls : NameSet} {d r : ls.Member → Ty}

@[simp] theorem isUnknown_row : (row k ls d r).isUnknown = false := by
  cases k <;> rfl

@[simp] theorem family?_row : (row k ls d r).family? = some k.family := by
  cases k <;> rfl

theorem exists_row {t : Ty} (h : t.family? = some k.family) :
    ∃ ls d r, t = row k ls d r := by
  induction t using rowInduction with
  | row k' ls d r =>
      obtain rfl : k' = k := by
        cases k' <;> cases k <;> first | rfl | cases h
      exact ⟨ls, d, r, rfl⟩
  | _ => cases k <;> cases h

end

end Ty

end DataflowTypes
