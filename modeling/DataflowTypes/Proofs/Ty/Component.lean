import DataflowTypes.Proofs.Lattice.Slot
import DataflowTypes.Proofs.Ty.Instance

/-!
# Components under updates

An update goes through the components in order until one of them refuses.  Main statement: after
it, each component is as it was before or has been set, and one that refuses is as it was.
-/

namespace DataflowTypes

namespace Ty

def component? : Ty → Slot → Option Component
  | array d r _ _, .element => some ⟨d, r⟩
  | record ls d r, .field l | union ls d r, .alternative l => ls.find? (fun m => ⟨d m, r m⟩) l
  | function k d r _ _, .param n i =>
      if h : n = k then some ⟨d (i.cast h), r (i.cast h)⟩ else none
  | function k _ _ dr s, .result n => if n = k then some ⟨dr, s⟩ else none
  | _, _ => none

def rowSlot : RowKind → String → Slot
  | .record => .field
  | .union => .alternative

theorem component?_row_iff {k : RowKind} {ls : NameSet} {d r : ls.Member → Ty} {slot : Slot}
    {c : Component} :
    (row k ls d r).component? slot = some c ↔
      ∃ l, ∃ h : l ∈ ls, slot = rowSlot k l ∧ ⟨d ⟨l, h⟩, r ⟨l, h⟩⟩ = c := by
  have labelled (l : String) : (row k ls d r).component? (rowSlot k l) =
      ls.find? (fun m => ⟨d m, r m⟩) l := by
    cases k <;> rfl
  constructor
  · intro found
    obtain ⟨l, rfl⟩ : ∃ l, slot = rowSlot k l := by
      cases k <;> cases slot <;> first | exact ⟨_, rfl⟩ | cases found
    obtain ⟨h, same⟩ := NameSet.find?_eq_some_iff.1 ((labelled l).symm.trans found)
    exact ⟨l, h, rfl, same⟩
  · rintro ⟨l, h, rfl, rfl⟩
    exact (labelled l).trans (NameSet.find?_eq_some_iff.2 ⟨h, rfl⟩)

theorem component?_param_iff {n k : Nat} {d r : Fin n → Ty} {dr s : Ty} {i : Fin k}
    {c : Component} :
    (function n d r dr s).component? (.param k i) = some c ↔
      ∃ h : k = n, ⟨d (i.cast h), r (i.cast h)⟩ = c := by
  by_cases same : k = n <;> simp [component?, same]

theorem component?_result_iff {n k : Nat} {d r : Fin n → Ty} {dr s : Ty} {c : Component} :
    (function n d r dr s).component? (.result k) = some c ↔ k = n ∧ ⟨dr, s⟩ = c := by
  by_cases same : k = n <;> simp [component?, same]

/-- The component is kept, or set to what the new type has at the slot. -/
def KeptOrSet (new : Ty) (slot : Slot) (c c' : Component) : Prop :=
  c' = c ∨ ∃ n, new.component? slot = some n ∧ c.set n.resolved = .ok c'

theorem set_of_setComponent {d r new t : Ty} (set : setComponent d r d.update new = .ok t) :
    Component.set ⟨d, r⟩ new = .ok ⟨d, t⟩ := by
  rw [Component.set, set]
  rfl

section

variable {slot : Slot} {c : Component}

private theorem component?_updateComponents {t : Ty} (found : t.component? slot = some c)
    (new : Ty) :
    ∃ c', (updateComponents t new).type.component? slot = some c' ∧ KeptOrSet new slot c c' := by
  induction t using rowInduction with
  | base b => cases found
  | matrix k => cases found
  | object k => cases found
  | array d r dl l =>
      obtain ⟨r₁, l₁, type_eq, ⟨rfl, rfl⟩ | ⟨d', r', dl', rfl, -, set⟩⟩ :=
        exists_updateComponents_array new d r dl l
      · rw [type_eq]
        exact ⟨c, found, .inl rfl⟩
      rw [type_eq]
      cases slot with
      | element =>
          cases found
          exact ⟨_, rfl, .inr ⟨⟨d', r'⟩, rfl, set_of_setComponent set⟩⟩
      | _ => cases found
  | row k ls d r =>
      obtain ⟨r₁, type_eq, rfl | ⟨d', r', rfl, components⟩⟩ :=
        exists_updateComponents_row new k d r
      · rw [type_eq]
        exact ⟨c, found, .inl rfl⟩
      rw [type_eq]
      obtain ⟨l, mem, rfl, rfl⟩ := component?_row_iff.1 found
      refine ⟨_, component?_row_iff.2 ⟨l, mem, rfl, rfl⟩,
        (components ⟨l, mem⟩).imp ?_ fun set => ?_⟩
      · exact congrArg _
      · exact ⟨_, component?_row_iff.2 ⟨l, mem, rfl, rfl⟩, set_of_setComponent set⟩
  | function n d r dr s =>
      obtain ⟨r₁, s₁, type_eq, ⟨rfl, rfl⟩ | ⟨d', r', dr', s', rfl, params, result⟩⟩ :=
        exists_updateComponents_function new d r dr s
      · rw [type_eq]
        exact ⟨c, found, .inl rfl⟩
      rw [type_eq]
      cases slot with
      | param k i =>
          obtain ⟨rfl, rfl⟩ := component?_param_iff.1 found
          refine ⟨_, component?_param_iff.2 ⟨rfl, rfl⟩, (params i).imp ?_ fun set => ?_⟩
          · exact congrArg _
          · exact ⟨_, component?_param_iff.2 ⟨rfl, rfl⟩, set_of_setComponent set⟩
      | result k =>
          obtain ⟨rfl, rfl⟩ := component?_result_iff.1 found
          refine ⟨_, component?_result_iff.2 ⟨rfl, rfl⟩, result.imp ?_ fun set => ?_⟩
          · exact congrArg _
          · exact ⟨_, component?_result_iff.2 ⟨rfl, rfl⟩, set_of_setComponent set⟩
      | _ => cases found

theorem component?_update {t : Ty} (found : t.component? slot = some c) (new : Ty) :
    ∃ c', (t.update new).type.component? slot = some c' ∧ KeptOrSet new slot c c' := by
  cases constant : t.isConstant with
  | true =>
      rw [update_of_isConstant constant]
      exact ⟨c, found, .inl rfl⟩
  | false =>
      have known : t.isUnknown = false := by
        cases t with
        | base b => cases found
        | _ => rfl
      rw [update_eq_updateComponents constant known]
      exact component?_updateComponents found new

theorem component?_update_of_refused {t new : Ty} {n : Component} {e : TypeError}
    (found : t.component? slot = some c) (given : new.component? slot = some n)
    (refused : c.set n.resolved = .error e) : (t.update new).type.component? slot = some c := by
  obtain ⟨c', found', rfl | ⟨n', given', set⟩⟩ := component?_update found new
  · exact found'
  · obtain rfl : n' = n := Option.some.inj (given'.symm.trans given)
    cases refused.symm.trans set

end

end Ty

end DataflowTypes
