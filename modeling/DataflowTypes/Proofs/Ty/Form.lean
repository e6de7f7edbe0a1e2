import DataflowTypes.Proofs.Ty.Conform

/-!
# Declared forms

The form of a type is what remains of it when the refinements of its places are dropped.  Main
statement: a candidate fits a type if and only if it fits its form, and is made into the same
type then.
-/

namespace DataflowTypes

namespace Ty

@[simp] theorem isConstant_fill (t u : Ty) : (fill t u).isConstant = u.isConstant := by
  cases u <;> rfl

@[simp] theorem isUnknown_fill (t u : Ty) : (fill t u).isUnknown = u.isUnknown := by
  cases u <;> rfl

@[simp] theorem hasInstance_fill (t u new : Ty) :
    (fill t u).hasInstance new = u.hasInstance new := by
  cases u with
  | base b => rfl
  | matrix k => rfl
  | object c => rfl
  | _ => cases new <;> rfl

/-! ## Components -/

section

variable {t d r new : Ty} {filled : Unit → Ty}

theorem fillComponent_fillComponent {s : Ty} {filled' : Unit → Ty} :
    fillComponent s d (fillComponent t d r filled) filled' = fillComponent s d r filled' := by
  unfold fillComponent
  split <;> rfl

theorem setComponent_fillComponent :
    setComponent d (fillComponent t d r filled) d.update new =
      setComponent d r d.update new := by
  cases constant : d.isConstant with
  | true => simp [fillComponent, constant]
  | false => simp [setComponent, constant]

theorem component_takes_fillComponent :
    Component.Takes ⟨d, fillComponent t d r filled⟩ new ↔ Component.Takes ⟨d, r⟩ new := by
  simp only [Component.Takes, setComponent_fillComponent]

end

theorem fill_fill (s t u : Ty) : fill s (fill t u) = fill s u := by
  induction u using rowInduction with
  | row k ls d r => simp only [fill_row, fillComponent_fillComponent]
  | function n d r dr s => simp only [fill_function, fillComponent_fillComponent]
  | array d r dl l => simp only [fill, fillComponent_fillComponent]
  | _ => rfl

/-! ## Updates -/

private theorem setRow_eq_of_accepted {ls : NameSet} {old : ls.Member → Ty}
    {set : ls.Member → Except TypeError Ty} (accepted : (setRow ls old set).2 = none)
    (old' : ls.Member → Ty) : setRow ls old' set = setRow ls old set := by
  have accepted' : (setRow ls old' set).2 = none :=
    setRow_refusal_eq_none_iff.2 (setRow_refusal_eq_none_iff.1 accepted)
  refine Prod.ext (funext fun m => ?_) (accepted'.trans accepted.symm)
  have here := (setRow_cases old set m).resolve_right fun kept => kept.2 accepted
  have there := (setRow_cases old' set m).resolve_right fun kept => kept.2 accepted'
  exact Except.ok.inj (there.symm.trans here)

private theorem setParams_eq_of_accepted {n : Nat} {old : Fin n → Ty}
    {set : Fin n → Except TypeError Ty} (accepted : (setParams old set).2 = none)
    (old' : Fin n → Ty) : setParams old' set = setParams old set := by
  have accepted' : (setParams old' set).2 = none :=
    setParams_refusal_eq_none_iff.2 (setParams_refusal_eq_none_iff.1 accepted)
  refine Prod.ext (funext fun i => ?_) (accepted'.trans accepted.symm)
  have here := (setParams_cases old set i).resolve_right fun kept => kept.2 accepted
  have there := (setParams_cases old' set i).resolve_right fun kept => kept.2 accepted'
  exact Except.ok.inj (there.symm.trans here)

theorem updateComponents_fill_refusal (t u new : Ty) :
    (updateComponents (fill t u) new).refusal = none ↔ (updateComponents u new).refusal = none := by
  induction u using rowInduction with
  | array d r dl l =>
      simp only [fill, updateComponents_array_iff, component_takes_fillComponent]
  | row k ls d r =>
      simp only [fill_row, updateComponents_row_iff, component_takes_fillComponent]
  | function n d r dr s =>
      simp only [fill_function, updateComponents_function_iff, component_takes_fillComponent]
  | _ => rfl

theorem updateComponents_fill_type {t u new : Ty}
    (accepted : (updateComponents u new).refusal = none) :
    (updateComponents (fill t u) new).type = (updateComponents u new).type := by
  induction u using rowInduction with
  | array d r dl l =>
      obtain ⟨d', r', dl', l', rfl, length, x, set⟩ := updateComponents_array_iff.1 accepted
      have element : setComponent d r d.update r' = .ok x := set
      simp only [fill, updateComponents_array length, setComponent_fillComponent, element]
  | row k ls d r =>
      obtain ⟨d', r', rfl, takes⟩ := updateComponents_row_iff.1 accepted
      have components := setRow_eq_of_accepted ((setRow_iff_takes d r r').2 takes)
      simp only [fill_row, updateComponents_row, setComponent_fillComponent, components]
  | function n d r dr s =>
      obtain ⟨d', r', dr', s', rfl, takes, x, set⟩ := updateComponents_function_iff.1 accepted
      have accepted := (setParams_iff_takes d r r').2 takes
      have params := setParams_eq_of_accepted accepted
      have result : setComponent dr s dr.update s' = .ok x := set
      simp only [fill_function, updateComponents_function, setComponent_fillComponent, params,
        accepted, result, Option.isSome_none, Bool.false_eq_true, if_false]
  | _ => rfl

end Ty

/-- A candidate is made into the same type, whatever the places were refined to before. -/
theorem conform_fill {t u : Ty} (settable : u.isConstant = false) (candidate : Ty) :
    conform (Ty.fill t u) candidate = conform u candidate := by
  cases unknown : u.isUnknown with
  | true => simp [conform, unknown]
  | false =>
      ext value
      have filled : (Ty.fill t u).update candidate = (Ty.fill t u).updateComponents candidate :=
        Ty.update_eq_updateComponents (by simpa using settable) (by simpa using unknown) _
      simp only [conform_eq_some_iff, Ty.Takes, filled, Ty.hasInstance_fill,
        Ty.update_eq_updateComponents settable unknown, Ty.updateComponents_fill_refusal]
      constructor
      · rintro ⟨⟨is_instance, accepted⟩, rfl⟩
        exact ⟨⟨is_instance, accepted⟩, (Ty.updateComponents_fill_type accepted).symm⟩
      · rintro ⟨⟨is_instance, accepted⟩, rfl⟩
        exact ⟨⟨is_instance, accepted⟩, Ty.updateComponents_fill_type accepted⟩

/-! ## Forms -/

namespace Ty

/-- The type without refinements; a constant type is kept as it is. -/
def form (t : Ty) : Ty := if t.isConstant then t else fill unknown t

@[simp] theorem isConstant_form (t : Ty) : t.form.isConstant = t.isConstant := by
  unfold form
  split <;> simp

@[simp] theorem isUnknown_form (t : Ty) : t.form.isUnknown = t.isUnknown := by
  unfold form
  split <;> simp

theorem form_eq_self {t : Ty} (constant : t.isConstant = true) : t.form = t := if_pos constant

theorem fill_form (s : Ty) {t : Ty} (settable : t.isConstant = false) :
    fill s t.form = fill s t := by
  rw [form, settable]
  exact fill_fill s unknown t

end Ty

theorem conform_form (t : Ty) : conform t.form = conform t := by
  funext candidate
  cases constant : t.isConstant with
  | true => rw [Ty.form_eq_self constant]
  | false =>
      rw [Ty.form, constant]
      exact conform_fill constant candidate

end DataflowTypes
