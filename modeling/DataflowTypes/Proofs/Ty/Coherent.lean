import DataflowTypes.Proofs.Lattice.Componentwise
import DataflowTypes.Proofs.Ty.Instance
import DataflowTypes.Proofs.Ty.Text

/-!
# Coherent types

A component is coherent if it is resolved to an instance of its declared type, and to the
declared type itself where that is constant.  Main statement: in every type that can be
obtained at all, all components are coherent at every level, in the declared as well as in
the resolved types, and no array has another length than the declared one.  Refused updates
count too: they leave some components changed and others not.
-/

namespace DataflowTypes

namespace Ty

structure Refines (declared resolved : Ty) : Prop where
  hasInstance : declared.hasInstance resolved = true
  constant : declared.isConstant = true → (resolved == declared) = true

/-- All components are resolved within their declared form, at every level.  An array keeps
a length it was declared with, and also that it was declared without one if its element
cannot be refined. -/
def Coherent : Ty → Prop
  | base _ | matrix _ | object _ => True
  | array d r dl l =>
      (d.Refines r ∧ d.Coherent ∧ r.Coherent) ∧ (∀ n, dl = some n → l = some n) ∧
        (d.isConstant = true → l = dl)
  | record _ d r | union _ d r => ∀ m, (d m).Refines (r m) ∧ (d m).Coherent ∧ (r m).Coherent
  | function _ d r dr s =>
      (∀ i, (d i).Refines (r i) ∧ (d i).Coherent ∧ (r i).Coherent) ∧
        dr.Refines s ∧ dr.Coherent ∧ s.Coherent

theorem coherent_row_iff {k : RowKind} {ls : NameSet} {d r : ls.Member → Ty} :
    (row k ls d r).Coherent ↔ ∀ m, (d m).Refines (r m) ∧ (d m).Coherent ∧ (r m).Coherent := by
  cases k <;> rfl

theorem Coherent.hasInstance_self {t : Ty} (h : t.Coherent) : t.hasInstance t = true := by
  induction t using rowInduction with
  | base b => cases b <;> simp [hasInstance]
  | matrix k => simp [hasInstance]
  | object c => simp [hasInstance]
  | array d r dl l => exact hasInstance_array_iff.2 ⟨d, r, dl, l, rfl, h.2.1, h.1.1.hasInstance⟩
  | row k ls d r =>
      exact hasInstance_row_iff.2 ⟨d, r, rfl, fun m => (coherent_row_iff.1 h m).1.hasInstance⟩
  | function n d r dr s =>
      exact hasInstance_function_iff.2
        ⟨d, r, dr, s, rfl, fun i => (h.1 i).1.hasInstance, h.2.1.hasInstance⟩

def Admits (t u : Ty) : Prop := t.hasInstance u = true ∧ u.Coherent

theorem Coherent.admits_self {t : Ty} (h : t.Coherent) : t.Admits t := ⟨h.hasInstance_self, h⟩

theorem Coherent.refines_self {t : Ty} (h : t.Coherent) : t.Refines t :=
  ⟨h.hasInstance_self, fun _ => BEq.rfl⟩

end Ty

namespace Component

def Coherent (c : Component) : Prop :=
  c.declared.Refines c.resolved ∧ c.declared.Coherent ∧ c.resolved.Coherent

theorem coherent_new {t : Ty} (h : t.Coherent) : (Component.new t).Coherent :=
  ⟨h.refines_self, h, h⟩

theorem coherent_of_admits {d t : Ty} (hd : d.Coherent) (settable : d.isConstant = false)
    (admits : d.Admits t) : Coherent ⟨d, t⟩ :=
  ⟨⟨admits.1, fun constant => by simp [constant] at settable⟩, hd, admits.2⟩

end Component

namespace Ty

/-! ## Construction and bounds -/

theorem coherent_arrayOf {t : Ty} (n : Option Nat) (h : t.Coherent) : (arrayOf t n).Coherent :=
  ⟨Component.coherent_new h, fun _ => id, fun _ => rfl⟩

theorem coherent_ofFields {row : Row Ty} (h : ∀ l, (row.value l).Coherent) :
    (ofFields row).Coherent :=
  fun l => Component.coherent_new (h l)

theorem coherent_ofAlternatives {row : Row Ty} (h : ∀ l, (row.value l).Coherent) :
    (ofAlternatives row).Coherent :=
  fun l => Component.coherent_new (h l)

theorem coherent_function {n : Nat} {params : Fin n → Ty} {result : Ty}
    (hParams : ∀ i, (params i).Coherent) (hResult : result.Coherent) :
    (function n params params result result).Coherent :=
  ⟨fun i => Component.coherent_new (hParams i), Component.coherent_new hResult⟩

theorem coherent_ofNode (p : Node) : (ofNode p).Coherent := by
  have unknown : unknown.Coherent := trivial
  have nothing (m : (Row.empty : Row Ty).labels.Member) :
      ((Row.empty : Row Ty).value m).Coherent := absurd m.2 (NameSet.not_mem_empty m.1)
  match p with
  | .base _ => trivial
  | .matrix _ => trivial
  | .family .array => exact coherent_arrayOf none unknown
  | .family .record => exact coherent_ofFields nothing
  | .family .union => exact coherent_ofAlternatives nothing
  | .family .function => exact coherent_function (fun i => i.elim0) unknown
  | .family .object => trivial

theorem coherent_componentwise : Componentwise Coherent where
  ofNode := coherent_ofNode
  object _ := trivial
  arrayOf := coherent_arrayOf
  ofFields := coherent_ofFields
  ofAlternatives := coherent_ofAlternatives
  functionOf := coherent_function
  element h := h.1.2.2
  field h l := (h l).2.2
  alternative h l := (h l).2.2
  param h i := (h.1 i).2.2
  result h := h.2.2.2

theorem coherent_redeclared (t : Ty) : t.redeclared.Coherent := by
  induction t using rowInduction with
  | base => trivial
  | matrix => trivial
  | object => trivial
  | array _ _ _ _ _ ih => exact coherent_arrayOf _ ih
  | row _ _ _ _ _ ih =>
      rw [redeclared_row]
      exact coherent_row_iff.2 fun m => Component.coherent_new (ih m)
  | function _ _ _ _ _ _ ihParams _ ihResult => exact coherent_function ihParams ihResult

/-! ## Filling -/

theorem coherent_fillComponent {t d r : Ty} (ht : t.Coherent) (h : Component.Coherent ⟨d, r⟩)
    (filled : d.Admits (fill t d)) :
    Component.Coherent ⟨d, fillComponent t d r fun _ => fill t d⟩ := by
  cases constant : d.isConstant with
  | true => simpa [fillComponent, constant] using h
  | false =>
      refine Component.coherent_of_admits h.2.1 constant ?_
      cases unknown : d.isUnknown with
      | true =>
          simpa [fillComponent, constant, unknown] using ⟨hasInstance_of_isUnknown unknown t, ht⟩
      | false => simpa [fillComponent, constant, unknown] using filled

theorem admits_fill {t u : Ty} (ht : t.Coherent) (hu : u.Coherent) : u.Admits (fill t u) := by
  induction u using rowInduction with
  | base => exact hu.admits_self
  | matrix => exact hu.admits_self
  | object => exact hu.admits_self
  | array d r dl l ih _ =>
      have element := coherent_fillComponent ht hu.1 (ih hu.1.2.1)
      exact ⟨hasInstance_array_iff.2 ⟨_, _, _, _, rfl, fun _ => id, element.1.hasInstance⟩,
        element, fun _ => id, fun _ => rfl⟩
  | row k ls d r ih _ =>
      rw [coherent_row_iff] at hu
      have components (m) := coherent_fillComponent ht (hu m) (ih m (hu m).2.1)
      rw [fill_row]
      exact ⟨hasInstance_row_iff.2 ⟨_, _, rfl, fun m => (components m).1.hasInstance⟩,
        coherent_row_iff.2 components⟩
  | function n d r dr s ih _ ihResult _ =>
      have params (i) := coherent_fillComponent ht (hu.1 i) (ih i (hu.1 i).2.1)
      have result := coherent_fillComponent ht hu.2 (ihResult hu.2.2.1)
      rw [fill_function]
      exact ⟨hasInstance_function_iff.2 ⟨_, _, _, _, rfl, fun i => (params i).1.hasInstance,
        result.1.hasInstance⟩, params, result⟩

/-! ## Updating -/

/-- A component that is kept or set stays coherent, if updates of its declared type are
instances. -/
theorem coherent_setComponent {d r new t : Ty} (h : Component.Coherent ⟨d, r⟩)
    (hNew : new.Coherent) (updated : d.Admits (d.update new).type)
    (set : t = r ∨ setComponent d r d.update new = .ok t) : Component.Coherent ⟨d, t⟩ := by
  rcases set with rfl | set
  · exact h
  rcases setComponent_eq_ok_iff.1 set with ⟨-, -, rfl⟩ | ⟨settable, fits, set⟩
  · exact h
  · refine Component.coherent_of_admits h.2.1 settable ?_
    split at set
    · subst set
      exact ⟨fits, hNew⟩
    · obtain ⟨-, rfl⟩ := set
      exact updated

theorem admits_update_of_components {t new : Ty} (ht : t.Coherent) (known : t.isUnknown = false)
    (components : t.isConstant = false → t.Admits (updateComponents t new).type) :
    t.Admits (t.update new).type := by
  cases constant : t.isConstant with
  | true =>
      rw [update_of_isConstant constant]
      exact ht.admits_self
  | false =>
      rw [update_eq_updateComponents constant known]
      exact components constant

/-- Whether it is refused or not, an update leaves an instance of what was there. -/
theorem admits_update {t new : Ty} (ht : t.Coherent) (hNew : new.Coherent) :
    t.Admits (t.update new).type := by
  induction t using rowInduction generalizing new with
  | base b =>
      cases unknown : (base b).isUnknown with
      | true =>
          rw [update_of_isUnknown unknown]
          exact ⟨hasInstance_of_isUnknown unknown new, hNew⟩
      | false => exact admits_update_of_components ht unknown fun _ => ht.admits_self
  | matrix k => exact admits_update_of_components ht rfl fun _ => ht.admits_self
  | object c =>
      refine admits_update_of_components ht rfl fun _ => ?_
      rw [updateComponents]
      split <;> exact ht.admits_self
  | array d r dl l ih _ =>
      refine admits_update_of_components ht rfl fun settable => ?_
      obtain ⟨r₁, l₁, type_eq, ⟨rfl, rfl⟩ | ⟨d', r', dl', rfl, length, set⟩⟩ :=
        exists_updateComponents_array new d r dl l
      · rw [type_eq]
        exact ht.admits_self
      have element := coherent_setComponent ht.1 hNew.1.2.2 (ih ht.1.2.1 hNew.1.2.2) (.inr set)
      rw [type_eq]
      refine ⟨hasInstance_array_iff.2 ⟨_, _, _, _, rfl, length, element.1.hasInstance⟩,
        element, length, fun constant => ?_⟩
      exact absurd (constant.symm.trans settable) (by simp)
  | row k ls d r ih _ =>
      refine admits_update_of_components ht isUnknown_row fun _ => ?_
      obtain ⟨r₁, type_eq, rfl | ⟨d', r', rfl, set⟩⟩ := exists_updateComponents_row new k d r
      · rw [type_eq]
        exact ht.admits_self
      rw [coherent_row_iff] at ht hNew
      have components (m) := coherent_setComponent (ht m) (hNew m).2.2
        (ih m (ht m).2.1 (hNew m).2.2) (set m)
      rw [type_eq]
      exact ⟨hasInstance_row_iff.2 ⟨_, _, rfl, fun m => (components m).1.hasInstance⟩,
        coherent_row_iff.2 components⟩
  | function n d r dr s ih _ ihResult _ =>
      refine admits_update_of_components ht rfl fun _ => ?_
      obtain ⟨r₁, s₁, type_eq, ⟨rfl, rfl⟩ | ⟨d', r', dr', s', rfl, set, setResult⟩⟩ :=
        exists_updateComponents_function new d r dr s
      · rw [type_eq]
        exact ht.admits_self
      have params (i) := coherent_setComponent (ht.1 i) (hNew.1 i).2.2
        (ih i (ht.1 i).2.1 (hNew.1 i).2.2) (set i)
      have result := coherent_setComponent ht.2 hNew.2.2.2
        (ihResult ht.2.2.1 hNew.2.2.2) setResult
      rw [type_eq]
      exact ⟨hasInstance_function_iff.2 ⟨_, _, _, _, rfl, fun i => (params i).1.hasInstance,
        result.1.hasInstance⟩, params, result⟩

/-! ## Types that can be obtained -/

private theorem coherent_recordOf {entries : List (String × Ty)} {t : Ty}
    (h : recordOf entries = .ok t) (each : ∀ e ∈ entries, e.2.Coherent) : t.Coherent := by
  obtain ⟨row, rowOf, h⟩ := bind_eq_ok_iff.1 h
  obtain rfl : ofFields row = t := Except.ok.inj h
  exact coherent_ofFields fun m => each _ (mem_of_rowOf rowOf m)

private theorem coherent_unionOf {entries : List (String × Ty)} {t : Ty}
    (h : unionOf entries = .ok t) (each : ∀ e ∈ entries, e.2.Coherent) : t.Coherent := by
  obtain ⟨row, rowOf, h⟩ := bind_eq_ok_iff.1 h
  obtain rfl : ofAlternatives row = t := Except.ok.inj h
  exact coherent_ofAlternatives fun m => each _ (mem_of_rowOf rowOf m)

/-- The types that can be built, read, bounded, filled and updated. -/
inductive Obtained : Ty → Prop
  | base (b : BaseType) : Obtained (.base b)
  | matrix (k : MatrixKind) : Obtained (.matrix k)
  | object (c : ObjectClass) : Obtained (.object c)
  | objectOf (path : List String) : Obtained (.objectOf path)
  | arrayOf {t : Ty} (element : Obtained t) (length : Option Nat) : Obtained (.arrayOf t length)
  | recordOf {entries : List (String × Ty)} {t : Ty} (fields : ∀ e ∈ entries, Obtained e.2)
      (built : Ty.recordOf entries = .ok t) : Obtained t
  | unionOf {entries : List (String × Ty)} {t : Ty} (alternatives : ∀ e ∈ entries, Obtained e.2)
      (built : Ty.unionOf entries = .ok t) : Obtained t
  | functionOf {ps : List Ty} {s : Ty} (params : ∀ t ∈ ps, Obtained t) (result : Obtained s) :
      Obtained (.functionOf ps s)
  | ofNode (p : Node) : Obtained (.ofNode p)
  | parse {source : String} {t : Ty} (read : Ty.parse source = .ok t) : Obtained t
  | meet {a b : Ty} (left : Obtained a) (right : Obtained b) : Obtained (a.meet b)
  | join {a b : Ty} (left : Obtained a) (right : Obtained b) : Obtained (a.join b)
  | fill {t u : Ty} (filling : Obtained t) (filled : Obtained u) : Obtained (.fill t u)
  /-- Refused or not. -/
  | update {t new : Ty} (old : Obtained t) (given : Obtained new) :
      Obtained (t.update new).type

theorem Obtained.coherent {t : Ty} (h : t.Obtained) : t.Coherent := by
  induction h with
  | base => trivial
  | matrix => trivial
  | object => trivial
  | objectOf => trivial
  | arrayOf _ length ih => exact coherent_arrayOf length ih
  | recordOf _ built ih => exact coherent_recordOf built ih
  | unionOf _ built ih => exact coherent_unionOf built ih
  | functionOf _ _ ih ihResult =>
      exact coherent_function (fun i => ih _ (List.get_mem _ i)) ihResult
  | ofNode p => exact coherent_ofNode p
  | parse read =>
      rw [← (fresh_of_parse read).2]
      exact coherent_redeclared _
  | meet _ _ ihLeft ihRight => exact coherent_componentwise.meet ihLeft ihRight
  | join _ _ ihLeft ihRight => exact coherent_componentwise.join ihLeft ihRight
  | fill _ _ ih ih' => exact (admits_fill ih ih').2
  | update _ _ ih ih' => exact (admits_update ih ih').2

/-- Every type that can be obtained is coherent, and so an instance of itself. -/
theorem obtained_coherent {t : Ty} (h : t.Obtained) : t.Coherent ∧ t.hasInstance t = true :=
  ⟨h.coherent, h.coherent.hasInstance_self⟩

theorem obtained_coherent_refused :
    let t := functionOf [unknown, Ty.base .int] (Ty.base .int)
    let new := functionOf [Ty.base .string, Ty.base .string] (Ty.base .int)
    let changed := (t.update new).type
    (t.update new).refusal.isSome = true ∧
      (changed == functionOf [Ty.base .string, Ty.base .int] (Ty.base .int)) = true ∧
      changed.Coherent ∧ changed.hasInstance changed = true := by
  intro t new changed
  have obtained : changed.Obtained := by
    refine .update (.functionOf ?_ (.base _)) (.functionOf ?_ (.base _))
    · simp [Obtained.base]
    · simp [Obtained.base]
  exact ⟨by decide, by decide, obtained_coherent obtained⟩

end Ty

end DataflowTypes
