import DataflowTypes.Proofs.Lattice.Compare
import DataflowTypes.Proofs.Ty.Agreement
import DataflowTypes.Proofs.Ty.Component
import DataflowTypes.Proofs.Ty.Form

/-!
# What changes leave behind

A type is changed by updates, some of them refused half-way, and by fillings.  Each of them may
leave its mark in the resolved components, but none reaches the declared form.  Main statements:
an update makes the type equal to what was asked for, and whether it succeeds does not depend on
earlier changes; a filling gives the same whenever it is made, and with `general` it gives the
greatest instance.
-/

namespace DataflowTypes

namespace Ty

/-! ## Changes -/

inductive Change
  | update (new : Ty)
  | fill (filling : Ty)

def Change.apply : Change → Ty → Ty
  | update new, t => (t.update new).type
  | fill filling, t => Ty.fill filling t

def changed (t : Ty) (history : List Change) : Ty := history.foldl (fun t c => c.apply t) t

/-! ## One change -/

/-- A constant component is never set to anything else, and in the others a filling does not see
what was there. -/
theorem fillComponent_of_set {s d r t new : Ty} {filled : Unit → Ty}
    (set : t = r ∨ setComponent d r d.update new = .ok t) :
    fillComponent s d t filled = fillComponent s d r filled := by
  rcases set with rfl | set
  · rfl
  · rcases setComponent_eq_ok_iff.1 set with ⟨-, -, rfl⟩ | ⟨settable, -⟩
    · rfl
    · simp [fillComponent, settable]

/-- A filling wipes out what an update has left, also one that was refused. -/
theorem fill_updateComponents (s t new : Ty) : fill s (updateComponents t new).type = fill s t := by
  induction t using rowInduction with
  | base b => rfl
  | matrix k => rfl
  | object c =>
      rw [updateComponents]
      split <;> rfl
  | array d r dl l =>
      obtain ⟨r₁, l₁, type_eq, ⟨rfl, rfl⟩ | ⟨d', r', dl', -, -, set⟩⟩ :=
        exists_updateComponents_array new d r dl l
      · rw [type_eq]
      · rw [type_eq, fill, fill, fillComponent_of_set (.inr set)]
  | row k ls d r =>
      obtain ⟨r₁, type_eq, rfl | ⟨d', r', -, components⟩⟩ := exists_updateComponents_row new k d r
      · rw [type_eq]
      · simp only [type_eq, fill_row, fillComponent_of_set (components _)]
  | function n d r dr q =>
      obtain ⟨r₁, q₁, type_eq, ⟨rfl, rfl⟩ | ⟨d', r', dr', q', -, params, result⟩⟩ :=
        exists_updateComponents_function new d r dr q
      · rw [type_eq]
      · simp only [type_eq, fill_function, fillComponent_of_set (params _),
          fillComponent_of_set result]

private theorem fill_update {t : Ty} (known : t.isUnknown = false) (s new : Ty) :
    fill s (t.update new).type = fill s t := by
  cases constant : t.isConstant with
  | true => rw [update_of_isConstant constant]
  | false =>
      rw [update_eq_updateComponents constant known]
      exact fill_updateComponents s t new

private theorem Change.fill_apply {t : Ty} (known : t.isUnknown = false) (s : Ty) (c : Change) :
    Ty.fill s (c.apply t) = Ty.fill s t := by
  cases c with
  | update new => exact fill_update known s new
  | fill filling => exact fill_fill s filling t

theorem fill_of_isConstant {t : Ty} (coherent : t.Coherent) (constant : t.isConstant = true)
    (s : Ty) : fill s t = t := by
  have kept {d r : Ty} {filled : Unit → Ty} (constant : d.isConstant = true) :
      fillComponent s d r filled = r := if_pos constant
  induction t using rowInduction with
  | base b => rfl
  | matrix k => rfl
  | object c => rfl
  | array d r dl l =>
      have element : d.isConstant = true := constant
      rw [fill, kept element, coherent.2.2 element]
  | row k ls d r => simp only [fill_row, kept (isConstant_row_iff.1 constant _)]
  | function n d r dr q =>
      obtain ⟨params, result⟩ := isConstant_function_iff.1 constant
      simp only [fill_function, kept (params _), kept result]

private theorem Change.apply_of_isConstant {t : Ty} (coherent : t.Coherent)
    (constant : t.isConstant = true) (c : Change) : c.apply t = t := by
  cases c with
  | update new => exact update_of_isConstant constant new
  | fill filling => exact fill_of_isConstant coherent constant filling

/-! ## Histories -/

theorem fill_changed {t : Ty} (known : t.isUnknown = false) (s : Ty) (history : List Change) :
    fill s (t.changed history) = fill s t := by
  induction history generalizing t with
  | nil => rfl
  | cons c history ih =>
      have same := c.fill_apply known
      have known' : (c.apply t).isUnknown = false := by
        rw [← isUnknown_fill s, same, isUnknown_fill, known]
      exact (ih known').trans (same s)

private theorem changed_of_isConstant {t : Ty} (coherent : t.Coherent)
    (constant : t.isConstant = true) (history : List Change) : t.changed history = t := by
  induction history with
  | nil => rfl
  | cons c history ih =>
      rw [changed, List.foldl_cons, c.apply_of_isConstant coherent constant]
      exact ih

private theorem update_congr_fill {t t' : Ty} (settable : t.isConstant = false)
    (known : t.isUnknown = false) (same : ∀ s, fill s t' = fill s t) (u : Ty) :
    ((t'.update u).refusal = none ↔ (t.update u).refusal = none) ∧
      ((t.update u).refusal = none → (t'.update u).type = (t.update u).type) := by
  have settable' : t'.isConstant = false := by
    rw [← isConstant_fill unknown, same, isConstant_fill, settable]
  have known' : t'.isUnknown = false := by
    rw [← isUnknown_fill unknown, same, isUnknown_fill, known]
  rw [update_eq_updateComponents settable known, update_eq_updateComponents settable' known']
  have accepted :
      (updateComponents t' u).refusal = none ↔ (updateComponents t u).refusal = none := by
    rw [← updateComponents_fill_refusal unknown t', same, updateComponents_fill_refusal]
  refine ⟨accepted, fun h => ?_⟩
  rw [← updateComponents_fill_type (t := unknown) (accepted.2 h), same,
    updateComponents_fill_type h]

theorem update_changed {t : Ty} (coherent : t.Coherent) (known : t.isUnknown = false)
    (history : List Change) (u : Ty) :
    (((t.changed history).update u).refusal = none ↔ (t.update u).refusal = none) ∧
      ((t.update u).refusal = none → ((t.changed history).update u).type = (t.update u).type) := by
  cases constant : t.isConstant with
  | true =>
      -- A constant type is compared as it is, so it matters that it never changes.
      rw [changed_of_isConstant coherent constant]
      exact ⟨Iff.rfl, fun _ => rfl⟩
  | false => exact update_congr_fill constant known (fun s => fill_changed known s history) u

/-! ## Updates -/

/-- An update that is accepted makes the type equal to an instance of it.  Whether it is accepted,
and what the type is then, does not depend on earlier changes.  A component that refuses what it
is to be set to is left as it is. -/
theorem update_historyFree {t : Ty} (h : t.Obtained) (u : Ty) :
    ((t.update u).refusal = none → ((t.update u).type == u) = true ∧ t.hasInstance u = true) ∧
    (t.isUnknown = false → ∀ history,
      (((t.changed history).update u).refusal = none ↔ (t.update u).refusal = none) ∧
        ((t.update u).refusal = none →
          ((t.changed history).update u).type = (t.update u).type)) ∧
    ∀ slot c n e, t.component? slot = some c → u.component? slot = some n →
      c.set n.resolved = .error e → (t.update u).type.component? slot = some c := by
  refine ⟨fun accepted => ?_, fun known history => update_changed h.coherent known history u,
    fun slot c n e => component?_update_of_refused⟩
  exact ⟨update_beq accepted, ((update_iff_keepsLengths h.coherent u).1 accepted).1⟩

/-- An update is refused when one parameter has been set.  The other one, in which again a
parameter could be set before a constant array refused, is left as it is; and the next update does
not see what has happened. -/
theorem update_historyFree_halfway :
    let inner := functionOf [unknown, arrayOf (base .int) none] (base .int)
    let measured := functionOf [base .string, arrayOf (base .int) (some 3)] (base .int)
    let filled := functionOf [base .boolean, arrayOf (base .int) none] (base .int)
    let t := functionOf [unknown, inner] (base .int)
    let refused := functionOf [base .string, measured] (base .int)
    let u := functionOf [base .boolean, filled] (base .int)
    (t.update refused).refusal.isSome = true ∧
      (t.changed [.update refused] == functionOf [base .string, inner] (base .int)) = true ∧
      (t.update refused).type.component? (.param 2 1) = some ⟨inner, inner⟩ ∧
      ((t.changed [.update refused, .fill general]).update u).refusal = none ∧
      (((t.changed [.update refused, .fill general]).update u).type == u) = true := by
  intro inner measured filled t refused u
  have obtained : t.Obtained := by
    have parts : inner.Obtained := by
      refine .functionOf ?_ (.base _)
      simpa using ⟨.base _, .arrayOf (.base _) _⟩
    refine .functionOf ?_ (.base _)
    simpa using ⟨.base _, parts⟩
  have accepted : (t.update u).refusal = none := by decide
  obtain ⟨-, -, keeps⟩ := update_historyFree obtained refused
  obtain ⟨precise, free, -⟩ := update_historyFree obtained u
  obtain ⟨same, type_eq⟩ := free rfl [.update refused, .fill general]
  refine ⟨by decide, by decide, ?_, same.2 accepted, ?_⟩
  · exact keeps (.param 2 1) ⟨inner, inner⟩ ⟨measured, measured⟩
      (.constantType (arrayOf (base .int) none) (arrayOf (base .int) (some 3))) rfl rfl rfl
  · rw [type_eq accepted]
    exact (precise accepted).1

/-! ## Greatest instances -/

theorem below_fillComponent {d r u : Ty} (coherent : Component.Coherent ⟨d, r⟩)
    (filled : d.isUnknown = false → Below u (fill general d)) :
    Below u (fillComponent general d r fun _ => fill general d) := by
  cases unknown : d.isUnknown with
  | true =>
      rw [fillComponent, isConstant_of_isUnknown unknown, unknown]
      exact .top u
  | false =>
      have below := filled unknown
      cases constant : d.isConstant with
      | true =>
          -- A constant component keeps its type, which denotes the declared one.
          rw [fill_of_isConstant coherent.2.1 constant] at below
          rw [fillComponent, constant]
          exact below.trans (below_of_beq (coherent.1.constant constant)).2
      | false =>
          rw [fillComponent, constant, unknown]
          exact below

theorem below_fill_general {t u : Ty} (coherent : t.Coherent) (known : t.isUnknown = false)
    (h : t.hasInstance u = true) : Below u (fill general t) := by
  induction t using rowInduction generalizing u with
  | base b =>
      obtain rfl := eq_of_hasInstance h known (.inl rfl)
      exact .refl _
  | matrix k =>
      obtain rfl := eq_of_hasInstance h known (.inl rfl)
      exact .refl _
  | object c =>
      obtain rfl := eq_of_hasInstance h known (.inr ⟨c, rfl⟩)
      exact .refl _
  | array d r dl l ih _ =>
      obtain ⟨d', r', dl', l', rfl, length, element⟩ := hasInstance_array_iff.1 h
      refine below_array_iff.2 ⟨?_, below_fillComponent coherent.1 fun known =>
        ih coherent.1.2.1 known element⟩
      cases dl with
      | none => exact .inl rfl
      | some n => exact .inr (length n rfl)
  | row k ls d r ih _ =>
      obtain ⟨d', r', rfl, components⟩ := hasInstance_row_iff.1 h
      rw [coherent_row_iff] at coherent
      rw [fill_row]
      refine below_row_iff.2 fun m => ?_
      exact below_fillComponent (coherent m) fun known =>
        ih m (coherent m).2.1 known (components m)
  | function n d r dr s ih _ ihResult _ =>
      obtain ⟨d', r', dr', s', rfl, params, result⟩ := hasInstance_function_iff.1 h
      rw [fill_function]
      refine below_function_iff.2 ⟨rfl, fun i => ?_, ?_⟩
      · exact below_fillComponent (coherent.1 i) fun known =>
          ih i (coherent.1 i).2.1 known (params i)
      · exact below_fillComponent coherent.2 fun known =>
          ihResult coherent.2.2.1 known result

/-- A filling does not depend on earlier changes, and with `general` it gives the greatest
instance of the form. -/
theorem fill_general_greatest {t : Ty} (h : t.Obtained) (structured : t.isStructured = true) :
    (∀ x history, fill x (t.changed history) = fill x t) ∧
      t.hasInstance (fill general t) = true ∧
      ∀ u, t.hasInstance u = true → u ≤ fill general t := by
  have known : t.isUnknown = false := by
    cases t with
    | base b => cases structured
    | _ => rfl
  have top : general.Coherent := trivial
  refine ⟨fun x history => fill_changed known x history, (admits_fill top h.coherent).1,
    fun u fits => ?_⟩
  exact le_iff_below.2 (below_fill_general h.coherent known fits)

theorem fill_general_greatest_measured :
    let t := arrayOf (functionOf [unknown] (base .int)) none
    let u := arrayOf (functionOf [base .string] (base .int)) (some 3)
    let misfit := arrayOf (functionOf [base .string] (base .string)) (some 3)
    t.hasInstance u = true ∧ u ≤ fill general t ∧
      (fill general t == arrayOf (functionOf [general] (base .int)) none) = true ∧
      (t.changed [.update u, .update misfit] == u) = true ∧
      fill general (t.changed [.update u, .update misfit]) = fill general t := by
  intro t u misfit
  have obtained : t.Obtained := by
    refine .arrayOf (.functionOf ?_ (.base _)) none
    simp [Obtained.base]
  have fits : t.hasInstance u = true := by decide
  obtain ⟨reset, -, greatest⟩ := fill_general_greatest obtained rfl
  exact ⟨fits, greatest u fits, by decide, by decide, reset general _⟩

end Ty

end DataflowTypes
