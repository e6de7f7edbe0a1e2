import DataflowTypes.Proofs.Ty.Coherent
import DataflowTypes.Solver.Run

/-!
# Candidates between instances

A declared form takes a type if the type is an instance of it and the form can be updated to
it.  The two differ where a constant component is an array of unknown length, which has
instances of every length but takes none of them.  Main statements: an update that is not
refused makes the form equal to the candidate, and a form takes whatever lies between a type
that it takes and an instance.
-/

namespace DataflowTypes

def Component.Takes (c : Component) (t : Ty) : Prop :=
  ∃ u, Ty.setComponent c.declared c.resolved c.declared.update t = .ok u

namespace Ty

/-- The second type is an instance of the first, and the first can be updated to it. -/
def Takes (t new : Ty) : Prop := t.hasInstance new = true ∧ (t.update new).refusal = none

theorem Takes.of_isUnknown {t : Ty} (h : t.isUnknown = true) (new : Ty) : t.Takes new :=
  ⟨hasInstance_of_isUnknown h new, by rw [update_of_isUnknown h]⟩

theorem component_takes_iff {d r new : Ty} : Component.Takes ⟨d, r⟩ new ↔
    if d.isConstant then (r == new) = true else d.Takes new := by
  simp only [Component.Takes, setComponent_eq_ok_iff, Takes]
  cases constant : d.isConstant with
  | true => simp
  | false =>
      cases unknown : d.isUnknown with
      | true => simp [update_of_isUnknown unknown]
      | false => simp

/-! ## What is not refused -/

section

variable {ls : NameSet} (d r r' : ls.Member → Ty)

theorem setRow_iff_takes :
    (setRow ls r fun m => setComponent (d m) (r m) (d m).update (r' m)).2 = none ↔
      ∀ m, Component.Takes ⟨d m, r m⟩ (r' m) := setRow_refusal_eq_none_iff

variable {d r r'}

private theorem set_of_setRow
    (h : (setRow ls r fun m => setComponent (d m) (r m) (d m).update (r' m)).2 = none)
    (m : ls.Member) : setComponent (d m) (r m) (d m).update (r' m) =
      .ok ((setRow ls r fun m => setComponent (d m) (r m) (d m).update (r' m)).1 m) :=
  (setRow_cases r _ m).resolve_right fun kept => kept.2 h

end

section

variable {n : Nat} (d r r' : Fin n → Ty)

theorem setParams_iff_takes :
    (setParams r fun i => setComponent (d i) (r i) (d i).update (r' i)).2 = none ↔
      ∀ i, Component.Takes ⟨d i, r i⟩ (r' i) := setParams_refusal_eq_none_iff

variable {d r r'}

private theorem set_of_setParams
    (h : (setParams r fun i => setComponent (d i) (r i) (d i).update (r' i)).2 = none)
    (i : Fin n) : setComponent (d i) (r i) (d i).update (r' i) =
      .ok ((setParams r fun i => setComponent (d i) (r i) (d i).update (r' i)).1 i) :=
  (setParams_cases r _ i).resolve_right fun kept => kept.2 h

end

theorem updateComponents_array_iff {d r new : Ty} {dl l : Option Nat} :
    (updateComponents (array d r dl l) new).refusal = none ↔ ∃ d' r' dl' l',
      new = array d' r' dl' l' ∧ (∀ n, dl = some n → l' = some n) ∧
        Component.Takes ⟨d, r⟩ r' := by
  constructor
  · intro h
    rcases updateComponents_array_or (d := d) (r := r) (l := l) new with
      ⟨d', r', dl', l', rfl, length⟩ | refused
    · rw [updateComponents_array length] at h
      split at h
      · next set => exact ⟨d', r', dl', l', rfl, length, _, set⟩
      · cases h
    · simp [refused] at h
  · rintro ⟨d', r', dl', l', rfl, length, u, set⟩
    rw [updateComponents_array length, set]

theorem updateComponents_row_iff {k : RowKind} {ls : NameSet} {d r : ls.Member → Ty} {new : Ty} :
    (updateComponents (row k ls d r) new).refusal = none ↔ ∃ d' r',
      new = row k ls d' r' ∧ ∀ m, Component.Takes ⟨d m, r m⟩ (r' m) := by
  constructor
  · intro h
    rcases updateComponents_row_or (k := k) (d := d) (r := r) new with ⟨d', r', rfl⟩ | refused
    · rw [updateComponents_row] at h
      exact ⟨d', r', rfl, (setRow_iff_takes d r r').1 h⟩
    · simp [refused] at h
  · rintro ⟨d', r', rfl, takes⟩
    rw [updateComponents_row]
    exact (setRow_iff_takes d r r').2 takes

theorem updateComponents_function_iff {n : Nat} {d r : Fin n → Ty} {dr s new : Ty} :
    (updateComponents (function n d r dr s) new).refusal = none ↔ ∃ d' r' dr' s',
      new = function n d' r' dr' s' ∧ (∀ i, Component.Takes ⟨d i, r i⟩ (r' i)) ∧
        Component.Takes ⟨dr, s⟩ s' := by
  constructor
  · intro h
    rcases @updateComponents_function_or n d r dr s new with
      ⟨d', r', dr', s', rfl⟩ | refused
    · rw [updateComponents_function] at h
      dsimp only at h
      split at h
      · next refused =>
          dsimp only at h
          simp [h] at refused
      · next params =>
          rw [Bool.not_eq_true, Option.isSome_eq_false_iff, Option.isNone_iff_eq_none] at params
          split at h
          · next set =>
              exact ⟨d', r', dr', s', rfl, (setParams_iff_takes d r r').1 params, _, set⟩
          · cases h
    · simp [refused] at h
  · rintro ⟨d', r', dr', s', rfl, takes, u, set⟩
    have params := (setParams_iff_takes d r r').2 takes
    rw [updateComponents_function, show setComponent dr s dr.update s' = .ok u from set]
    simp [params]

/-! ## Updates are exact -/

theorem beq_of_setComponent {d r new t : Ty}
    (updated : (d.update new).refusal = none → ((d.update new).type == new) = true)
    (set : setComponent d r d.update new = .ok t) : (t == new) = true := by
  rcases setComponent_eq_ok_iff.1 set with ⟨-, same, rfl⟩ | ⟨-, -, set⟩
  · exact same
  · split at set
    · subst set
      exact BEq.rfl
    · obtain ⟨accepted, rfl⟩ := set
      exact updated accepted

theorem update_beq_of_components {t new : Ty} (known : t.isUnknown = false)
    (components : (updateComponents t new).refusal = none →
      ((updateComponents t new).type == new) = true)
    (h : (t.update new).refusal = none) : ((t.update new).type == new) = true := by
  cases constant : t.isConstant with
  | true =>
      rw [update_of_isConstant constant]
      exact (update_refusal_of_isConstant constant new).1 h
  | false =>
      rw [update_eq_updateComponents constant known] at h ⊢
      exact components h

/-- An update that is not refused leaves what was asked for. -/
theorem update_beq {t new : Ty} (h : (t.update new).refusal = none) :
    ((t.update new).type == new) = true := by
  induction t using rowInduction generalizing new with
  | base b =>
      cases unknown : (base b).isUnknown with
      | true =>
          rw [update_of_isUnknown unknown]
          exact BEq.rfl
      | false => exact update_beq_of_components unknown (fun h => by cases h) h
  | matrix k => exact update_beq_of_components rfl (fun h => by cases h) h
  | object c =>
      refine update_beq_of_components rfl (fun h => ?_) h
      rw [updateComponents] at h ⊢
      split at h
      · next same => simp [same]
      · cases h
  | array d r dl l ih _ =>
      refine update_beq_of_components rfl (fun h => ?_) h
      obtain ⟨d', r', dl', l', rfl, length, u, set⟩ := updateComponents_array_iff.1 h
      rw [updateComponents_array length, set]
      exact beq_array_iff.2 ⟨rfl, beq_of_setComponent ih set⟩
  | row k ls d r ih _ =>
      refine update_beq_of_components isUnknown_row (fun h => ?_) h
      obtain ⟨d', r', rfl, -⟩ := updateComponents_row_iff.1 h
      rw [updateComponents_row] at h ⊢
      exact beq_row_iff.2 ⟨rfl, fun m _ => beq_of_setComponent (ih m) (set_of_setRow h m)⟩
  | function n d r dr s ih _ ihResult _ =>
      refine update_beq_of_components rfl (fun h => ?_) h
      obtain ⟨d', r', dr', s', rfl, takes, u, set⟩ := updateComponents_function_iff.1 h
      have params := (setParams_iff_takes d r r').2 takes
      rw [updateComponents_function, show setComponent dr s dr.update s' = .ok u from set]
      simp only [params, Option.isSome_none, Bool.false_eq_true, if_false]
      exact beq_function_iff.2 ⟨rfl, fun i =>
        beq_of_setComponent (ih i) (set_of_setParams params i), beq_of_setComponent ihResult set⟩

/-! ## Between types of one shape -/

section Between

variable {c : Ty}

theorem array_between {d x d' y : Ty} {dl n dl' k : Option Nat} (above : Below (array d x dl n) c)
    (below : Below c (array d' y dl' k)) :
    ∃ e z el m, c = array e z el m ∧ (Length.Below n m ∧ Length.Below m k) ∧
      Below x z ∧ Below z y := by
  cases single : c.isArray with
  | true =>
      obtain ⟨e, z, el, m, rfl⟩ := isArray_iff.1 single
      rw [below_array_iff] at above below
      exact ⟨e, z, el, m, rfl, ⟨above.1, below.1⟩, above.2, below.2⟩
  | false =>
      rw [(array_below_iff single).1 above] at below
      cases general_below_iff.1 below

theorem family?_between {a b : Ty} (above : Below a c) (below : Below c b)
    (structured : a.isStructured = true) (same : a.family? = b.family?)
    (single : b.isArray = false) : a.family? = c.family? := by
  have proper : b ≠ general := by
    rintro rfl
    rw [isStructured, same] at structured
    cases structured
  obtain ⟨singleC, properC⟩ := below.single single proper
  exact above.family?_eq structured singleC properC

theorem row_between {k : RowKind} {ls : NameSet} {d x d' y : ls.Member → Ty}
    (above : Below (row k ls d x) c) (below : Below c (row k ls d' y)) :
    ∃ e z, c = row k ls e z ∧ ∀ m, Below (x m) (z m) ∧ Below (z m) (y m) := by
  have family := family?_between above below (by simp [isStructured]) (by simp) isArray_row
  obtain ⟨ls', e, z, rfl⟩ := exists_row (family.symm.trans family?_row)
  obtain rfl := labels_eq_of_between above below
  rw [below_row_iff] at above below
  exact ⟨e, z, rfl, fun m => ⟨above m, below m⟩⟩

theorem function_between {n : Nat} {d x d' y : Fin n → Ty} {dr r ds s : Ty}
    (above : Below (function n d x dr r) c) (below : Below c (function n d' y ds s)) :
    ∃ e z er t, c = function n e z er t ∧ (∀ i, Below (x i) (z i) ∧ Below (z i) (y i)) ∧
      Below r t ∧ Below t s := by
  have family := family?_between above below rfl rfl rfl
  cases c with
  | function k e z er t =>
      obtain ⟨rfl, params, result⟩ := below_function_iff.1 above
      obtain ⟨_, params', result'⟩ := below_function_iff.1 below
      exact ⟨e, z, er, t, rfl, fun i => ⟨params i, params' i⟩, result, result'⟩
  | _ => cases family

theorem length_of_below {dl m k : Option Nat} (length : ∀ n, dl = some n → k = some n)
    (below : Length.Below m k) (n : Nat) (declared : dl = some n) : m = some n := by
  rcases below with none | same
  · simp [length n declared] at none
  · rw [same, length n declared]

end Between

/-- What lies between two instances is an instance. -/
theorem hasInstance_between {t a b c : Ty} (first : t.hasInstance a = true)
    (last : t.hasInstance b = true) (above : Below a c) (below : Below c b) :
    t.hasInstance c = true := by
  induction t using rowInduction generalizing a b c with
  | base k =>
      cases unknown : (base k).isUnknown with
      | true => exact hasInstance_of_isUnknown unknown c
      | false =>
          obtain rfl := eq_of_hasInstance first unknown (.inl rfl)
          obtain rfl := eq_of_hasInstance last unknown (.inl rfl)
          rwa [eq_of_flat_beq rfl (above.beq below)]
  | matrix k =>
      obtain rfl := eq_of_hasInstance first rfl (.inl rfl)
      obtain rfl := eq_of_hasInstance last rfl (.inl rfl)
      rwa [eq_of_flat_beq rfl (above.beq below)]
  | object k =>
      obtain rfl := eq_of_hasInstance first rfl (.inr ⟨k, rfl⟩)
      obtain rfl := eq_of_hasInstance last rfl (.inr ⟨k, rfl⟩)
      rwa [eq_object_of_beq (above.beq below)]
  | array d r dl l ih _ =>
      obtain ⟨_, x, _, n, rfl, -, element⟩ := hasInstance_array_iff.1 first
      obtain ⟨_, y, _, k, rfl, length, element'⟩ := hasInstance_array_iff.1 last
      obtain ⟨e, z, el, m, rfl, lengths, between⟩ := array_between above below
      exact hasInstance_array_iff.2 ⟨e, z, el, m, rfl, length_of_below length lengths.2,
        ih element element' between.1 between.2⟩
  | row k ls d r ih _ =>
      obtain ⟨_, x, rfl, components⟩ := hasInstance_row_iff.1 first
      obtain ⟨_, y, rfl, components'⟩ := hasInstance_row_iff.1 last
      obtain ⟨e, z, rfl, between⟩ := row_between above below
      exact hasInstance_row_iff.2 ⟨e, z, rfl, fun m =>
        ih m (components m) (components' m) (between m).1 (between m).2⟩
  | function n d r dr s ih _ ihResult _ =>
      obtain ⟨_, x, _, _, rfl, params, result⟩ := hasInstance_function_iff.1 first
      obtain ⟨_, y, _, _, rfl, params', result'⟩ := hasInstance_function_iff.1 last
      obtain ⟨e, z, er, u, rfl, between, between'⟩ := function_between above below
      exact hasInstance_function_iff.2 ⟨e, z, er, u, rfl, fun i =>
        ih i (params i) (params' i) (between i).1 (between i).2,
        ihResult result result' between'.1 between'.2⟩

theorem hasInstance_of_beq {t u new : Ty} (h : t.hasInstance u = true)
    (same : (u == new) = true) : t.hasInstance new = true := by
  obtain ⟨above, below⟩ := below_of_beq same
  exact hasInstance_between h h above below

/-! ## What a form takes -/

theorem Refines.below {d r y : Ty} (refines : d.Refines r) (constant : d.isConstant = true)
    (rigid : Below d y → Below y d) (h : Below r y) : Below y r := by
  have same := below_of_beq (refines.constant constant)
  exact (rigid (same.2.trans h)).trans same.2

/-- An instance of a constant type that lies above it denotes the same. -/
theorem below_of_hasInstance {t b : Ty} (coherent : t.Coherent) (constant : t.isConstant = true)
    (last : t.hasInstance b = true) (below : Below t b) : Below b t := by
  induction t using rowInduction generalizing b with
  | base k =>
      have known : (base k).isUnknown = false := by
        cases unknown : (base k).isUnknown with
        | true => simp [isConstant_of_isUnknown unknown] at constant
        | false => rfl
      rw [eq_of_hasInstance last known (.inl rfl)]
      exact .refl b
  | matrix k =>
      rw [eq_of_hasInstance last rfl (.inl rfl)]
      exact .refl b
  | object k =>
      rw [eq_of_hasInstance last rfl (.inr ⟨k, rfl⟩)]
      exact .refl b
  | array d r dl l ih _ =>
      obtain ⟨_, y, _, k, rfl, length, element⟩ := hasInstance_array_iff.1 last
      obtain ⟨lengths, elements⟩ := below_array_iff.1 below
      refine below_array_iff.2 ⟨?_, coherent.1.1.below constant
        (ih coherent.1.2.1 constant element) elements⟩
      -- An array that cannot be refined has its declared length, and so has the instance.
      rcases lengths with rfl | rfl
      · refine .inl ?_
        rw [coherent.2.2 constant]
        cases dl with
        | none => rfl
        | some n => cases length n rfl
      · exact .refl l
  | row k ls d r ih _ =>
      obtain ⟨_, y, rfl, components⟩ := hasInstance_row_iff.1 last
      rw [coherent_row_iff] at coherent
      rw [isConstant_row_iff] at constant
      rw [below_row_iff] at below ⊢
      exact fun m => (coherent m).1.below (constant m)
        (ih m (coherent m).2.1 (constant m) (components m)) (below m)
  | function n d r dr s ih _ ihResult _ =>
      obtain ⟨_, y, _, _, rfl, params, result⟩ := hasInstance_function_iff.1 last
      have settled := isConstant_function_iff.1 constant
      obtain ⟨_, below, belowResult⟩ := below_function_iff.1 below
      exact below_function_iff.2 ⟨rfl, fun i => (coherent.1 i).1.below (settled.1 i)
        (ih i (coherent.1 i).2.1 (settled.1 i) (params i)) (below i),
        coherent.2.1.below settled.2 (ihResult coherent.2.2.1 settled.2 result) belowResult⟩

theorem component_takes_between {d r a b c : Ty} (coherent : Component.Coherent ⟨d, r⟩)
    (updated : d.isConstant = false → d.Takes a → (d.update c).refusal = none)
    (takes : Component.Takes ⟨d, r⟩ a) (last : d.hasInstance b = true) (above : Below a c)
    (below : Below c b) : Component.Takes ⟨d, r⟩ c := by
  rw [component_takes_iff] at takes ⊢
  cases constant : d.isConstant with
  | true =>
      rw [if_pos constant] at takes
      rw [if_pos rfl]
      obtain ⟨ra, -⟩ := below_of_beq takes
      have rigid := below_of_hasInstance coherent.2.1 constant last
      exact (ra.trans above).beq
        (below.trans (coherent.1.below constant rigid (ra.trans (above.trans below))))
  | false =>
      rw [if_neg (by simp [constant])] at takes
      rw [if_neg (by simp)]
      exact ⟨hasInstance_between takes.1 last above below, updated constant takes⟩

theorem update_between {t a b c : Ty} (coherent : t.Coherent) (settable : t.isConstant = false)
    (fits : t.Takes a) (last : t.hasInstance b = true) (above : Below a c) (below : Below c b) :
    (t.update c).refusal = none := by
  obtain ⟨-, updated⟩ := fits
  induction t using rowInduction generalizing a b c with
  | base k => rw [update_of_isUnknown (isUnknown_of_base settable)]
  | matrix k => cases settable
  | object k => cases settable
  | array d r dl l ih _ =>
      rw [update_eq_updateComponents settable rfl] at updated ⊢
      obtain ⟨_, x, _, n, rfl, -, takes⟩ := updateComponents_array_iff.1 updated
      obtain ⟨_, y, _, k, rfl, length, element⟩ := hasInstance_array_iff.1 last
      obtain ⟨e, z, el, m, rfl, lengths, above, below⟩ := array_between above below
      refine updateComponents_array_iff.2 ⟨e, z, el, m, rfl, length_of_below length lengths.2, ?_⟩
      exact component_takes_between coherent.1 (fun settable fits =>
        ih coherent.1.2.1 settable element above below fits.2) takes element above below
  | row k ls d r ih _ =>
      rw [update_eq_updateComponents settable isUnknown_row] at updated ⊢
      rw [coherent_row_iff] at coherent
      obtain ⟨_, x, rfl, takes⟩ := updateComponents_row_iff.1 updated
      obtain ⟨_, y, rfl, components⟩ := hasInstance_row_iff.1 last
      obtain ⟨e, z, rfl, between⟩ := row_between above below
      refine updateComponents_row_iff.2 ⟨e, z, rfl, fun m => ?_⟩
      obtain ⟨above, below⟩ := between m
      exact component_takes_between (coherent m) (fun settable fits =>
        ih m (coherent m).2.1 settable (components m) above below fits.2) (takes m) (components m)
        above below
  | function n d r dr s ih _ ihResult _ =>
      rw [update_eq_updateComponents settable rfl] at updated ⊢
      obtain ⟨_, x, _, _, rfl, takes, takesResult⟩ := updateComponents_function_iff.1 updated
      obtain ⟨_, y, _, _, rfl, params, result⟩ := hasInstance_function_iff.1 last
      obtain ⟨e, z, er, u, rfl, between, above', below'⟩ := function_between above below
      refine updateComponents_function_iff.2 ⟨e, z, er, u, rfl, fun i => ?_, ?_⟩
      · obtain ⟨above, below⟩ := between i
        exact component_takes_between (coherent.1 i) (fun settable fits =>
          ih i (coherent.1 i).2.1 settable (params i) above below fits.2) (takes i) (params i)
          above below
      · exact component_takes_between coherent.2 (fun settable fits =>
          ihResult coherent.2.2.1 settable result above' below' fits.2) takesResult result
          above' below'

theorem Takes.between {t a b c : Ty} (fits : t.Takes a) (coherent : t.Coherent)
    (settable : t.isConstant = false) (last : t.hasInstance b = true) (above : Below a c)
    (below : Below c b) : t.Takes c :=
  ⟨hasInstance_between fits.1 last above below,
    update_between coherent settable fits last above below⟩

theorem component_takes_fill {t d r : Ty} (ht : t.Coherent) (hd : d.Coherent)
    (updated : d.isConstant = false → (d.update (fill t d)).refusal = none) :
    Component.Takes ⟨d, r⟩ (fillComponent t d r fun _ => fill t d) := by
  rw [component_takes_iff]
  cases constant : d.isConstant with
  | true => simp [fillComponent, constant]
  | false =>
      rw [if_neg (by simp)]
      cases unknown : d.isUnknown with
      | true => exact .of_isUnknown unknown _
      | false => simpa [fillComponent, constant, unknown] using
          ⟨(admits_fill ht hd).1, updated constant⟩

theorem takes_fill {t u : Ty} (ht : t.Coherent) (hu : u.Coherent)
    (settable : u.isConstant = false) : u.Takes (fill t u) := by
  refine ⟨(admits_fill ht hu).1, ?_⟩
  induction u using rowInduction with
  | base k => rw [update_of_isUnknown (isUnknown_of_base settable)]
  | matrix k => cases settable
  | object k => cases settable
  | array d r dl l ih _ =>
      rw [update_eq_updateComponents settable rfl]
      exact updateComponents_array_iff.2 ⟨_, _, _, _, rfl, fun _ => id,
        component_takes_fill ht hu.1.2.1 (ih hu.1.2.1)⟩
  | row k ls d r ih _ =>
      rw [coherent_row_iff] at hu
      rw [update_eq_updateComponents settable isUnknown_row, fill_row]
      exact updateComponents_row_iff.2 ⟨_, _, rfl, fun m =>
        component_takes_fill ht (hu m).2.1 (ih m (hu m).2.1)⟩
  | function n d r dr s ih _ ihResult _ =>
      rw [update_eq_updateComponents settable rfl, fill_function]
      exact updateComponents_function_iff.2 ⟨_, _, _, _, rfl, fun i =>
        component_takes_fill ht (hu.1 i).2.1 (ih i (hu.1 i).2.1),
        component_takes_fill ht hu.2.2.1 (ihResult hu.2.2.1)⟩

end Ty

theorem conform_eq_some_iff {declared candidate value : Ty} :
    conform declared candidate = some value ↔
      declared.Takes candidate ∧ (declared.update candidate).type = value := by
  cases unknown : declared.isUnknown with
  | true =>
      simp [conform, unknown, Ty.Takes, Ty.hasInstance_of_isUnknown, Ty.update_of_isUnknown]
  | false =>
      simp only [conform, unknown, Bool.false_eq_true, if_false, Ty.Takes]
      cases declared.hasInstance candidate with
      | false => simp
      | true => rcases declared.update candidate with ⟨type, _ | e⟩ <;> simp

theorem hasInstance_of_conform {declared candidate value : Ty}
    (fits : conform declared candidate = some value) :
    declared.hasInstance value = true ∧ (value == candidate) = true := by
  obtain ⟨⟨is_instance, accepted⟩, rfl⟩ := conform_eq_some_iff.1 fits
  have same := Ty.update_beq accepted
  exact ⟨Ty.hasInstance_of_beq is_instance (BEq.symm same), same⟩

end DataflowTypes
