import DataflowTypes.Proofs.Ty.Conform

/-!
# Where instances and updates agree

An instance of a declared form can be refused when the form is updated to it: an array whose
element cannot be refined has instances of every length if it was declared without one, but is
a constant type and takes only itself.  Main statement: a form takes those of its instances in
which every such array has its declared length, so it takes all of them if and only if no array
of this kind was declared without a length.
-/

namespace DataflowTypes

namespace Ty

/-- Every array whose element cannot be refined was declared with a length. -/
def isFirm : Ty → Bool
  | base _ | matrix _ | object _ => true
  | array d _ dl _ => (!d.isConstant || dl.isSome) && d.isFirm
  | record ls d _ | union ls d _ => ls.members.all fun m => (d m).isFirm
  | function n d _ dr _ => (List.finRange n).all (fun i => (d i).isFirm) && dr.isFirm

theorem isFirm_array_iff {d r : Ty} {dl l : Option Nat} :
    (array d r dl l).isFirm = true ↔ (d.isConstant = true → dl ≠ none) ∧ d.isFirm = true := by
  change ((!d.isConstant || dl.isSome) && d.isFirm) = true ↔ _
  cases dl <;> simp

theorem isFirm_row_iff {k : RowKind} {ls : NameSet} {d r : ls.Member → Ty} :
    (row k ls d r).isFirm = true ↔ ∀ m, (d m).isFirm = true := by
  have rows : (row k ls d r).isFirm = ls.members.all fun m => (d m).isFirm := by
    cases k <;> rfl
  simp [rows, NameSet.mem_members]

theorem isFirm_function_iff {n : Nat} {d r : Fin n → Ty} {dr s : Ty} :
    (function n d r dr s).isFirm = true ↔ (∀ i, (d i).isFirm = true) ∧ dr.isFirm = true := by
  change ((List.finRange n).all (fun i => (d i).isFirm) && dr.isFirm) = true ↔ _
  simp

/-! ## What an update needs of the components

A constant type takes what its components take, like any other one, but for the lengths of
arrays. -/

theorem update_refusal_iff {t new : Ty} (known : t.isUnknown = false) :
    (t.update new).refusal = none ↔
      if t.isConstant then (t == new) = true else (updateComponents t new).refusal = none := by
  cases constant : t.isConstant with
  | true => exact update_refusal_of_isConstant constant new
  | false => simp [update_eq_updateComponents constant known]

theorem takes_of_isConstant {d r new : Ty} (constant : d.isConstant = true) :
    Component.Takes ⟨d, r⟩ new ↔ (r == new) = true := by
  rw [component_takes_iff, if_pos constant]

theorem update_array_iff {d r new : Ty} {dl l : Option Nat} :
    ((array d r dl l).update new).refusal = none ↔ ∃ d' r' dl' l', new = array d' r' dl' l' ∧
      (if d.isConstant then l = l' else ∀ n, dl = some n → l' = some n) ∧
        Component.Takes ⟨d, r⟩ r' := by
  rw [update_refusal_iff rfl]
  change (if d.isConstant then _ else _) ↔ _
  cases constant : d.isConstant with
  | false => exact updateComponents_array_iff
  | true =>
      simp only [takes_of_isConstant constant, if_true]
      constructor
      · intro same
        obtain ⟨d', r', dl', rfl, elements⟩ := eq_array_of_beq same
        exact ⟨d', r', dl', l, rfl, rfl, elements⟩
      · rintro ⟨d', r', dl', l', rfl, same⟩
        exact beq_array_iff.2 same

theorem update_row_iff {k : RowKind} {ls : NameSet} {d r : ls.Member → Ty} {new : Ty} :
    ((row k ls d r).update new).refusal = none ↔ ∃ d' r', new = row k ls d' r' ∧
      ∀ m, Component.Takes ⟨d m, r m⟩ (r' m) := by
  rw [update_refusal_iff isUnknown_row]
  split
  · next constant =>
      simp only [fun m => takes_of_isConstant (isConstant_row_iff.1 constant m)]
      constructor
      · exact eq_row_of_beq
      · rintro ⟨d', r', rfl, components⟩
        exact beq_row_iff.2 ⟨rfl, fun m _ => components m⟩
  · exact updateComponents_row_iff

theorem update_function_iff {n : Nat} {d r : Fin n → Ty} {dr s new : Ty} :
    ((function n d r dr s).update new).refusal = none ↔ ∃ d' r' dr' s',
      new = function n d' r' dr' s' ∧ (∀ i, Component.Takes ⟨d i, r i⟩ (r' i)) ∧
        Component.Takes ⟨dr, s⟩ s' := by
  rw [update_refusal_iff rfl]
  split
  · next constant =>
      obtain ⟨params, result⟩ := isConstant_function_iff.1 constant
      simp only [fun i => takes_of_isConstant (params i), takes_of_isConstant result]
      constructor
      · exact eq_function_of_beq
      · rintro ⟨d', r', dr', s', rfl, same⟩
        exact beq_function_iff.2 ⟨rfl, same⟩
  · exact updateComponents_function_iff

theorem takes_iff_update {d r new : Ty} (coherent : Component.Coherent ⟨d, r⟩)
    (h : d.hasInstance new = true) :
    Component.Takes ⟨d, r⟩ new ↔ (d.update new).refusal = none := by
  cases constant : d.isConstant with
  | true =>
      have same := coherent.1.constant constant
      rw [takes_of_isConstant constant, update_refusal_of_isConstant constant]
      exact ⟨BEq.trans (BEq.symm same), BEq.trans same⟩
  | false =>
      rw [component_takes_iff, if_neg (by simp [constant])]
      exact ⟨And.right, And.intro h⟩

/-! ## Lengths -/

/-- Every array that cannot be refined has, in the second type, the length that it was declared
with. -/
def keepsLengths : Ty → Ty → Bool
  | array d _ dl _, array _ r _ l => (!d.isConstant || l == dl) && d.keepsLengths r
  | record la d _, record lb _ r | union la d _, union lb _ r =>
      la.members.all fun m => if h : m.1 ∈ lb then (d m).keepsLengths (r ⟨m.1, h⟩) else true
  | function n d _ dr _, function k _ r _ s =>
      (List.finRange n).all (fun i =>
        if h : i.1 < k then (d i).keepsLengths (r ⟨i.1, h⟩) else true) && dr.keepsLengths s
  | _, _ => true

theorem keepsLengths_leaf {t : Ty} (leaf : t.isStructured = false ∨ ∃ c, t = object c) (u : Ty) :
    t.keepsLengths u = true := by
  cases t with
  | base b => cases u <;> rfl
  | matrix k => cases u <;> rfl
  | object c => cases u <;> rfl
  | _ => simp [isStructured, family?] at leaf

theorem keepsLengths_array_iff {d r d' r' : Ty} {dl l dl' l' : Option Nat} :
    (array d r dl l).keepsLengths (array d' r' dl' l') = true ↔
      (d.isConstant = true → l' = dl) ∧ d.keepsLengths r' = true := by
  change ((!d.isConstant || l' == dl) && d.keepsLengths r') = true ↔ _
  simp [imp_iff_not_or]

theorem keepsLengths_row_iff {k : RowKind} {ls : NameSet} {d r d' r' : ls.Member → Ty} :
    (row k ls d r).keepsLengths (row k ls d' r') = true ↔
      ∀ m, (d m).keepsLengths (r' m) = true := by
  have rows : (row k ls d r).keepsLengths (row k ls d' r') = ls.members.all fun m =>
      if h : m.1 ∈ ls then (d m).keepsLengths (r' ⟨m.1, h⟩) else true := by
    cases k <;> rfl
  rw [rows, List.all_eq_true]
  constructor
  · intro all m
    simpa [m.2] using all m (NameSet.mem_members m)
  · intro all m _
    simpa [m.2] using all m

theorem keepsLengths_function_iff {n : Nat} {d r d' r' : Fin n → Ty} {dr s dr' s' : Ty} :
    (function n d r dr s).keepsLengths (function n d' r' dr' s') = true ↔
      (∀ i, (d i).keepsLengths (r' i) = true) ∧ dr.keepsLengths s' = true := by
  change ((List.finRange n).all (fun i =>
    if h : i.1 < n then (d i).keepsLengths (r' ⟨i.1, h⟩) else true) && dr.keepsLengths s') =
      true ↔ _
  simp

private theorem lengths_iff {d r : Ty} {dl l l' : Option Nat}
    (coherent : (array d r dl l).Coherent) :
    (if d.isConstant then l = l' else ∀ n, dl = some n → l' = some n) ↔
      (∀ n, dl = some n → l' = some n) ∧ (d.isConstant = true → l' = dl) := by
  cases constant : d.isConstant with
  | false => simp
  | true =>
      rw [if_pos rfl, coherent.2.2 constant]
      constructor
      · rintro rfl
        exact ⟨fun _ => id, fun _ => rfl⟩
      · exact fun same => (same.2 rfl).symm

private theorem hasInstance_of_takes {d r new : Ty} (coherent : Component.Coherent ⟨d, r⟩)
    (takes : Component.Takes ⟨d, r⟩ new) : d.hasInstance new = true := by
  rw [component_takes_iff] at takes
  split at takes
  · exact hasInstance_of_beq coherent.1.hasInstance takes
  · exact takes.1

theorem takes_iff_keepsLengths {d r new : Ty} (coherent : Component.Coherent ⟨d, r⟩)
    (updated : (d.update new).refusal = none ↔
      d.hasInstance new = true ∧ d.keepsLengths new = true) :
    Component.Takes ⟨d, r⟩ new ↔ d.hasInstance new = true ∧ d.keepsLengths new = true := by
  constructor
  · intro takes
    exact updated.1 ((takes_iff_update coherent (hasInstance_of_takes coherent takes)).1 takes)
  · intro fits
    exact (takes_iff_update coherent fits.1).2 (updated.2 fits)

theorem update_leaf_iff {t new : Ty} (leaf : t.isStructured = false ∨ ∃ c, t = object c)
    (coherent : t.Coherent) :
    (t.update new).refusal = none ↔ t.hasInstance new = true ∧ t.keepsLengths new = true := by
  rw [keepsLengths_leaf leaf, and_iff_left rfl]
  cases unknown : t.isUnknown with
  | true => simp [update_of_isUnknown unknown, hasInstance_of_isUnknown unknown]
  | false =>
      have constant : t.isConstant = true := by
        cases t with
        | base b =>
            by_contra settable
            rw [Bool.not_eq_true] at settable
            simp [isUnknown_of_base settable] at unknown
        | matrix k => rfl
        | object c => rfl
        | _ => simp [isStructured, family?] at leaf
      rw [update_refusal_of_isConstant constant]
      constructor
      · exact hasInstance_of_beq coherent.hasInstance_self
      · intro h
        rw [eq_of_hasInstance h unknown leaf]
        exact BEq.rfl

/-- A type can be updated to its instances that keep the lengths of constant arrays, and to
nothing else. -/
theorem update_iff_keepsLengths {t : Ty} (coherent : t.Coherent) (new : Ty) :
    (t.update new).refusal = none ↔ t.hasInstance new = true ∧ t.keepsLengths new = true := by
  induction t using rowInduction generalizing new with
  | base b => exact update_leaf_iff (.inl rfl) coherent
  | matrix k => exact update_leaf_iff (.inl rfl) coherent
  | object c => exact update_leaf_iff (.inr ⟨c, rfl⟩) coherent
  | array d r dl l ih _ =>
      have element (u : Ty) := takes_iff_keepsLengths coherent.1 (ih coherent.1.2.1 u)
      simp only [update_array_iff, hasInstance_array_iff, lengths_iff coherent, element]
      constructor
      · rintro ⟨d', r', dl', l', rfl, ⟨length, kept⟩, fits, keeps⟩
        exact ⟨⟨d', r', dl', l', rfl, length, fits⟩, keepsLengths_array_iff.2 ⟨kept, keeps⟩⟩
      · rintro ⟨⟨d', r', dl', l', rfl, length, fits⟩, keeps⟩
        obtain ⟨kept, keeps⟩ := keepsLengths_array_iff.1 keeps
        exact ⟨d', r', dl', l', rfl, ⟨length, kept⟩, fits, keeps⟩
  | row k ls d r ih _ =>
      rw [coherent_row_iff] at coherent
      have components (m : ls.Member) (u : Ty) :=
        takes_iff_keepsLengths (coherent m) (ih m (coherent m).2.1 u)
      simp only [update_row_iff, hasInstance_row_iff, components, forall_and]
      constructor
      · rintro ⟨d', r', rfl, fits, keeps⟩
        exact ⟨⟨d', r', rfl, fits⟩, keepsLengths_row_iff.2 keeps⟩
      · rintro ⟨⟨d', r', rfl, fits⟩, keeps⟩
        exact ⟨d', r', rfl, fits, keepsLengths_row_iff.1 keeps⟩
  | function n d r dr s ih _ ihResult _ =>
      have params (i : Fin n) (u : Ty) :=
        takes_iff_keepsLengths (coherent.1 i) (ih i (coherent.1 i).2.1 u)
      have result (u : Ty) :=
        takes_iff_keepsLengths coherent.2 (ihResult coherent.2.2.1 u)
      simp only [update_function_iff, hasInstance_function_iff, params, result, forall_and]
      constructor
      · rintro ⟨d', r', dr', s', rfl, ⟨fits, keeps⟩, fitsResult, keepsResult⟩
        exact ⟨⟨d', r', dr', s', rfl, fits, fitsResult⟩,
          keepsLengths_function_iff.2 ⟨keeps, keepsResult⟩⟩
      · rintro ⟨⟨d', r', dr', s', rfl, fits, fitsResult⟩, keeps⟩
        obtain ⟨keeps, keepsResult⟩ := keepsLengths_function_iff.1 keeps
        exact ⟨d', r', dr', s', rfl, ⟨fits, keeps⟩, fitsResult, keepsResult⟩

/-! ## Firm forms -/

theorem keepsLengths_of_isFirm {t new : Ty} (firm : t.isFirm = true)
    (h : t.hasInstance new = true) : t.keepsLengths new = true := by
  induction t using rowInduction generalizing new with
  | base b => exact keepsLengths_leaf (.inl rfl) new
  | matrix k => exact keepsLengths_leaf (.inl rfl) new
  | object c => exact keepsLengths_leaf (.inr ⟨c, rfl⟩) new
  | array d r dl l ih _ =>
      obtain ⟨d', r', dl', l', rfl, length, element⟩ := hasInstance_array_iff.1 h
      obtain ⟨measured, firm⟩ := isFirm_array_iff.1 firm
      refine keepsLengths_array_iff.2 ⟨fun constant => ?_, ih firm element⟩
      obtain ⟨n, declared⟩ := Option.ne_none_iff_exists'.1 (measured constant)
      rw [length n declared, declared]
  | row k ls d r ih _ =>
      obtain ⟨d', r', rfl, components⟩ := hasInstance_row_iff.1 h
      exact keepsLengths_row_iff.2 fun m => ih m (isFirm_row_iff.1 firm m) (components m)
  | function n d r dr s ih _ ihResult _ =>
      obtain ⟨d', r', dr', s', rfl, params, result⟩ := hasInstance_function_iff.1 h
      obtain ⟨firm, firmResult⟩ := isFirm_function_iff.1 firm
      exact keepsLengths_function_iff.2
        ⟨fun i => ih i (firm i) (params i), ihResult firmResult result⟩

theorem hasInstance_update {ι : Type} [DecidableEq ι] {d : ι → Ty} (coherent : ∀ i, (d i).Coherent)
    {i : ι} {u : Ty} (h : (d i).hasInstance u = true) (j : ι) :
    (d j).hasInstance (Function.update d i u j) = true := by
  by_cases same : j = i
  · subst same
    rwa [Function.update_self]
  · rw [Function.update_of_ne same]
    exact (coherent j).hasInstance_self

/-- A form all of whose instances keep the lengths is firm: else it has an instance in which the
array has a length, and everything else is as declared. -/
theorem isFirm_of_keepsLengths {t : Ty} (coherent : t.Coherent)
    (all : ∀ u, t.hasInstance u = true → t.keepsLengths u = true) : t.isFirm = true := by
  induction t using rowInduction with
  | base b => rfl
  | matrix k => rfl
  | object c => rfl
  | array d r dl l ih _ =>
      have kept {u : Ty} {k : Option Nat} (length : ∀ n, dl = some n → k = some n)
          (element : d.hasInstance u = true) :
          (d.isConstant = true → k = dl) ∧ d.keepsLengths u = true :=
        keepsLengths_array_iff.1 (all (array d u dl k)
          (hasInstance_array_iff.2 ⟨d, u, dl, k, rfl, length, element⟩))
      refine isFirm_array_iff.2 ⟨fun constant unmeasured => ?_,
        ih coherent.1.2.1 fun u element => (kept (fun _ => id) element).2⟩
      -- Any length would do: the array was declared without one.
      subst unmeasured
      have longer := (kept (k := some 0) nofun coherent.1.2.1.hasInstance_self).1
      cases longer constant
  | row k ls d r ih _ =>
      rw [coherent_row_iff] at coherent
      refine isFirm_row_iff.2 fun m => ih m (coherent m).2.1 fun u component => ?_
      have components := hasInstance_update (fun m => (coherent m).2.1) component
      have kept := keepsLengths_row_iff.1
        (all (row k ls d _) (hasInstance_row_iff.2 ⟨d, _, rfl, components⟩)) m
      rwa [Function.update_self] at kept
  | function n d r dr s ih _ ihResult _ =>
      have kept {params : Fin n → Ty} {u : Ty}
          (fits : ∀ i, (d i).hasInstance (params i) = true) (result : dr.hasInstance u = true) :
          (∀ i, (d i).keepsLengths (params i) = true) ∧ dr.keepsLengths u = true :=
        keepsLengths_function_iff.1 (all (function n d params dr u)
          (hasInstance_function_iff.2 ⟨d, params, dr, u, rfl, fits, result⟩))
      have self (i : Fin n) : (d i).hasInstance (d i) = true := (coherent.1 i).2.1.hasInstance_self
      refine isFirm_function_iff.2 ⟨fun i => ih i (coherent.1 i).2.1 fun u param => ?_,
        ihResult coherent.2.2.1 fun u result => (kept self result).2⟩
      have params := hasInstance_update (fun i => (coherent.1 i).2.1) param
      have here := (kept params coherent.2.2.1.hasInstance_self).1 i
      rwa [Function.update_self] at here

theorem update_iff_isFirm {t : Ty} (coherent : t.Coherent) :
    (∀ u, t.hasInstance u = true → (t.update u).refusal = none) ↔ t.isFirm = true := by
  constructor
  · intro all
    refine isFirm_of_keepsLengths coherent fun u h => ?_
    exact ((update_iff_keepsLengths coherent u).1 (all u h)).2
  · intro firm u h
    exact (update_iff_keepsLengths coherent u).2 ⟨h, keepsLengths_of_isFirm firm h⟩

end Ty

theorem conform_eq_none_iff {declared : Ty} (coherent : declared.Coherent) (t : Ty) :
    conform declared t = none ↔ (declared.update t).refusal ≠ none := by
  have fits : declared.Takes t ↔ (declared.update t).refusal = none :=
    ⟨And.right, fun accepted => ⟨((Ty.update_iff_keepsLengths coherent t).1 accepted).1, accepted⟩⟩
  rw [Ne, ← fits, ← not_iff_not, not_not, ← Ne, Option.ne_none_iff_exists']
  simp [conform_eq_some_iff]

theorem conform_eq_none_iff_isFirm {declared : Ty} (coherent : declared.Coherent) :
    (∀ t, conform declared t = none ↔ declared.hasInstance t = false) ↔
      declared.isFirm = true := by
  rw [← Ty.update_iff_isFirm coherent]
  refine forall_congr' fun t => ?_
  have is_instance := fun accepted => ((Ty.update_iff_keepsLengths coherent t).1 accepted).1
  rw [conform_eq_none_iff coherent, ← Bool.not_eq_true, Ne, not_iff_not]
  exact ⟨Iff.mpr, fun taken => ⟨is_instance, taken⟩⟩

namespace Ty

/-- A type can be updated to those of its instances that keep the lengths of constant arrays, and
these are also the candidates that are fitted.  Updates agree with instances altogether if and
only if the form is firm. -/
theorem instances_taken_iff {t : Ty} (h : t.Obtained) :
    (∀ u, (t.update u).refusal = none ↔ t.hasInstance u = true ∧ t.keepsLengths u = true) ∧
    (∀ u, conform t u ≠ none ↔ t.hasInstance u = true ∧ t.keepsLengths u = true) ∧
    ((∀ u, t.hasInstance u = true → (t.update u).refusal = none) ↔ t.isFirm = true) := by
  have updated := update_iff_keepsLengths h.coherent
  refine ⟨updated, fun u => ?_, update_iff_isFirm h.coherent⟩
  rw [Ne, conform_eq_none_iff h.coherent, not_not, updated]

theorem instances_taken_iff_measured :
    let t := functionOf [arrayOf unknown none] (arrayOf (base .int) (some 2))
    let u := functionOf [arrayOf (base .string) (some 3)] (arrayOf (base .int) (some 2))
    t.isFirm = true ∧ t.hasInstance u = true ∧ (t.update u).refusal = none ∧
      conform t u ≠ none := by
  intro t u
  have obtained : t.Obtained := by
    refine .functionOf ?_ (.arrayOf (.base _) _)
    simpa using .arrayOf (.base _) _
  have firm : t.isFirm = true := by decide
  have fits : t.hasInstance u = true := by decide
  obtain ⟨updated, conforms, all⟩ := instances_taken_iff obtained
  have accepted := all.2 firm u fits
  exact ⟨firm, fits, accepted, (conforms u).2 ((updated u).1 accepted)⟩

/-- The parameter is a constant type, so it does not become an array of three; but such arrays
are among its instances. -/
theorem instance_refused_unmeasured :
    let t := functionOf [arrayOf (base .int) none] unknown
    let u := functionOf [arrayOf (base .int) (some 3)] (base .int)
    t.Obtained ∧ u.Obtained ∧ t.hasInstance u = true ∧ (t.update u).refusal ≠ none ∧
      conform t u = none := by
  intro t u
  have obtained : t.Obtained := by
    refine .functionOf ?_ (.base _)
    simpa using .arrayOf (.base _) _
  have obtained' : u.Obtained := by
    refine .functionOf ?_ (.base _)
    simpa using .arrayOf (.base _) _
  have refused : (t.update u).refusal ≠ none := by
    rw [Ne, update_iff_keepsLengths obtained.coherent]
    decide
  exact ⟨obtained, obtained', by decide, refused,
    (conform_eq_none_iff obtained.coherent u).2 refused⟩

end Ty

end DataflowTypes
