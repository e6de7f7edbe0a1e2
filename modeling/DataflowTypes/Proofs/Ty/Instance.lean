import DataflowTypes.Proofs.Ty.Row
import DataflowTypes.Ty.Refine

/-!
# Instances and updates, family by family

What it takes to be an instance of a type, and what an update leaves in each component:
the type that the component was set to, or the one it had before.
-/

namespace DataflowTypes

namespace Ty

/-! ## Instances -/

@[simp] theorem hasInstance_unknown (t : Ty) : unknown.hasInstance t = true := by
  cases t <;> rfl

theorem hasInstance_of_isUnknown {t : Ty} (h : t.isUnknown = true) (u : Ty) :
    t.hasInstance u = true := by
  cases t with
  | base b =>
      cases b with
      | unknown => exact hasInstance_unknown u
      | _ => cases h
  | _ => cases h

theorem hasInstance_array_iff {d r t : Ty} {dl l : Option Nat} :
    (array d r dl l).hasInstance t = true ↔ ∃ d' r' dl' l', t = array d' r' dl' l' ∧
      (∀ n, dl = some n → l' = some n) ∧ d.hasInstance r' = true := by
  cases t with
  | array d' r' dl' l' =>
      have lengths : (dl.isNone || dl == l') = true ↔ ∀ n, dl = some n → l' = some n := by
        cases dl with
        | none => simp
        | some n => simp [eq_comm (a := l')]
      change ((dl.isNone || dl == l') && d.hasInstance r') = true ↔ _
      rw [Bool.and_eq_true, lengths]
      constructor
      · rintro ⟨length, element⟩
        exact ⟨d', r', dl', l', rfl, length, element⟩
      · rintro ⟨_, _, _, _, same, length, element⟩
        cases same
        exact ⟨length, element⟩
  | _ => exact ⟨nofun, nofun⟩

theorem hasInstance_rows_iff {k : RowKind} {ls ls' : NameSet} {d r : ls.Member → Ty}
    {d' r' : ls'.Member → Ty} :
    (row k ls d r).hasInstance (row k ls' d' r') = true ↔
      ∃ same : ls = ls', ∀ m, (d m).hasInstance (r' ⟨m.1, same ▸ m.2⟩) = true := by
  have rows : (row k ls d r).hasInstance (row k ls' d' r') = (ls == ls' && ls.members.all fun m =>
      if h : m.1 ∈ ls' then (d m).hasInstance (r' ⟨m.1, h⟩) else false) := by
    cases k <;> rfl
  simp only [rows, Bool.and_eq_true, beq_iff_eq, List.all_eq_true]
  constructor
  · rintro ⟨rfl, all⟩
    refine ⟨rfl, fun m => ?_⟩
    simpa [m.2] using all m (NameSet.mem_members m)
  · rintro ⟨rfl, all⟩
    refine ⟨rfl, fun m _ => ?_⟩
    simpa [m.2] using all m

theorem hasInstance_row_iff {k : RowKind} {ls : NameSet} {d r : ls.Member → Ty} {t : Ty} :
    (row k ls d r).hasInstance t = true ↔ ∃ d' r', t = row k ls d' r' ∧
      ∀ m, (d m).hasInstance (r' m) = true := by
  constructor
  · intro h
    have family : t.family? = some k.family := by
      cases k <;> cases t <;> first | rfl | cases h
    obtain ⟨ls', d', r', rfl⟩ := exists_row family
    obtain ⟨rfl, all⟩ := hasInstance_rows_iff.1 h
    exact ⟨d', r', rfl, all⟩
  · rintro ⟨d', r', rfl, all⟩
    exact hasInstance_rows_iff.2 ⟨rfl, all⟩

theorem hasInstance_function_iff {n : Nat} {d r : Fin n → Ty} {dr s t : Ty} :
    (function n d r dr s).hasInstance t = true ↔ ∃ d' r' dr' s', t = function n d' r' dr' s' ∧
      (∀ i, (d i).hasInstance (r' i) = true) ∧ dr.hasInstance s' = true := by
  cases t with
  | function k d' r' dr' s' =>
      change (n == k && (List.finRange n).all (fun i =>
        if h : i.1 < k then (d i).hasInstance (r' ⟨i.1, h⟩) else false) && dr.hasInstance s') =
          true ↔ _
      simp only [Bool.and_eq_true, beq_iff_eq, List.all_eq_true]
      constructor
      · rintro ⟨⟨rfl, all⟩, result⟩
        refine ⟨d', r', dr', s', rfl, fun i => ?_, result⟩
        simpa using all i (List.mem_finRange i)
      · rintro ⟨_, _, _, _, same, all, result⟩
        cases same
        refine ⟨⟨rfl, fun i _ => ?_⟩, result⟩
        simpa using all i
  | _ => exact ⟨nofun, nofun⟩

theorem eq_of_hasInstance {t u : Ty} (h : t.hasInstance u = true) (known : t.isUnknown = false)
    (leaf : t.isStructured = false ∨ ∃ c, t = object c) : t = u := by
  cases t with
  | base b =>
      cases u with
      | base b' => cases b <;> simp_all [hasInstance, isUnknown]
      | _ => cases b <;> simp_all [hasInstance, isUnknown]
  | matrix k => cases u <;> simp_all [hasInstance]
  | object c => cases u <;> simp_all [hasInstance]
  | _ => simp [isStructured, family?] at leaf

theorem isUnknown_of_hasInstance {t u : Ty} (h : t.hasInstance u = true)
    (unknown : u.isUnknown = true) : t.isUnknown = true := by
  cases known : t.isUnknown with
  | true => rfl
  | false =>
      cases t with
      | base b =>
          rw [eq_of_hasInstance h known (.inl rfl), unknown] at known
          cases known
      | _ =>
          cases u with
          | base b => cases h
          | _ => cases unknown

/-! ## Constant types -/

theorem isUnknown_of_base {b : BaseType} (h : (base b).isConstant = false) :
    (base b).isUnknown = true := by
  cases b with
  | unknown => rfl
  | _ => cases h

theorem isConstant_of_isUnknown {t : Ty} (h : t.isUnknown = true) : t.isConstant = false := by
  cases t with
  | base b =>
      cases b with
      | unknown => rfl
      | _ => cases h
  | _ => cases h

theorem isConstant_row_iff {k : RowKind} {ls : NameSet} {d r : ls.Member → Ty} :
    (row k ls d r).isConstant = true ↔ ∀ m, (d m).isConstant = true := by
  have rows : (row k ls d r).isConstant = ls.members.all fun m => (d m).isConstant := by
    cases k <;> rfl
  simp [rows, NameSet.mem_members]

theorem isConstant_function_iff {n : Nat} {d r : Fin n → Ty} {dr s : Ty} :
    (function n d r dr s).isConstant = true ↔
      (∀ i, (d i).isConstant = true) ∧ dr.isConstant = true := by
  change ((List.finRange n).all (fun i => (d i).isConstant) && dr.isConstant) = true ↔ _
  simp

/-! ## Filling -/

theorem fill_row {t : Ty} {k : RowKind} {ls : NameSet} {d r : ls.Member → Ty} :
    fill t (row k ls d r) =
      row k ls d fun m => fillComponent t (d m) (r m) fun _ => fill t (d m) := by
  cases k with
  | record => exact congrArg (record ls d) (Row.on_tabulate ls _ _)
  | union => exact congrArg (union ls d) (Row.on_tabulate ls _ _)

theorem fill_function {t : Ty} {n : Nat} {d r : Fin n → Ty} {dr s : Ty} :
    fill t (function n d r dr s) =
      function n d (fun i => fillComponent t (d i) (r i) fun _ => fill t (d i))
        dr (fillComponent t dr s fun _ => fill t dr) := by
  have params (f : Fin n → Ty) : (Vector.ofFn f).get = f := by
    funext i
    simp only [Vector.get, Vector.toArray_ofFn, Array.getElem_ofFn]
    rfl
  exact congrArg (function n d · dr _) (params _)

/-! ## Setting components -/

theorem setComponent_eq_ok_iff {d r new t : Ty} {update : Ty → Update} :
    setComponent d r update new = .ok t ↔
      (d.isConstant = true ∧ (r == new) = true ∧ r = t) ∨
      (d.isConstant = false ∧ d.hasInstance new = true ∧
        if d.isUnknown then new = t else (update new).refusal = none ∧ (update new).type = t) := by
  unfold setComponent
  cases d.isConstant with
  | true =>
      cases r == new <;> simp
  | false =>
      cases d.hasInstance new with
      | false => simp
      | true =>
          cases d.isUnknown with
          | true => simp
          | false =>
              rcases update new with ⟨type, _ | e⟩ <;> simp

section InOrder

variable {ι : Type} (old : ι → Ty) (set : ι → Except TypeError Ty)

theorem map_fst_setInOrder (is : List ι) : (setInOrder old set is).1.map (·.1) = is := by
  induction is with
  | nil => rfl
  | cons i is ih =>
      rw [setInOrder]
      cases set i with
      | ok t => simp [ih]
      | error e => simp [Function.comp_def]

variable {old set}

/-- Each component is set, or keeps its type because one has refused. -/
theorem of_mem_setInOrder {is : List ι} {i : ι} {t : Ty}
    (mem : (i, t) ∈ (setInOrder old set is).1) :
    set i = .ok t ∨ t = old i ∧ (setInOrder old set is).2 ≠ none := by
  induction is with
  | nil => cases mem
  | cons j is ih =>
      rw [setInOrder] at mem ⊢
      cases here : set j with
      | ok u =>
          simp only [here, List.mem_cons, Prod.mk.injEq] at mem ⊢
          rcases mem with ⟨rfl, rfl⟩ | mem
          · exact .inl here
          · exact ih mem
      | error e =>
          simp only [here] at mem
          obtain ⟨_, -, same⟩ := List.mem_map.1 mem
          obtain ⟨rfl, rfl⟩ := Prod.mk.inj same
          exact .inr ⟨rfl, by simp⟩

theorem setInOrder_refusal_eq_none_iff {is : List ι} :
    (setInOrder old set is).2 = none ↔ ∀ i ∈ is, ∃ t, set i = .ok t := by
  induction is with
  | nil => simp [setInOrder]
  | cons j is ih =>
      rw [setInOrder]
      cases here : set j with
      | ok u => simp [ih, here]
      | error e => simp [here]

end InOrder

section Row

variable {ls : NameSet} {old : ls.Member → Ty} {set : ls.Member → Except TypeError Ty}

private theorem mem_setRow (m : ls.Member) :
    (m, (setRow ls old set).1 m) ∈ (setInOrder old set ls.members).1 := by
  have listed := map_fst_setInOrder old set ls.members
  simp only [setRow, Row.on, Row.get?_ofList]
  generalize (setInOrder old set ls.members).1 = entries at listed
  cases found : (entries.map fun e => (e.1.1, e.2)).reverse.lookup m.1 with
  | none =>
      have key : m ∈ entries.map (·.1) := listed ▸ NameSet.mem_members m
      obtain ⟨e, mem, rfl⟩ := List.mem_map.1 key
      have absent := List.lookup_eq_none_iff.1 found (e.1.1, e.2)
        (List.mem_reverse.2 (List.mem_map.2 ⟨e, mem, rfl⟩))
      simp at absent
  | some t =>
      obtain ⟨before, rest, split, -⟩ := List.lookup_eq_some_iff.1 found
      have entry : (m.1, t) ∈ (entries.map fun e => (e.1.1, e.2)).reverse := by
        rw [split]
        exact List.mem_append_right _ List.mem_cons_self
      obtain ⟨e, mem, same⟩ := List.mem_map.1 (List.mem_reverse.1 entry)
      obtain ⟨label, rfl⟩ := Prod.mk.inj same
      obtain rfl : e.1 = m := Subtype.ext label
      exact mem

variable (old set) in
theorem setRow_cases (m : ls.Member) :
    set m = .ok ((setRow ls old set).1 m) ∨
      (setRow ls old set).1 m = old m ∧ (setRow ls old set).2 ≠ none :=
  of_mem_setInOrder (mem_setRow m)

theorem setRow_refusal_eq_none_iff :
    (setRow ls old set).2 = none ↔ ∀ m, ∃ t, set m = .ok t := by
  refine setInOrder_refusal_eq_none_iff.trans ⟨fun all m => ?_, fun all m _ => all m⟩
  exact all m (NameSet.mem_members m)

end Row

section Params

variable {n : Nat} {old : Fin n → Ty} {set : Fin n → Except TypeError Ty}

private theorem mem_setParams (i : Fin n) :
    (i, (setParams old set).1 i) ∈ (setInOrder old set (List.finRange n)).1 := by
  have listed : ((setInOrder old set (List.finRange n)).1.map (·.1))[i.1]? = some i := by
    simp [map_fst_setInOrder]
  rw [List.getElem?_map] at listed
  obtain ⟨⟨j, t⟩, found, same⟩ := Option.map_eq_some_iff.1 listed
  obtain rfl : j = i := same
  have value : (setParams old set).1 j = t := by simp [setParams, found]
  exact value ▸ List.mem_of_getElem? found

variable (old set) in
theorem setParams_cases (i : Fin n) :
    set i = .ok ((setParams old set).1 i) ∨
      (setParams old set).1 i = old i ∧ (setParams old set).2 ≠ none :=
  of_mem_setInOrder (mem_setParams i)

theorem setParams_refusal_eq_none_iff :
    (setParams old set).2 = none ↔ ∀ i, ∃ t, set i = .ok t := by
  refine setInOrder_refusal_eq_none_iff.trans ⟨fun all i => ?_, fun all i _ => all i⟩
  exact all i (List.mem_finRange i)

end Params

/-! ## Updates -/

theorem update_of_isConstant {t : Ty} (h : t.isConstant = true) (new : Ty) :
    (t.update new).type = t := by
  simp only [update, updateBy, h, if_true]
  split <;> rfl

theorem update_refusal_of_isConstant {t : Ty} (h : t.isConstant = true) (new : Ty) :
    (t.update new).refusal = none ↔ (t == new) = true := by
  simp only [update, updateBy, h, if_true]
  split <;> simp_all

theorem update_of_isUnknown {t : Ty} (h : t.isUnknown = true) (new : Ty) :
    t.update new = { type := new } := by
  simp [update, updateBy, isConstant_of_isUnknown h, h]

theorem update_eq_updateComponents {t : Ty} (proper : t.isConstant = false)
    (known : t.isUnknown = false) (new : Ty) : t.update new = updateComponents t new := by
  simp [update, updateBy, proper, known]

theorem updateComponents_array {d r d' r' : Ty} {dl l dl' l' : Option Nat}
    (length : ∀ n, dl = some n → l' = some n) :
    updateComponents (array d r dl l) (array d' r' dl' l') =
      match setComponent d r d.update r' with
      | .ok r => { type := array d r dl l' }
      | .error e => { type := array d r dl l, refusal := some e } := by
  have agree : (dl.isSome && dl != l') = false := by
    cases dl with
    | none => rfl
    | some n => simp [length n rfl]
  rw [updateComponents, if_neg (by simp [agree])]
  rfl

theorem updateComponents_row {k : RowKind} {ls : NameSet} {d r d' r' : ls.Member → Ty} :
    updateComponents (row k ls d r) (row k ls d' r') =
      let set := setRow ls r fun m => setComponent (d m) (r m) (d m).update (r' m)
      { type := row k ls d set.1, refusal := set.2 } := by
  cases k <;> simp only [row, updateComponents, if_true, NameSet.find?_member, Option.getD_some] <;>
    rfl

/-- A function type takes the result of another one only when it has all its parameters. -/
theorem updateComponents_function {n : Nat} {d r d' r' : Fin n → Ty} {dr s dr' s' : Ty} :
    updateComponents (function n d r dr s) (function n d' r' dr' s') =
      let set := setParams r fun i => setComponent (d i) (r i) (d i).update (r' i)
      if set.2.isSome then { type := function n d set.1 dr s, refusal := set.2 }
      else match setComponent dr s dr.update s' with
        | .ok s => { type := function n d set.1 dr s }
        | .error e => { type := function n d set.1 dr s, refusal := some e } := by
  rw [updateComponents, dif_pos rfl]
  rfl

/-! A type of another shape is refused, and leaves the type as it is. -/

theorem updateComponents_array_or {d r : Ty} {dl l : Option Nat} (new : Ty) :
    (∃ d' r' dl' l', new = array d' r' dl' l' ∧ ∀ n, dl = some n → l' = some n) ∨
      updateComponents (array d r dl l) new =
        { type := array d r dl l, refusal := some (.notInstance (array d r dl l) new) } := by
  cases new with
  | array d' r' dl' l' =>
      by_cases length : ∀ n, dl = some n → l' = some n
      · exact .inl ⟨d', r', dl', l', rfl, length⟩
      · have differ : (dl.isSome && dl != l') = true := by
          cases dl with
          | none => simp at length
          | some n =>
              have other : l' ≠ some n := by simpa using length
              simpa using other.symm
        exact .inr (if_pos differ)
  | _ => exact .inr rfl

theorem updateComponents_row_or {k : RowKind} {ls : NameSet} {d r : ls.Member → Ty} (new : Ty) :
    (∃ d' r', new = row k ls d' r') ∨
      updateComponents (row k ls d r) new =
        { type := row k ls d r, refusal := some (.notInstance (row k ls d r) new) } := by
  by_cases family : new.family? = some k.family
  · obtain ⟨ls', d', r', rfl⟩ := exists_row family
    by_cases same : ls = ls'
    · subst same
      exact .inl ⟨d', r', rfl⟩
    · cases k <;> exact .inr (if_neg same)
  · cases k <;> cases new <;> first | exact .inr rfl | exact absurd rfl family

theorem updateComponents_function_or {n : Nat} {d r : Fin n → Ty} {dr s : Ty} (new : Ty) :
    (∃ d' r' dr' s', new = function n d' r' dr' s') ∨
      updateComponents (function n d r dr s) new =
        { type := function n d r dr s
          refusal := some (.notInstance (function n d r dr s) new) } := by
  cases new with
  | function k d' r' dr' s' =>
      by_cases same : n = k
      · subst same
        exact .inl ⟨d', r', dr', s', rfl⟩
      · exact .inr (dif_neg same)
  | _ => exact .inr rfl

/-! ## What an update leaves

Declared types and lengths are never changed.  The type is left as it is, or else each component
is kept or set. -/

section

variable (new : Ty)

theorem exists_updateComponents_array (d r : Ty) (dl l : Option Nat) :
    ∃ r₁ l₁, (updateComponents (array d r dl l) new).type = array d r₁ dl l₁ ∧
      (r₁ = r ∧ l₁ = l ∨ ∃ d' r' dl', new = array d' r' dl' l₁ ∧
        (∀ n, dl = some n → l₁ = some n) ∧ setComponent d r d.update r' = .ok r₁) := by
  rcases @updateComponents_array_or d r dl l new with ⟨d', r', dl', l', rfl, length⟩ | refused
  · rw [updateComponents_array length]
    split
    · next set => exact ⟨_, l', rfl, .inr ⟨d', r', dl', rfl, length, set⟩⟩
    · exact ⟨r, l, rfl, .inl ⟨rfl, rfl⟩⟩
  · rw [refused]
    exact ⟨r, l, rfl, .inl ⟨rfl, rfl⟩⟩

theorem exists_updateComponents_row (k : RowKind) {ls : NameSet} (d r : ls.Member → Ty) :
    ∃ r₁, (updateComponents (row k ls d r) new).type = row k ls d r₁ ∧
      (r₁ = r ∨ ∃ d' r', new = row k ls d' r' ∧
        ∀ m, r₁ m = r m ∨ setComponent (d m) (r m) (d m).update (r' m) = .ok (r₁ m)) := by
  rcases @updateComponents_row_or k ls d r new with ⟨d', r', rfl⟩ | refused
  · rw [updateComponents_row]
    refine ⟨_, rfl, .inr ⟨d', r', rfl, fun m => ?_⟩⟩
    exact (setRow_cases r _ m).symm.imp_left And.left
  · rw [refused]
    exact ⟨r, rfl, .inl rfl⟩

theorem exists_updateComponents_function {n : Nat} (d r : Fin n → Ty) (dr s : Ty) :
    ∃ r₁ s₁, (updateComponents (function n d r dr s) new).type = function n d r₁ dr s₁ ∧
      (r₁ = r ∧ s₁ = s ∨ ∃ d' r' dr' s', new = function n d' r' dr' s' ∧
        (∀ i, r₁ i = r i ∨ setComponent (d i) (r i) (d i).update (r' i) = .ok (r₁ i)) ∧
        (s₁ = s ∨ setComponent dr s dr.update s' = .ok s₁)) := by
  rcases @updateComponents_function_or n d r dr s new with ⟨d', r', dr', s', rfl⟩ | refused
  · have params (i : Fin n) := (setParams_cases r
      (fun i => setComponent (d i) (r i) (d i).update (r' i)) i).symm.imp_left And.left
    rw [updateComponents_function]
    dsimp only
    split
    · exact ⟨_, s, rfl, .inr ⟨d', r', dr', s', rfl, params, .inl rfl⟩⟩
    · split
      · next set => exact ⟨_, _, rfl, .inr ⟨d', r', dr', s', rfl, params, .inr set⟩⟩
      · exact ⟨_, s, rfl, .inr ⟨d', r', dr', s', rfl, params, .inl rfl⟩⟩
  · rw [refused]
    exact ⟨r, s, rfl, .inl ⟨rfl, rfl⟩⟩

end

end Ty

end DataflowTypes
