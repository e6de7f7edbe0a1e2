import DataflowTypes.Proofs.Ty.Coherent

/-!
# The order of instances

While nothing has been refined, a type is the same as its declared form, and being an instance is
a relation between forms.  Main statement: it is a partial order, with `unknown` at the bottom.
-/

namespace DataflowTypes

namespace Ty

/-- At every level each component is resolved to its declared type, and each array has its
declared length. -/
def Unrefined : Ty → Prop
  | base _ | matrix _ | object _ => True
  | array d r dl l => r = d ∧ l = dl ∧ d.Unrefined
  | record _ d r | union _ d r => r = d ∧ ∀ m, (d m).Unrefined
  | function _ d r dr s => (r = d ∧ ∀ i, (d i).Unrefined) ∧ s = dr ∧ dr.Unrefined

theorem unrefined_row_iff {k : RowKind} {ls : NameSet} {d r : ls.Member → Ty} :
    (row k ls d r).Unrefined ↔ r = d ∧ ∀ m, (d m).Unrefined := by
  cases k <;> rfl

theorem unrefined_redeclared (t : Ty) : t.redeclared.Unrefined := by
  induction t using rowInduction with
  | base => trivial
  | matrix => trivial
  | object => trivial
  | array _ _ _ _ _ ih => exact ⟨rfl, rfl, ih⟩
  | row _ _ _ _ _ ih =>
      rw [redeclared_row]
      exact unrefined_row_iff.2 ⟨rfl, ih⟩
  | function _ _ _ _ _ _ ihParams _ ihResult => exact ⟨⟨rfl, ihParams⟩, rfl, ihResult⟩

theorem unrefined_of_parse {source : String} {t : Ty} (h : Ty.parse source = .ok t) :
    t.Unrefined := by
  rw [← (fresh_of_parse h).2]
  exact unrefined_redeclared t

theorem Unrefined.coherent {t : Ty} (h : t.Unrefined) : t.Coherent := by
  induction t using rowInduction with
  | base => trivial
  | matrix => trivial
  | object => trivial
  | array d r dl l ih _ =>
      obtain ⟨rfl, rfl, element⟩ := h
      exact coherent_arrayOf _ (ih element)
  | row k ls d r ih _ =>
      obtain ⟨rfl, components⟩ := unrefined_row_iff.1 h
      exact coherent_row_iff.2 fun m => Component.coherent_new (ih m (components m))
  | function n d r dr s ih _ ihResult _ =>
      obtain ⟨⟨rfl, params⟩, rfl, result⟩ := h
      exact coherent_function (fun i => ih i (params i)) (ihResult result)

/-- Refining an instance gives an instance, if the first one has not been refined itself. -/
theorem hasInstance_trans {a b c : Ty} (unrefined : b.Unrefined) (first : a.hasInstance b = true)
    (second : b.hasInstance c = true) : a.hasInstance c = true := by
  induction a using rowInduction generalizing b c with
  | base k =>
      cases unknown : (base k).isUnknown with
      | true => exact hasInstance_of_isUnknown unknown c
      | false => rwa [eq_of_hasInstance first unknown (.inl rfl)]
  | matrix k => rwa [eq_of_hasInstance first rfl (.inl rfl)]
  | object k => rwa [eq_of_hasInstance first rfl (.inr ⟨k, rfl⟩)]
  | array d r dl l ih _ =>
      obtain ⟨d', r', dl', l', rfl, length, element⟩ := hasInstance_array_iff.1 first
      obtain ⟨rfl, rfl, unrefined⟩ := unrefined
      obtain ⟨_, _, _, _, rfl, length', element'⟩ := hasInstance_array_iff.1 second
      -- The length of the array between is the declared one, so it is passed on.
      exact hasInstance_array_iff.2 ⟨_, _, _, _, rfl,
        fun n declared => length' n (length n declared), ih unrefined element element'⟩
  | row k ls d r ih _ =>
      obtain ⟨d', r', rfl, components⟩ := hasInstance_row_iff.1 first
      obtain ⟨rfl, unrefined⟩ := unrefined_row_iff.1 unrefined
      obtain ⟨_, _, rfl, components'⟩ := hasInstance_row_iff.1 second
      exact hasInstance_row_iff.2 ⟨_, _, rfl, fun m =>
        ih m (unrefined m) (components m) (components' m)⟩
  | function n d r dr s ih _ ihResult _ =>
      obtain ⟨d', r', dr', s', rfl, params, result⟩ := hasInstance_function_iff.1 first
      obtain ⟨⟨rfl, unrefined⟩, rfl, unrefinedResult⟩ := unrefined
      obtain ⟨_, _, _, _, rfl, params', result'⟩ := hasInstance_function_iff.1 second
      exact hasInstance_function_iff.2 ⟨_, _, _, _, rfl, fun i =>
        ih i (unrefined i) (params i) (params' i), ihResult unrefinedResult result result'⟩

theorem hasInstance_antisymm {a b : Ty} (ha : a.Unrefined) (hb : b.Unrefined)
    (first : a.hasInstance b = true) (second : b.hasInstance a = true) : a = b := by
  induction a using rowInduction generalizing b with
  | base k =>
      cases unknown : (base k).isUnknown with
      | true =>
          rw [isUnknown_iff.1 unknown, isUnknown_iff.1 (isUnknown_of_hasInstance second unknown)]
      | false => exact eq_of_hasInstance first unknown (.inl rfl)
  | matrix k => exact eq_of_hasInstance first rfl (.inl rfl)
  | object k => exact eq_of_hasInstance first rfl (.inr ⟨k, rfl⟩)
  | array d r dl l ih _ =>
      obtain ⟨d', r', dl', l', rfl, length, element⟩ := hasInstance_array_iff.1 first
      obtain ⟨_, _, _, _, same, length', element'⟩ := hasInstance_array_iff.1 second
      cases same
      obtain ⟨rfl, rfl, ha⟩ := ha
      obtain ⟨rfl, rfl, hb⟩ := hb
      obtain rfl : l = l' := Option.ext fun n => ⟨length n, length' n⟩
      rw [ih ha hb element element']
  | row k ls d r ih _ =>
      obtain ⟨d', r', rfl, components⟩ := hasInstance_row_iff.1 first
      obtain ⟨_, components'⟩ := hasInstance_rows_iff.1 second
      obtain ⟨rfl, ha⟩ := unrefined_row_iff.1 ha
      obtain ⟨rfl, hb⟩ := unrefined_row_iff.1 hb
      obtain rfl : r = r' := funext fun m => ih m (ha m) (hb m) (components m) (components' m)
      rfl
  | function n d r dr s ih _ ihResult _ =>
      obtain ⟨d', r', dr', s', rfl, params, result⟩ := hasInstance_function_iff.1 first
      obtain ⟨_, _, _, _, same, params', result'⟩ := hasInstance_function_iff.1 second
      cases same
      obtain ⟨⟨rfl, ha⟩, rfl, haResult⟩ := ha
      obtain ⟨⟨rfl, hb⟩, rfl, hbResult⟩ := hb
      obtain rfl : r = r' := funext fun i => ih i (ha i) (hb i) (params i) (params' i)
      rw [ihResult haResult hbResult result result']

/-- Unrefined types, as they are read, are partially ordered by being instances, with `unknown` as
the least one. -/
theorem hasInstance_partialOrder :
    (∀ source t, Ty.parse source = .ok t → t.Unrefined) ∧
    (unknown.Unrefined ∧ ∀ a, unknown.hasInstance a = true) ∧
    ∀ a b c : Ty, a.Unrefined → b.Unrefined → c.Unrefined →
      a.hasInstance a = true ∧
      (a.hasInstance b = true → b.hasInstance c = true → a.hasInstance c = true) ∧
      (a.hasInstance b = true → b.hasInstance a = true → (a == b) = true) := by
  refine ⟨fun source t => unrefined_of_parse, ⟨trivial, hasInstance_unknown⟩,
    fun a b c ha hb _ => ⟨ha.coherent.hasInstance_self, hasInstance_trans hb, ?_⟩⟩
  intro first second
  rw [hasInstance_antisymm ha hb first second]
  exact BEq.rfl

theorem hasInstance_partialOrder_nested :
    let a := arrayOf unknown none
    let b := arrayOf (arrayOf unknown none) (some 2)
    let c := arrayOf (arrayOf (base .int) (some 3)) (some 2)
    a.hasInstance b = true ∧ b.hasInstance c = true ∧ a.hasInstance c = true ∧
      b.hasInstance a = false := by
  intro a b c
  have first : a.hasInstance b = true := by decide
  have second : b.hasInstance c = true := by decide
  have ha : a.Unrefined := ⟨rfl, rfl, trivial⟩
  have hb : b.Unrefined := ⟨rfl, rfl, rfl, rfl, trivial⟩
  have hc : c.Unrefined := ⟨rfl, rfl, rfl, rfl, trivial⟩
  obtain ⟨-, trans, -⟩ := hasInstance_partialOrder.2.2 a b c ha hb hc
  exact ⟨first, second, trans first second, by decide⟩

-- An array that has taken a length is refined, though its element is as declared.
example : (arrayOf unknown none).hasInstance (array unknown unknown none (some 3)) = true ∧
    (array unknown unknown none (some 3)).hasInstance (arrayOf unknown none) = true ∧
    (arrayOf unknown none == array unknown unknown none (some 3)) = false := by decide

end Ty

end DataflowTypes
