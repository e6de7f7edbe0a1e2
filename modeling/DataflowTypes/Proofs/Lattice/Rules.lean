import DataflowTypes.Lattice.Rules
import DataflowTypes.Proofs.Lattice.Below

/-!
# Bounds from bounds of components

`BestBound` says that something is the best bound of two others on one side of an
order.  Records and unions are read as maps from labels to types: the order of
records asks for every label of the upper map, that of unions for every label of
the lower one.  Uniting two maps and restricting them to their common labels give
best bounds of maps from best bounds of components, the former where more labels
are further out and the latter where fewer are.
-/

namespace DataflowTypes

/-! ## What the rules build -/

namespace Rules

variable {a b : NameSet}

theorem mem_combineShared (combine : (x : a.Member) → x.1 ∈ b → Ty) {xs : List a.Member}
    {entry : String × Ty} :
    entry ∈ Id.run (combineShared (fun x hx => pure (combine x hx)) xs) ↔
      ∃ x ∈ xs, ∃ hx, entry = (x.1, combine x hx) := by
  induction xs with
  | nil => simp [combineShared]
  | cons x xs ih =>
      by_cases hx : x.1 ∈ b
      · simp [combineShared, hx, ih]
      · simp [combineShared, hx, ih]

variable (left : a.Member → Ty) (right : b.Member → Ty) (f : Ty → Ty → Ty)

theorem lookup_combineShared (l : String) :
    (Id.run (combineShared (fun (x : a.Member) (hx : x.1 ∈ b) =>
        pure (f (left x) (right ⟨x.1, hx⟩))) a.members)).reverse.lookup l =
      (a.find? left l).bind fun s => (b.find? right l).map fun t => f s t := by
  by_cases shared : l ∈ a ∧ l ∈ b
  · obtain ⟨ha, hb⟩ := shared
    simp only [NameSet.find?, ha, hb, dite_true, Option.bind_some, Option.map_some]
    refine Row.lookup_eq_some_of_mem ?_ ?_
    · rw [List.mem_reverse, mem_combineShared]
      exact ⟨⟨l, ha⟩, NameSet.mem_members _, hb, rfl⟩
    · intro t mem
      rw [List.mem_reverse, mem_combineShared] at mem
      obtain ⟨x, -, hx, same⟩ := mem
      obtain ⟨rfl, rfl⟩ := Prod.mk.inj same
      rfl
  · have none : (a.find? left l).bind (fun s => (b.find? right l).map fun t => f s t) = none := by
      by_cases ha : l ∈ a
      · have hb : l ∉ b := fun hb => shared ⟨ha, hb⟩
        simp [NameSet.find?, ha, hb]
      · simp [NameSet.find?, ha]
    rw [none, List.lookup_eq_none_iff]
    intro entry mem
    rw [List.mem_reverse, mem_combineShared] at mem
    obtain ⟨x, -, hx, rfl⟩ := mem
    refine bne_iff_ne.2 fun same => shared ?_
    subst same
    exact ⟨x.2, hx⟩

theorem get?_sharedRow (l : String) :
    (Id.run (sharedRow fun (x : a.Member) (hx : x.1 ∈ b) =>
        pure (f (left x) (right ⟨x.1, hx⟩)))).get? l =
      (a.find? left l).bind fun s => (b.find? right l).map fun t => f s t := by
  rw [← lookup_combineShared, ← Row.get?_ofList]
  rfl

theorem get?_unitedRow (l : String) :
    (Id.run (unitedRow left right fun (x : a.Member) (hx : x.1 ∈ b) =>
        pure (f (left x) (right ⟨x.1, hx⟩)))).get? l =
      Option.merge f (a.find? left l) (b.find? right l) := by
  have entries : Id.run (unitedRow left right fun (x : a.Member) (hx : x.1 ∈ b) =>
        pure (f (left x) (right ⟨x.1, hx⟩))) =
      Row.ofList ((b.members.map fun x => (x.1, right x)) ++
        (a.members.map fun x => (x.1, left x)) ++
        Id.run (combineShared (fun (x : a.Member) (hx : x.1 ∈ b) =>
          pure (f (left x) (right ⟨x.1, hx⟩))) a.members)) := rfl
  rw [entries, Row.get?_ofList, List.reverse_append, List.reverse_append, List.lookup_append,
    List.lookup_append, lookup_combineShared, Row.lookup_listed, Row.lookup_listed]
  cases a.find? left l <;> cases b.find? right l <;> rfl

theorem combineFunctions_eq {n : Nat} (params : Fin n → Ty) (result : Ty) :
    Id.run (combineFunctions (fun i => pure (params i)) (pure result)) =
      .function n params params result result := by
  have general : ∀ (types : List Ty) (h : types.length = n),
      (∀ i : Fin n, types.get (i.cast h.symm) = params i) →
        Ty.functionOf types result = .function n params params result result := by
    rintro types rfl same
    obtain rfl : types.get = params := funext same
    rfl
  have built : Id.run (combineFunctions (fun i => pure (params i)) (pure result)) =
      Ty.functionOf ((List.finRange n).map params) result := by
    simp [combineFunctions]
  rw [built]
  exact general _ (by simp) (by simp)

end Rules

/-! ## Best bounds -/

/-- `m` is related to both `a` and `b`, and every `c` in `T` that is related to both is
related to `m`: for `≤` a greatest lower bound, for `≥` a least upper one. -/
structure BestBound {α : Type} (R : α → α → Prop) (T : α → Prop) (m a b : α) : Prop where
  left : R m a
  right : R m b
  best : ∀ c, T c → R c a → R c b → R c m

theorem BestBound.symm {α : Type} {R : α → α → Prop} {T : α → Prop} {m a b : α}
    (h : BestBound R T m a b) : BestBound R T m b a :=
  ⟨h.right, h.left, fun c hc cb ca => h.best c hc ca cb⟩

theorem BestBound.of_related {α : Type} {R : α → α → Prop} {T : α → Prop} {a b : α}
    (refl : R a a) (h : R a b) : BestBound R T a a b :=
  ⟨refl, h, fun _ _ ca _ => ca⟩

/-! ## Maps from labels -/

/-- The first map has every label of the second, with related components. -/
def Covers (R : Ty → Ty → Prop) (F G : String → Option Ty) : Prop :=
  ∀ l t, G l = some t → ∃ s, F l = some s ∧ R s t

section

variable {R : Ty → Ty → Prop} {T : Ty → Prop} {f : Ty → Ty → Ty} {F G : String → Option Ty}

theorem covers_merge (refl : ∀ t, R t t)
    (components : ∀ l s t, F l = some s → G l = some t → BestBound R T (f s t) s t) :
    BestBound (Covers R) (fun H => ∀ l t, H l = some t → T t)
      (fun l => Option.merge f (F l) (G l)) F G where
  left l s hs := by
    cases ht : G l with
    | none => exact ⟨s, by simp [hs, ht], refl s⟩
    | some t => exact ⟨f s t, by simp [hs, ht], (components l s t hs ht).left⟩
  right l t ht := by
    cases hs : F l with
    | none => exact ⟨t, by simp [hs, ht], refl t⟩
    | some s => exact ⟨f s t, by simp [hs, ht], (components l s t hs ht).right⟩
  best H tame hF hG l u hu := by
    cases hs : F l with
    | none =>
        cases ht : G l with
        | none => simp [hs, ht] at hu
        | some t =>
            obtain rfl : t = u := by simpa [hs, ht] using hu
            exact hG l t ht
    | some s =>
        cases ht : G l with
        | none =>
            obtain rfl : s = u := by simpa [hs, ht] using hu
            exact hF l s hs
        | some t =>
            obtain rfl : f s t = u := by simpa [hs, ht] using hu
            obtain ⟨c, hc, cs⟩ := hF l s hs
            obtain ⟨c', hc', ct⟩ := hG l t ht
            obtain rfl : c = c' := by simpa [hc] using hc'
            exact ⟨c, hc, (components l s t hs ht).best c (tame l c hc) cs ct⟩

theorem covers_common
    (components : ∀ l s t, F l = some s → G l = some t → BestBound R T (f s t) s t) :
    BestBound (fun H H' => Covers (flip R) H' H) (fun H => ∀ l t, H l = some t → T t)
      (fun l => (F l).bind fun s => (G l).map fun t => f s t) F G where
  left l u hu := by
    obtain ⟨s, hs, t, ht, rfl⟩ : ∃ s, F l = some s ∧ ∃ t, G l = some t ∧ f s t = u := by
      simpa [Option.bind_eq_some_iff, Option.map_eq_some_iff] using hu
    exact ⟨s, hs, (components l s t hs ht).left⟩
  right l u hu := by
    obtain ⟨s, hs, t, ht, rfl⟩ : ∃ s, F l = some s ∧ ∃ t, G l = some t ∧ f s t = u := by
      simpa [Option.bind_eq_some_iff, Option.map_eq_some_iff] using hu
    exact ⟨t, ht, (components l s t hs ht).right⟩
  best H tame hF hG l c hc := by
    obtain ⟨s, hs, cs⟩ := hF l c hc
    obtain ⟨t, ht, ct⟩ := hG l c hc
    exact ⟨f s t, by simp [hs, ht], (components l s t hs ht).best c (tame l c hc) cs ct⟩

end

namespace Ty

variable {ls ls' : NameSet} {d x : ls.Member → Ty} {d' y : ls'.Member → Ty}

theorem find?_component {P : Ty → Prop} (h : ∀ l, P (x l)) (l : String) (s : Ty)
    (hs : ls.find? x l = some s) : P s := by
  obtain ⟨_, rfl⟩ := NameSet.find?_eq_some_iff.1 hs
  exact h _

theorem find?_components {P : Ty → Ty → Prop} (h : ∀ l l', P (x l) (y l')) (l : String)
    (s t : Ty) (hs : ls.find? x l = some s) (ht : ls'.find? y l = some t) : P s t := by
  obtain ⟨_, rfl⟩ := NameSet.find?_eq_some_iff.1 hs
  obtain ⟨_, rfl⟩ := NameSet.find?_eq_some_iff.1 ht
  exact h _ _

theorem below_record_iff_covers :
    Below (record ls d x) (record ls' d' y) ↔ Covers Below (ls.find? x) (ls'.find? y) := by
  rw [below_record_iff]
  constructor
  · rintro ⟨labels, fields⟩ l t ht
    obtain ⟨hl, rfl⟩ := NameSet.find?_eq_some_iff.1 ht
    exact ⟨_, NameSet.find?_eq_some_iff.2 ⟨labels l hl, rfl⟩, fields ⟨l, labels l hl⟩ hl⟩
  · intro covers
    have found (l : String) (hl : l ∈ ls') : ∃ h : l ∈ ls, Below (x ⟨l, h⟩) (y ⟨l, hl⟩) := by
      obtain ⟨s, hs, below⟩ := covers l _ (NameSet.find?_eq_some_iff.2 ⟨hl, rfl⟩)
      obtain ⟨h, rfl⟩ := NameSet.find?_eq_some_iff.1 hs
      exact ⟨h, below⟩
    exact ⟨fun l hl => (found l hl).1, fun l hl => (found l.1 hl).2⟩

theorem below_union_iff_covers :
    Below (union ls d x) (union ls' d' y) ↔
      Covers (flip Below) (ls'.find? y) (ls.find? x) := by
  rw [below_union_iff]
  constructor
  · rintro ⟨labels, alternatives⟩ l s hs
    obtain ⟨hl, rfl⟩ := NameSet.find?_eq_some_iff.1 hs
    exact ⟨_, NameSet.find?_eq_some_iff.2 ⟨labels l hl, rfl⟩, alternatives ⟨l, hl⟩ (labels l hl)⟩
  · intro covers
    have found (l : String) (hl : l ∈ ls) : ∃ h : l ∈ ls', Below (x ⟨l, hl⟩) (y ⟨l, h⟩) := by
      obtain ⟨t, ht, below⟩ := covers l _ (NameSet.find?_eq_some_iff.2 ⟨hl, rfl⟩)
      obtain ⟨h, rfl⟩ := NameSet.find?_eq_some_iff.1 ht
      exact ⟨h, below⟩
    exact ⟨fun l hl => (found l hl).1, fun l _ => (found l.1 l.2).2⟩

end Ty

end DataflowTypes
