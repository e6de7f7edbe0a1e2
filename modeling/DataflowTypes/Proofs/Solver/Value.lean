import DataflowTypes.Proofs.Lattice.Compare
import DataflowTypes.Proofs.Lattice.Rules
import DataflowTypes.Solver.Term
import Mathlib.Data.List.Forall2

/-!
# Values of terms

The value of a term under a valuation of its variables.  Main statements: the value
depends only on the variables that the term reads, and a term of built-in operators
has a value that grows with the values of these variables.
-/

namespace DataflowTypes

/-! ## Results -/

theorem bind_eq_ok_iff {ε α β : Type} {x : Except ε α} {f : α → Except ε β} {b : β} :
    (x >>= f) = .ok b ↔ ∃ a, x = .ok a ∧ f a = .ok b := by
  cases x <;> simp [bind, Except.bind]

section

variable {ε ι α : Type} {f : ι → Except ε α}

theorem mapM_eq_ok_iff {is : List ι} {as : List α} :
    is.mapM f = .ok as ↔ List.Forall₂ (fun i a => f i = .ok a) is as := by
  induction is generalizing as with
  | nil => cases as <;> simp [pure, Except.pure]
  | cons i is ih =>
      rw [List.mapM_cons, List.forall₂_cons_left_iff]
      cases f i with
      | error e => simp [bind, Except.bind]
      | ok a =>
          simp only [← ih]
          cases is.mapM f with
          | error e => simp [bind, Except.bind]
          | ok as => simp [bind, Except.bind, pure, Except.pure, eq_comm]

theorem mapM_eq_ok_map {g : ι → α} (each : ∀ i, f i = .ok (g i)) (is : List ι) :
    is.mapM f = .ok (is.map g) := by
  rw [mapM_eq_ok_iff, List.forall₂_map_right_iff, List.forall₂_same]
  exact fun i _ => each i

theorem exists_mapM_eq_ok {is : List ι} (each : ∀ i ∈ is, ∃ a, f i = .ok a) :
    ∃ as, is.mapM f = .ok as := by
  simp only [mapM_eq_ok_iff]
  induction is with
  | nil => exact ⟨[], .nil⟩
  | cons i is ih =>
      obtain ⟨⟨a, first⟩, rest⟩ := List.forall_mem_cons.1 each
      obtain ⟨as, rest⟩ := ih rest
      exact ⟨a :: as, .cons first rest⟩

theorem exists_of_mapM_eq_ok {is : List ι} {as : List α} (h : is.mapM f = .ok as) :
    (∀ a ∈ as, ∃ i ∈ is, f i = .ok a) ∧ ∀ i ∈ is, ∃ a ∈ as, f i = .ok a := by
  have results := mapM_eq_ok_iff.1 h
  clear h
  induction results with
  | nil => simp
  | cons first _ ih =>
      constructor
      · rintro a (_ | ⟨_, mem⟩)
        · exact ⟨_, List.mem_cons_self, first⟩
        · obtain ⟨i, mem, value⟩ := ih.1 a mem
          exact ⟨i, List.mem_cons_of_mem _ mem, value⟩
      · rintro i (_ | ⟨_, mem⟩)
        · exact ⟨_, List.mem_cons_self, first⟩
        · obtain ⟨a, mem, value⟩ := ih.2 i mem
          exact ⟨a, List.mem_cons_of_mem _ mem, value⟩

end

abbrev Valuation := VarId → Option Ty

def Operator.value (op : Operator) (args : List Ty) : Except TypeError Ty :=
  Id.run (op.apply Lattice.plain args)

namespace Term

def value (σ : Valuation) : Term → Except TypeError Ty
  | const t => .ok t
  | var v =>
      match σ v with
      | some t => .ok t
      | none => .error (.unknownVariable v)
  | app op args => do
      let values ← (List.finRange op.arity).mapM fun i => (args i).value σ
      op.value values

/-! ## The variables of a term -/

theorem mem_addVar {vs : List VarId} {v w : VarId} : v ∈ addVar vs w ↔ v ∈ vs ∨ v = w := by
  rw [addVar]
  split
  · next mem => exact ⟨.inl, fun h => h.elim id fun same => same ▸ mem⟩
  · simp

theorem mem_foldl_collectVars {ι : Type} {args : ι → Term} {v : VarId}
    (each : ∀ i vs, v ∈ (args i).collectVars vs ↔ v ∈ vs ∨ v ∈ (args i).vars)
    (is : List ι) (vs : List VarId) :
    v ∈ is.foldl (fun vs i => (args i).collectVars vs) vs ↔
      v ∈ vs ∨ ∃ i ∈ is, v ∈ (args i).vars := by
  induction is generalizing vs with
  | nil => simp
  | cons i is ih => simp [ih, each i, or_assoc]

private theorem mem_collectVars {t : Term} {v : VarId} {vs : List VarId} :
    v ∈ t.collectVars vs ↔ v ∈ vs ∨ v ∈ t.vars := by
  induction t generalizing vs with
  | const t => simp [vars, collectVars]
  | var w => simp [vars, collectVars, mem_addVar]
  | app op args ih =>
      have collected := mem_foldl_collectVars fun i _ => ih i
      simp [vars, collectVars, collected]

@[simp] theorem vars_var (v : VarId) : (var v).vars = [v] := rfl

theorem mem_vars_app {op : Operator} {args : Fin op.arity → Term} {v : VarId} :
    v ∈ (app op args).vars ↔ ∃ i, v ∈ (args i).vars := by
  simp [vars, collectVars, mem_foldl_collectVars fun _ _ => mem_collectVars]

theorem value_congr {σ τ : Valuation} {t : Term} (agree : ∀ v ∈ t.vars, σ v = τ v) :
    t.value σ = t.value τ := by
  induction t with
  | const t => rfl
  | var v => simp only [value, agree v (by simp)]
  | app op args ih =>
      have same (i : Fin op.arity) : (args i).value σ = (args i).value τ :=
        ih i fun v mem => agree v (mem_vars_app.2 ⟨i, mem⟩)
      simp only [value, same]

end Term

theorem Inequality.mem_vars {q : Inequality} {v : VarId} :
    v ∈ q.vars ↔ v ∈ q.lesser.vars ∨ v ∈ q.greater.vars := by
  have added (ws vs : List VarId) : v ∈ ws.foldl Term.addVar vs ↔ v ∈ vs ∨ v ∈ ws := by
    induction ws generalizing vs with
    | nil => simp
    | cons w ws ih => simp [ih, Term.mem_addVar, or_assoc]
  exact added _ _

/-! ## Records from rows -/

namespace Row

theorem ofDistinct_eq_ok {α : Type} {entries : List (String × α)}
    (distinct : (entries.map (·.1)).Nodup) : ofDistinct entries = .ok (ofList entries) := by
  have general (entries : List (String × α)) (r : Row α)
      (fresh : ∀ e ∈ entries, e.1 ∉ r.labels) (distinct : (entries.map (·.1)).Nodup) :
      entries.foldlM (fun r e =>
          if r.contains e.1 then Except.error e.1 else .ok (r.insert e.1 e.2)) r =
        .ok (entries.foldl (fun r e => r.insert e.1 e.2) r) := by
    induction entries generalizing r with
    | nil => rfl
    | cons entry entries ih =>
        obtain ⟨label, a⟩ := entry
        obtain ⟨once, distinct⟩ := List.nodup_cons.1 distinct
        have new : r.contains label = false := by
          simpa [contains] using fresh (label, a) (by simp)
        have fresh' : ∀ e ∈ entries, e.1 ∉ (r.insert label a).labels := by
          intro e mem old
          rcases NameSet.mem_insert.1 old with same | old
          · exact once (List.mem_map.2 ⟨e, mem, same⟩)
          · exact fresh e (List.mem_cons_of_mem _ mem) old
        simp only [List.foldlM_cons, List.foldl_cons, new]
        exact ih _ fresh' distinct
  exact general entries .empty (fun e _ => NameSet.not_mem_empty e.1) distinct

end Row

namespace Ty

private theorem recordOf_zip_eq {labels : List String} {args : List Ty} (distinct : labels.Nodup)
    (length : args.length = labels.length) :
    recordOf (labels.zip args) = .ok (ofFields (.ofList (labels.zip args))) := by
  have names : (labels.zip args).map (·.1) = labels :=
    List.map_fst_zip (by omega)
  rw [recordOf, rowOf, Row.ofDistinct_eq_ok (by rwa [names])]
  rfl

private theorem covers_lookup {R : Ty → Ty → Prop} {es es' : List (String × Ty)}
    (related : List.Forall₂ (fun e e' => e.1 = e'.1 ∧ R e.2 e'.2) es es') :
    Covers R (fun l => es.lookup l) (fun l => es'.lookup l) := by
  induction related with
  | nil => intro l t none; cases none
  | @cons e e' es es' first _ ih =>
      obtain ⟨label, s⟩ := e
      obtain ⟨label', s'⟩ := e'
      obtain ⟨rfl, entry⟩ : label = label' ∧ R s s' := first
      intro l t found
      by_cases same : l = label
      · subst same
        obtain rfl : s' = t := by simpa using found
        exact ⟨s, by simp, entry⟩
      · have other : (l == label) = false := by simpa using same
        simp only [List.lookup_cons, other] at found ⊢
        exact ih l t found

private theorem below_ofFields_zip {labels : List String} {as bs : List Ty}
    (below : List.Forall₂ Below as bs) :
    Below (ofFields (.ofList (labels.zip as))) (ofFields (.ofList (labels.zip bs))) := by
  have entries (labels : List String) : List.Forall₂ (fun e e' => e.1 = e'.1 ∧ Below e.2 e'.2)
      (labels.zip as) (labels.zip bs) := by
    induction below generalizing labels with
    | nil => simp
    | cons first _ ih =>
        cases labels with
        | nil => simp
        | cons label labels => exact .cons ⟨rfl, first⟩ (ih labels)
  refine below_record_iff_covers.2 fun l t found => ?_
  have covers := covers_lookup (List.rel_reverse (entries labels))
  rw [← Row.get?.eq_1, Row.get?_ofList] at found ⊢
  exact covers l t found

/-! ## Built-in operators grow with their arguments -/

theorem element?_getD {t : Ty} (single : t.isArray = false) : t.element?.getD t = t := by
  cases t <;> first | rfl | cases single

private theorem element_below {a b : Ty} (h : Below a b) :
    Below (a.element?.getD a) (b.element?.getD b) := by
  cases ha : a.isArray with
  | false =>
      rw [element?_getD ha]
      cases hb : b.isArray with
      | false => rwa [element?_getD hb]
      | true =>
          obtain ⟨_, _, _, _, rfl⟩ := isArray_iff.1 hb
          rcases (single_below_array_iff ha).1 h with rfl | ⟨-, -, element⟩
          · exact .bottom _
          · exact element
  | true =>
      obtain ⟨_, _, _, _, rfl⟩ := isArray_iff.1 ha
      cases hb : b.isArray with
      | false =>
          rw [(array_below_iff hb).1 h]
          exact .top _
      | true =>
          obtain ⟨_, _, _, _, rfl⟩ := isArray_iff.1 hb
          exact (below_array_iff.1 h).2

theorem below_of_bottom {f : Ty → Ty} (bottom : f unknown = unknown) {a b : Ty} (h : Below a b)
    (proper : a ≠ unknown → b ≠ unknown → Below (f a) (f b)) : Below (f a) (f b) := by
  by_cases ha : a = unknown
  · rw [ha, bottom]
    exact .bottom _
  · exact proper ha fun hb => ha (below_unknown_iff.1 (hb ▸ h))

private theorem fieldType_below (label : String) {a b : Ty} (h : Below a b) :
    Below (Operator.fieldType label a) (Operator.fieldType label b) := by
  refine below_of_bottom rfl h fun ha hb => ?_
  cases b with
  | record ls' d' y =>
      have families := (h.eq_unknown_or_family?_eq rfl rfl).resolve_left ha
      cases a with
      | record ls d x =>
          simp only [Operator.fieldType]
          cases found : ls'.find? y label with
          | none => exact .top _
          | some t =>
              obtain ⟨s, found', below⟩ := below_record_iff_covers.1 h label t found
              rw [found']
              exact below
      | _ => cases families
  | base b => cases b <;> first | exact .top _ | exact absurd rfl hb
  | _ => exact .top _

private theorem resultType_below {a b : Ty} (h : Below a b) :
    Below (Operator.resultType a) (Operator.resultType b) := by
  refine below_of_bottom rfl h fun ha hb => ?_
  cases b with
  | function k d' y ds s =>
      have families := (h.eq_unknown_or_family?_eq rfl rfl).resolve_left ha
      cases a with
      | function n d x dr r =>
          obtain ⟨_, _, result⟩ := below_function_iff.1 h
          exact result
      | _ => cases families
  | base b => cases b <;> first | exact .top _ | exact absurd rfl hb
  | _ => exact .top _

end Ty

namespace Operator

def isBuiltIn : Operator → Bool
  | custom .. => false
  | _ => true

/-- Built-in operators take every list of arguments of the right length, and larger
arguments to larger values. -/
theorem value_mono {op : Operator} (builtIn : op.isBuiltIn = true) {as bs : List Ty}
    (length : as.length = op.arity) (below : List.Forall₂ Ty.Below as bs) :
    ∃ a b, op.value as = .ok a ∧ op.value bs = .ok b ∧ a.Below b := by
  have lengths := below.length_eq
  -- All built-in operators but the one for records take one argument.
  have unary {f : Ty → Ty} (mono : ∀ {a b : Ty}, a.Below b → (f a).Below (f b))
      (one : as.length = 1) (value : ∀ t, op.value [t] = .ok (f t)) :
      ∃ a b, op.value as = .ok a ∧ op.value bs = .ok b ∧ a.Below b := by
    obtain ⟨a, rfl⟩ := List.length_eq_one_iff.1 one
    obtain ⟨b, rfl⟩ := List.length_eq_one_iff.1 (lengths ▸ one)
    have below : a.Below b := by simpa using below
    exact ⟨f a, f b, value a, value b, mono below⟩
  cases op with
  | arrayOf => exact unary (fun h => .array (.refl none) h) length fun _ => rfl
  | elementOf => exact unary Ty.element_below length fun _ => rfl
  | fieldOf label => exact unary (Ty.fieldType_below label) length fun _ => rfl
  | returnOf => exact unary Ty.resultType_below length fun _ => rfl
  | recordOf labels distinct =>
      have record (args : List Ty) (length : args.length = labels.length) :
          (recordOf labels distinct).value args =
            .ok (Ty.ofFields (.ofList (labels.zip args))) := by
        rw [← Ty.recordOf_zip_eq distinct length]
        exact if_pos length
      exact ⟨_, _, record as length, record bs (lengths ▸ length), Ty.below_ofFields_zip below⟩
  | custom => cases builtIn

end Operator

namespace Term

def IsBuiltIn : Term → Prop
  | const _ | var _ => True
  | app op args => op.isBuiltIn = true ∧ ∀ i, (args i).IsBuiltIn

theorem value_mono {σ τ : Valuation} {t : Term} (builtIn : t.IsBuiltIn)
    (below : ∀ v ∈ t.vars, ∃ a b, σ v = some a ∧ τ v = some b ∧ a.Below b) :
    ∃ a b, t.value σ = .ok a ∧ t.value τ = .ok b ∧ a.Below b := by
  induction t with
  | const t => exact ⟨t, t, rfl, rfl, .refl t⟩
  | var v =>
      obtain ⟨a, b, ha, hb, below⟩ := below v (by simp)
      exact ⟨a, b, by simp [value, ha], by simp [value, hb], below⟩
  | app op args ih =>
      have arguments (i : Fin op.arity) :
          ∃ a b, (args i).value σ = .ok a ∧ (args i).value τ = .ok b ∧ a.Below b :=
        ih i (builtIn.2 i) fun v mem => below v (mem_vars_app.2 ⟨i, mem⟩)
      -- Each list of arguments is evaluated as a whole, so the choices are made for all of them.
      choose a b ha hb arguments_below using arguments
      have lists : List.Forall₂ Ty.Below ((List.finRange op.arity).map a)
          ((List.finRange op.arity).map b) := by
        simpa [List.forall₂_same] using arguments_below
      obtain ⟨s, t, hs, ht, result⟩ := op.value_mono builtIn.1 (by simp) lists
      refine ⟨s, t, ?_, ?_, result⟩
      · rw [value, mapM_eq_ok_map ha]
        exact hs
      · rw [value, mapM_eq_ok_map hb]
        exact ht

theorem exists_value {σ : Valuation} {t : Term} (builtIn : t.IsBuiltIn)
    (known : ∀ v ∈ t.vars, (σ v).isSome) : ∃ a, t.value σ = .ok a := by
  have self : ∀ v ∈ t.vars, ∃ a b, σ v = some a ∧ σ v = some b ∧ a.Below b := by
    intro v mem
    obtain ⟨a, ha⟩ := Option.isSome_iff_exists.1 (known v mem)
    exact ⟨a, a, ha, ha, .refl a⟩
  obtain ⟨a, -, ha, -⟩ := value_mono builtIn self
  exact ⟨a, ha⟩

end Term

namespace Inequality

def HasValues (σ : Valuation) (q : Inequality) : Prop :=
  (∃ a, q.lesser.value σ = .ok a) ∧ ∃ b, q.greater.value σ = .ok b

/-- Whether both sides have a value, and that of the lesser side is at most the other. -/
def holds (σ : Valuation) (q : Inequality) : Bool :=
  match q.lesser.value σ, q.greater.value σ with
  | .ok a, .ok b => (a.compare b).isAtMost
  | _, _ => false

theorem holds_iff {σ : Valuation} {q : Inequality} :
    q.holds σ = true ↔
      ∃ a b, q.lesser.value σ = .ok a ∧ q.greater.value σ = .ok b ∧ a ≤ b := by
  unfold holds
  constructor
  · intro h
    split at h
    · next a b ha hb => exact ⟨a, b, ha, hb, h⟩
    · cases h
  · rintro ⟨a, b, ha, hb, le⟩
    rw [ha, hb]
    exact le

section

variable {σ τ : Valuation} {q : Inequality} (agree : ∀ v ∈ q.vars, σ v = τ v)

include agree

theorem lesser_value_congr : q.lesser.value σ = q.lesser.value τ :=
  Term.value_congr fun v mem => agree v (mem_vars.2 (.inl mem))

theorem greater_value_congr : q.greater.value σ = q.greater.value τ :=
  Term.value_congr fun v mem => agree v (mem_vars.2 (.inr mem))

theorem holds_congr : q.holds σ = q.holds τ := by
  rw [holds, lesser_value_congr agree, greater_value_congr agree, holds]

theorem hasValues_congr : q.HasValues σ ↔ q.HasValues τ := by
  rw [HasValues, lesser_value_congr agree, greater_value_congr agree, HasValues]

end

end Inequality

end DataflowTypes
