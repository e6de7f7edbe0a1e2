/-!
# Finite sets of names and rows of labelled values

A `NameSet` keeps its names in increasing order, so that equal sets have equal
listings.  A `Row` gives a value to each name of a set.  Main statements: what
`insert`, `ofList` and `tabulate` do, seen through membership and `get?`.
-/

namespace DataflowTypes

structure NameSet where
  toList : List String
  increasing : toList.Pairwise (· < ·) := by simp
deriving DecidableEq

namespace NameSet

instance : Membership String NameSet := ⟨fun s x => x ∈ s.toList⟩

theorem mem_def {x : String} {s : NameSet} : x ∈ s ↔ x ∈ s.toList := Iff.rfl

instance (x : String) (s : NameSet) : Decidable (x ∈ s) :=
  inferInstanceAs (Decidable (x ∈ s.toList))

abbrev Member (s : NameSet) := { x : String // x ∈ s }

def members (s : NameSet) : List s.Member := s.toList.attach

theorem mem_members {s : NameSet} (m : s.Member) : m ∈ s.members :=
  List.mem_attach s.toList m

def empty : NameSet := ⟨[], List.Pairwise.nil⟩

instance : Inhabited NameSet := ⟨empty⟩

theorem not_mem_empty (x : String) : x ∉ empty := List.not_mem_nil

theorem ext_mem {s t : NameSet} (h : ∀ x, x ∈ s ↔ x ∈ t) : s = t := by
  have nodup (u : NameSet) : u.toList.Nodup := by
    refine List.Pairwise.imp ?_ u.increasing
    rintro x _ below rfl
    exact String.lt_irrefl x below
  have lists : s.toList = t.toList :=
    List.Perm.eq_of_pairwise (fun _ _ _ _ below above => absurd above (String.lt_asymm below))
      s.increasing t.increasing ((List.perm_ext_iff_of_nodup (nodup s) (nodup t)).2 h)
  cases s
  cases t
  simp_all

def size (s : NameSet) : Nat := s.toList.length

/-! ## Insertion -/

def insertName (x : String) : List String → List String
  | [] => [x]
  | y :: ys => if x < y then x :: y :: ys else if x = y then y :: ys else y :: insertName x ys

theorem mem_insertName {x z : String} {ys : List String} :
    z ∈ insertName x ys ↔ z = x ∨ z ∈ ys := by
  induction ys with
  | nil => simp [insertName]
  | cons y ys ih =>
      rw [insertName]
      split
      · simp
      · split
        · rename_i h
          subst h
          simp
        · simp [ih, or_left_comm]

private theorem insertName_increasing (x : String) {ys : List String}
    (h : ys.Pairwise (· < ·)) : (insertName x ys).Pairwise (· < ·) := by
  induction ys with
  | nil => simp [insertName]
  | cons y ys ih =>
      obtain ⟨first, rest⟩ := List.pairwise_cons.1 h
      rw [insertName]
      split
      · rename_i below
        refine List.pairwise_cons.2 ⟨fun z hz => ?_, h⟩
        cases hz with
        | head => exact below
        | tail _ hz => exact String.lt_trans below (first z hz)
      · split
        · exact h
        · rename_i notBelow different
          have above : y < x := by
            by_cases yx : y < x
            · exact yx
            · exact absurd
                (String.le_antisymm (String.not_lt.1 yx) (String.not_lt.1 notBelow)) different
          refine List.pairwise_cons.2 ⟨fun z hz => ?_, ih rest⟩
          rcases mem_insertName.1 hz with rfl | hz
          · exact above
          · exact first z hz

def insert (s : NameSet) (x : String) : NameSet :=
  ⟨insertName x s.toList, insertName_increasing x s.increasing⟩

theorem mem_insert {s : NameSet} {x z : String} : z ∈ s.insert x ↔ z = x ∨ z ∈ s :=
  mem_insertName

def ofList (names : List String) : NameSet := names.foldl insert empty

def union (s t : NameSet) : NameSet := t.toList.foldl insert s

def filter (s : NameSet) (p : String → Bool) : NameSet :=
  ⟨s.toList.filter p, s.increasing.filter p⟩

theorem mem_filter {s : NameSet} {p : String → Bool} {z : String} :
    z ∈ s.filter p ↔ z ∈ s ∧ p z = true := List.mem_filter

def subset (s t : NameSet) : Bool := s.toList.all fun x => x ∈ t

theorem subset_iff {s t : NameSet} : s.subset t = true ↔ ∀ x ∈ s, x ∈ t := by
  simp [subset, mem_def]

theorem forall_common_iff {s t : NameSet} {P : s.Member → t.Member → Prop} :
    (∀ (x : s.Member) (h : x.1 ∈ t), P x ⟨x.1, h⟩) ↔
      ∀ (x : t.Member) (h : x.1 ∈ s), P ⟨x.1, h⟩ x :=
  ⟨fun all x h => all ⟨x.1, h⟩ x.2, fun all x h => all ⟨x.1, h⟩ x.2⟩

/-! ## Values on a set -/

def find? {α : Type} (s : NameSet) (f : s.Member → α) (x : String) : Option α :=
  if h : x ∈ s then some (f ⟨x, h⟩) else none

@[simp] theorem find?_member {α : Type} (s : NameSet) (f : s.Member → α) (m : s.Member) :
    s.find? f m.1 = some (f m) := by
  simp [find?, m.2]

theorem find?_of_not_mem {α : Type} {s : NameSet} (f : s.Member → α) {x : String}
    (h : x ∉ s) : s.find? f x = none := by
  simp [find?, h]

theorem find?_eq_some_iff {α : Type} {s : NameSet} {f : s.Member → α} {x : String} {a : α} :
    s.find? f x = some a ↔ ∃ h : x ∈ s, f ⟨x, h⟩ = a := by
  by_cases h : x ∈ s <;> simp [find?, h]

end NameSet

structure Row (α : Type) where
  labels : NameSet
  value : labels.Member → α

namespace Row

variable {α : Type}

def get? (r : Row α) (label : String) : Option α := r.labels.find? r.value label

def contains (r : Row α) (label : String) : Bool := label ∈ r.labels

def empty : Row α := ⟨.empty, fun m => absurd m.2 (NameSet.not_mem_empty _)⟩

theorem get?_empty (x : String) : (empty : Row α).get? x = none :=
  NameSet.find?_of_not_mem _ (NameSet.not_mem_empty x)

def insert (r : Row α) (label : String) (a : α) : Row α where
  labels := r.labels.insert label
  value := fun m =>
    if h : m.1 = label then a
    else r.value ⟨m.1, (NameSet.mem_insert.1 m.2).resolve_left h⟩

theorem get?_insert (r : Row α) (label x : String) (a : α) :
    (r.insert label a).get? x = if x = label then some a else r.get? x := by
  by_cases h : x = label
  · subst h
    simp [get?, insert, NameSet.find?, NameSet.mem_insert]
  · by_cases hx : x ∈ r.labels <;>
      simp [get?, insert, NameSet.find?, NameSet.mem_insert, h, hx]

def toList (r : Row α) : List (String × α) := r.labels.members.map fun m => (m.1, r.value m)

/-- The row of a list of labelled values; a later value replaces an earlier one. -/
def ofList (entries : List (String × α)) : Row α :=
  entries.foldl (fun r (label, a) => r.insert label a) empty

private theorem get?_foldl (entries : List (String × α)) (r : Row α) (x : String) :
    (entries.foldl (fun r (label, a) => r.insert label a) r).get? x =
      (entries.reverse.lookup x).or (r.get? x) := by
  induction entries generalizing r with
  | nil => simp
  | cons entry entries ih =>
      obtain ⟨label, a⟩ := entry
      simp only [List.foldl_cons, ih, get?_insert, List.reverse_cons, List.lookup_append,
        Option.or_assoc]
      by_cases same : x = label
      · simp [same]
      · have other : (x == label) = false := by simpa using same
        simp [same, other, List.lookup_cons]

/-- The last value given for a label counts. -/
theorem get?_ofList (entries : List (String × α)) (x : String) :
    (ofList entries).get? x = entries.reverse.lookup x := by
  rw [ofList, get?_foldl, get?_empty, Option.or_none]

/-- The row of a list of labelled values, or the first label that comes again. -/
def ofDistinct (entries : List (String × α)) : Except String (Row α) :=
  entries.foldlM (fun r (label, a) =>
    if r.contains label then .error label else .ok (r.insert label a)) empty

/-- The row of all values of a function on a set of labels, each computed once. -/
def tabulate (s : NameSet) (f : s.Member → α) : Row α :=
  ofList (s.members.map fun m => (m.1, f m))

theorem lookup_eq_some_of_mem {entries : List (String × α)} {x : String} {a : α}
    (mem : (x, a) ∈ entries) (unique : ∀ b, (x, b) ∈ entries → b = a) :
    entries.lookup x = some a := by
  cases found : entries.lookup x with
  | none => exact absurd rfl (bne_iff_ne.1 (List.lookup_eq_none_iff.1 found _ mem))
  | some b =>
      obtain ⟨before, after, split, -⟩ := List.lookup_eq_some_iff.1 found
      rw [unique b (by simp [split])]

theorem lookup_listed {s : NameSet} (f : s.Member → α) (x : String) :
    (s.members.map fun m => (m.1, f m)).reverse.lookup x = s.find? f x := by
  by_cases h : x ∈ s
  · rw [NameSet.find?, dif_pos h]
    refine lookup_eq_some_of_mem ?_ ?_
    · exact List.mem_reverse.2 (List.mem_map.2 ⟨⟨x, h⟩, NameSet.mem_members _, rfl⟩)
    · intro b mem
      obtain ⟨m, -, same⟩ := List.mem_map.1 (List.mem_reverse.1 mem)
      obtain ⟨rfl, rfl⟩ := Prod.mk.inj same
      rfl
  · rw [NameSet.find?_of_not_mem f h, List.lookup_eq_none_iff]
    intro entry mem
    obtain ⟨m, -, rfl⟩ := List.mem_map.1 (List.mem_reverse.1 mem)
    exact bne_iff_ne.2 fun same => h (same ▸ m.2)

theorem get?_tabulate {s : NameSet} (f : s.Member → α) (x : String) :
    (tabulate s f).get? x = s.find? f x := by
  rw [tabulate, get?_ofList, lookup_listed]

/-- The values of a row on a given set of labels, `a` where the row has none. -/
def on (r : Row α) (s : NameSet) (a : α) (m : s.Member) : α := (r.get? m.1).getD a

theorem on_tabulate (s : NameSet) (f : s.Member → α) (a : α) :
    (tabulate s f).on s a = f := by
  funext m
  simp [on, get?_tabulate]

end Row

end DataflowTypes
