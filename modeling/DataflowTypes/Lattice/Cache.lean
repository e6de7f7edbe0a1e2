import DataflowTypes.Order.Comparison
import DataflowTypes.Ty.Hash

/-!
# A memo table of comparisons

The table maps pairs of types to the outcome of comparing them.  Types that
denote the same are one key, whatever their declared components.  Each outcome
is entered for the exchanged pair as well.

The entries stand in buckets by the hash of their pair.  Unrelated pairs may have
one hash, so that an entry is found by comparing the types themselves.
-/

namespace DataflowTypes

/-! ## Changing or adding -/

def upsert {α : Type} (sought : α → Bool) (change : α → α) (new : α) : List α → List α
  | [] => [new]
  | x :: xs => if sought x then change x :: xs else x :: upsert sought change new xs

theorem upsert_cases {α : Type} (sought : α → Bool) (change : α → α) (new : α) (xs : List α) :
    (∃ front x back, xs = front ++ x :: back ∧ (∀ y ∈ front, sought y = false) ∧
        sought x = true ∧ upsert sought change new xs = front ++ change x :: back) ∨
      (∀ y ∈ xs, sought y = false) ∧ upsert sought change new xs = xs ++ [new] := by
  induction xs with
  | nil => exact .inr ⟨nofun, rfl⟩
  | cons x xs ih =>
      rw [upsert]
      cases here : sought x with
      | true => exact .inl ⟨[], x, xs, rfl, nofun, here, rfl⟩
      | false =>
          obtain ⟨front, y, back, rfl, others, found, changed⟩ | ⟨others, added⟩ := ih
          · exact .inl ⟨x :: front, y, back, rfl, List.forall_mem_cons.2 ⟨here, others⟩, found,
              congrArg (x :: ·) changed⟩
          · exact .inr ⟨List.forall_mem_cons.2 ⟨here, others⟩, congrArg (x :: ·) added⟩

theorem mem_upsert {α : Type} {sought : α → Bool} {change : α → α} {new y : α} {xs : List α}
    (h : y ∈ upsert sought change new xs) :
    y = new ∨ y ∈ xs ∨ ∃ x ∈ xs, sought x = true ∧ y = change x := by
  obtain ⟨front, x, back, rfl, -, found, changed⟩ | ⟨-, added⟩ :=
    upsert_cases sought change new xs
  · rw [changed, List.mem_append, List.mem_cons] at h
    rcases h with inFront | rfl | inBack
    · exact .inr (.inl (by simp [inFront]))
    · exact .inr (.inr ⟨x, by simp, found, rfl⟩)
    · exact .inr (.inl (by simp [inBack]))
  · rw [added, List.mem_append, List.mem_singleton] at h
    exact h.symm.imp_right .inl

namespace Cache

abbrev Entry := (Ty × Ty) × Comparison

abbrev Bucket := UInt64 × List Entry

def pairHash (a b : Ty) : UInt64 := mixHash (hash a) (hash b)

def isFor (a b : Ty) (entry : Entry) : Bool := entry.1.1 == a && entry.1.2 == b

def recordIn (a b : Ty) (o : Comparison) : List Entry → List Entry :=
  upsert (isFor a b) (fun entry => (entry.1, o)) ((a, b), o)

def Bucket.record (a b : Ty) (o : Comparison) (bucket : Bucket) : Bucket :=
  (bucket.1, recordIn a b o bucket.2)

def recordAmong (a b : Ty) (o : Comparison) : List Bucket → List Bucket :=
  upsert (·.1 == pairHash a b) (Bucket.record a b o) (Bucket.record a b o (pairHash a b, []))

def Bucket.Hashed (bucket : Bucket) : Prop :=
  ∀ entry ∈ bucket.2, pairHash entry.1.1 entry.1.2 = bucket.1

theorem Bucket.Hashed.record {a b : Ty} {bucket : Bucket} (hashed : bucket.Hashed)
    (same : bucket.1 = pairHash a b) (o : Comparison) : (Bucket.record a b o bucket).Hashed := by
  intro entry mem
  obtain rfl | kept | ⟨old, isOld, -, rfl⟩ := mem_upsert mem
  · exact same.symm
  · exact hashed entry kept
  · exact hashed old isOld

private theorem hashed_recordAmong (a b : Ty) (o : Comparison) {buckets : List Bucket}
    (hashed : ∀ bucket ∈ buckets, bucket.Hashed) :
    ∀ bucket ∈ recordAmong a b o buckets, bucket.Hashed := by
  intro bucket mem
  obtain rfl | kept | ⟨old, isOld, found, rfl⟩ := mem_upsert mem
  · have fresh : Bucket.Hashed (pairHash a b, []) := by
      intro _ mem
      cases mem
    exact fresh.record rfl o
  · exact hashed bucket kept
  · exact (hashed old isOld).record (beq_iff_eq.1 found) o

private theorem distinct_recordAmong (a b : Ty) (o : Comparison) {buckets : List Bucket}
    (distinct : (buckets.map (·.1)).Nodup) : ((recordAmong a b o buckets).map (·.1)).Nodup := by
  obtain ⟨front, old, back, rfl, -, -, changed⟩ | ⟨others, added⟩ :=
    upsert_cases (·.1 == pairHash a b) (Bucket.record a b o) (.record a b o (pairHash a b, []))
      buckets
  · rw [recordAmong, changed]
    simpa [Bucket.record] using distinct
  · rw [recordAmong, added, List.map_append, List.nodup_append]
    refine ⟨distinct, by simp, ?_⟩
    simpa [Bucket.record] using others

end Cache

structure Cache where
  buckets : List Cache.Bucket
  hashed : ∀ bucket ∈ buckets, bucket.Hashed
  distinct : (buckets.map (·.1)).Nodup

namespace Cache

def empty : Cache := ⟨[], nofun, .nil⟩

instance : Inhabited Cache := ⟨empty⟩

def entries (c : Cache) : List Entry := c.buckets.flatMap (·.2)

def bucket (c : Cache) (h : UInt64) : List Entry :=
  ((c.buckets.find? (·.1 == h)).map (·.2)).getD []

def get? (c : Cache) (a b : Ty) : Option Comparison :=
  ((c.bucket (pairHash a b)).find? (isFor a b)).map (·.2)

def record (c : Cache) (a b : Ty) (o : Comparison) : Cache where
  buckets := recordAmong a b o c.buckets
  hashed := hashed_recordAmong a b o c.hashed
  distinct := distinct_recordAmong a b o c.distinct

/-- Enters an outcome for the pair and its reverse for the exchanged pair. -/
def insert (c : Cache) (a b : Ty) (o : Comparison) : Cache :=
  (c.record b a o.reverse).record a b o

def contains (c : Cache) (a b : Ty) : Bool := (c.get? a b).isSome

def size (c : Cache) : Nat := c.entries.length

def clear (_ : Cache) : Cache := empty

end Cache

end DataflowTypes
