import DataflowTypes.Proofs.Lattice.Compare
import Mathlib.Data.List.Nodup

/-!
# Memo tables

A table is described by its buckets, one for each hash, and these by what is found in
them.  An entry of a sound memo table is about two different types of which one is
structured, its outcome is that of comparing them, and the exchanged pair is
entered beside it.  Main statements: what is found after recording an outcome, and that
entering what a comparison gave keeps a table sound.  Since types that denote the same
are one key, this rests on hash and comparison seeing of a type only what it denotes.
-/

namespace DataflowTypes

/-! ## Changing or adding -/

section

variable {α : Type} {sought : α → Bool} {change : α → α} {new : α} {xs : List α}

theorem find?_upsert (isNew : sought new = true)
    (kept : ∀ x, sought x = true → sought (change x) = true) :
    (upsert sought change new xs).find? sought =
      some (((xs.find? sought).map change).getD new) := by
  obtain ⟨front, x, back, rfl, others, found, changed⟩ | ⟨others, added⟩ :=
    upsert_cases sought change new xs
  · have none : front.find? sought = none := by simpa using others
    simp [changed, none, found, kept x found]
  · have none : xs.find? sought = none := by simpa using others
    simp [added, none, isNew]

theorem find?_upsert_other {p : α → Bool} (notNew : p new = false)
    (other : ∀ x, sought x = true → p x = false ∧ p (change x) = false) :
    (upsert sought change new xs).find? p = xs.find? p := by
  obtain ⟨front, x, back, rfl, -, found, changed⟩ | ⟨-, added⟩ :=
    upsert_cases sought change new xs
  · simp [changed, other x found]
  · simp [added, notNew]

end

/-! ## Hashes -/

namespace Ty

theorem hash_eq_of_beq {a b : Ty} (h : (a == b) = true) : a.hash = b.hash := by
  induction a using rowInduction generalizing b with
  | base => rw [eq_of_flat_beq rfl h]
  | matrix => rw [eq_of_flat_beq rfl h]
  | array _ _ _ _ _ ih =>
      obtain ⟨_, _, _, rfl, element⟩ := eq_array_of_beq h
      simp only [Ty.hash, ih element]
  | row k _ _ _ _ ih =>
      obtain ⟨_, _, rfl, components⟩ := eq_row_of_beq h
      cases k <;> simp only [row, Ty.hash, fun l => ih l (components l)]
  | function _ _ _ _ _ _ ihParams _ ihResult =>
      obtain ⟨_, _, _, _, rfl, params, result⟩ := eq_function_of_beq h
      simp only [Ty.hash, fun i => ihParams i (params i), ihResult result]
  | object => rw [eq_object_of_beq h]

instance : LawfulHashable Ty := ⟨fun _ _ => hash_eq_of_beq⟩

end Ty

namespace Cache

variable {a b x y : Ty} {o : Comparison} {entry : Entry} {entries : List Entry} {c : Cache}

theorem isFor_iff {l r : Ty} :
    isFor a b ((l, r), o) = true ↔ (l == a) = true ∧ (r == b) = true := by
  simp [isFor]

theorem isFor_congr (left : (a == x) = true) (right : (b == y) = true) :
    isFor a b = isFor x y := by
  funext entry
  rw [isFor, isFor, BEq.congr_right left, BEq.congr_right right]

theorem isFor_eq (key : isFor a b entry = true) : isFor x y entry = (a == x && b == y) := by
  obtain ⟨⟨l, r⟩, o⟩ := entry
  obtain ⟨left, right⟩ := isFor_iff.1 key
  rw [isFor, BEq.congr_left left, BEq.congr_left right]

theorem pairHash_congr (left : (a == x) = true) (right : (b == y) = true) :
    pairHash a b = pairHash x y := by
  rw [pairHash, pairHash, hash_eq left, hash_eq right]

theorem pairHash_of_isFor (key : isFor a b entry = true) :
    pairHash entry.1.1 entry.1.2 = pairHash a b := by
  obtain ⟨⟨l, r⟩, o⟩ := entry
  obtain ⟨left, right⟩ := isFor_iff.1 key
  exact pairHash_congr left right

/-! ## Buckets -/

private theorem find?_recordIn (a b x y : Ty) (o : Comparison) (entries : List Entry) :
    ((recordIn a b o entries).find? (isFor x y)).map (·.2) =
      if a == x && b == y then some o else (entries.find? (isFor x y)).map (·.2) := by
  cases same : a == x && b == y with
  | true =>
      obtain ⟨left, right⟩ := Bool.and_eq_true_iff.1 same
      have isNew : isFor a b ((a, b), o) = true := isFor_iff.2 ⟨BEq.rfl, BEq.rfl⟩
      have kept (old : Entry) (found : isFor a b old = true) : isFor a b (old.1, o) = true := found
      rw [← isFor_congr left right, recordIn, find?_upsert isNew kept]
      cases entries.find? (isFor a b) <;> rfl
  | false =>
      have notNew : isFor x y ((a, b), o) = false := same
      have other (old : Entry) (found : isFor a b old = true) :
          isFor x y old = false ∧ isFor x y (old.1, o) = false :=
        ⟨(isFor_eq found).trans same, (isFor_eq found).trans same⟩
      rw [recordIn, find?_upsert_other notNew other]
      rfl

theorem length_recordIn (a b : Ty) (o : Comparison) (entries : List Entry) :
    (recordIn a b o entries).length =
      entries.length + if (entries.find? (isFor a b)).isSome then 0 else 1 := by
  obtain ⟨front, old, back, rfl, others, found, changed⟩ | ⟨others, added⟩ :=
    upsert_cases (isFor a b) (fun entry => (entry.1, o)) ((a, b), o) entries
  · simp [recordIn, changed, found]
  · have none : entries.find? (isFor a b) = none := by simpa using others
    simp [recordIn, added, none]

private theorem mem_recordIn (agree : ∀ old ∈ entries, isFor a b old = true → old.2 = o) :
    entry ∈ recordIn a b o entries ↔
      entry ∈ entries ∨ entry = ((a, b), o) ∧ (entries.find? (isFor a b)).isSome = false := by
  obtain ⟨front, old, back, rfl, others, found, changed⟩ | ⟨others, added⟩ :=
    upsert_cases (isFor a b) (fun entry => (entry.1, o)) ((a, b), o) entries
  · have same : (old.1, o) = old := by rw [← agree old (by simp) found]
    simp [recordIn, changed, same, found]
  · have none : entries.find? (isFor a b) = none := by simpa using others
    simp [recordIn, added, none]

@[simp] theorem buckets_record (c : Cache) (a b : Ty) (o : Comparison) :
    (c.record a b o).buckets = recordAmong a b o c.buckets := rfl

theorem bucket_record (c : Cache) (a b : Ty) (o : Comparison) (h : UInt64) :
    (c.record a b o).bucket h =
      if h = pairHash a b then recordIn a b o (c.bucket h) else c.bucket h := by
  split
  · next same =>
      subst same
      have isNew : (pairHash a b == pairHash a b) = true := BEq.rfl
      have find := @find?_upsert Bucket (·.1 == pairHash a b) (.record a b o)
        (.record a b o (pairHash a b, [])) c.buckets isNew fun _ found => found
      rw [bucket, buckets_record, recordAmong, find, bucket]
      cases c.buckets.find? (·.1 == pairHash a b) <;> rfl
  · next different =>
      have notNew : (pairHash a b == h) = false := by simpa using Ne.symm different
      have other (old : Bucket) (found : (old.1 == pairHash a b) = true) :
          (old.1 == h) = false := by
        rw [beq_iff_eq.1 found, notNew]
      have find := @find?_upsert_other Bucket (·.1 == pairHash a b) (.record a b o)
        (.record a b o (pairHash a b, [])) c.buckets (·.1 == h) notNew
        fun old found => ⟨other old found, other old found⟩
      rw [bucket, buckets_record, recordAmong, find, bucket]

theorem mem_of_mem_bucket {h : UInt64} (inBucket : entry ∈ c.bucket h) : entry ∈ c.entries := by
  rw [bucket] at inBucket
  cases found : c.buckets.find? (·.1 == h) with
  | none => simp [found] at inBucket
  | some bucket =>
      refine List.mem_flatMap.2 ⟨bucket, List.mem_of_find?_eq_some found, ?_⟩
      simpa [found] using inBucket

theorem mem_entries_iff :
    entry ∈ c.entries ↔ entry ∈ c.bucket (pairHash entry.1.1 entry.1.2) := by
  refine ⟨fun mem => ?_, mem_of_mem_bucket⟩
  obtain ⟨bucket, mem, inBucket⟩ := List.mem_flatMap.1 mem
  have some : (c.buckets.find? (·.1 == bucket.1)).isSome = true :=
    List.find?_isSome.2 ⟨bucket, mem, BEq.rfl⟩
  obtain ⟨first, found⟩ := Option.isSome_iff_exists.1 some
  have same : first = bucket :=
    List.inj_on_of_nodup_map c.distinct (List.mem_of_find?_eq_some found) mem
      (beq_iff_eq.1 (@List.find?_some Bucket (·.1 == bucket.1) _ _ found))
  rw [c.hashed bucket mem entry inBucket, Cache.bucket, found, same]
  exact inBucket

/-! ## Lookup -/

theorem get?_congr (left : (a == x) = true) (right : (b == y) = true) :
    c.get? a b = c.get? x y := by
  rw [get?, get?, pairHash_congr left right, isFor_congr left right]

/-- Recording reaches its own pair and no other, be they in one bucket or not. -/
theorem get?_record (c : Cache) (a b x y : Ty) (o : Comparison) :
    (c.record a b o).get? x y = if a == x && b == y then some o else c.get? x y := by
  rw [get?, bucket_record]
  split
  · exact find?_recordIn a b x y o _
  · next different =>
      have other : (a == x && b == y) = false := by
        refine Bool.eq_false_iff.2 fun same => different ?_
        obtain ⟨left, right⟩ := Bool.and_eq_true_iff.1 same
        exact (pairHash_congr left right).symm
      rw [other]
      rfl

theorem contains_eq (c : Cache) (a b : Ty) :
    c.contains a b = ((c.bucket (pairHash a b)).find? (isFor a b)).isSome := by
  rw [contains, get?, Option.isSome_map]

theorem size_record (c : Cache) (a b : Ty) (o : Comparison) :
    (c.record a b o).size = c.size + if c.contains a b then 0 else 1 := by
  rw [contains_eq, bucket, size, size, Cache.entries, Cache.entries, buckets_record, recordAmong]
  obtain ⟨front, old, back, whole, others, found, changed⟩ | ⟨others, added⟩ :=
    upsert_cases (·.1 == pairHash a b) (Bucket.record a b o) (.record a b o (pairHash a b, []))
      c.buckets
  · have none : front.find? (·.1 == pairHash a b) = none := by simpa using others
    have find : c.buckets.find? (·.1 == pairHash a b) = some old := by simp [whole, none, found]
    rw [changed, find, whole]
    simp only [List.flatMap_append, List.flatMap_cons, List.length_append, Bucket.record,
      length_recordIn, Option.map_some, Option.getD_some]
    omega
  · have none : c.buckets.find? (·.1 == pairHash a b) = none := by simpa using others
    rw [added, none]
    simp [Bucket.record, length_recordIn]

private theorem contains_of_mem (mem : entry ∈ c.entries) (key : isFor a b entry = true) :
    c.contains a b = true := by
  rw [mem_entries_iff, pairHash_of_isFor key] at mem
  rw [contains_eq]
  exact List.find?_isSome.2 ⟨entry, mem, key⟩

theorem exists_of_get? (hit : c.get? a b = some o) :
    ∃ entry ∈ c.entries, isFor a b entry = true ∧ entry.2 = o := by
  obtain ⟨entry, found, rfl⟩ := Option.map_eq_some_iff.1 hit
  have key := List.find?_some found
  refine ⟨entry, mem_entries_iff.2 ?_, key, rfl⟩
  rw [pairHash_of_isFor key]
  exact List.mem_of_find?_eq_some found

theorem mem_record (agree : ∀ old ∈ c.entries, isFor a b old = true → old.2 = o) :
    entry ∈ (c.record a b o).entries ↔
      entry ∈ c.entries ∨ entry = ((a, b), o) ∧ c.contains a b = false := by
  rw [mem_entries_iff, bucket_record, mem_entries_iff, contains_eq]
  split
  · next same =>
      rw [mem_recordIn fun old inBucket => agree old (mem_of_mem_bucket inBucket), same]
  · next different =>
      have notNew : entry ≠ ((a, b), o) := by
        rintro rfl
        exact different rfl
      simp [notNew]

/-! ## Soundness -/

def Sound (c : Cache) : Prop :=
  ∀ l r o, ((l, r), o) ∈ c.entries →
    (l == r) = false ∧ (l.isStructured = true ∨ r.isStructured = true) ∧
      o = l.compare r ∧ ((r, l), o.reverse) ∈ c.entries

theorem sound_empty : empty.Sound := by
  intro l r o mem
  cases mem

theorem Sound.eq_compare (sound : c.Sound) (mem : entry ∈ c.entries)
    (key : isFor a b entry = true) : entry.2 = a.compare b := by
  obtain ⟨⟨l, r⟩, o⟩ := entry
  obtain ⟨left, right⟩ := isFor_iff.1 key
  obtain ⟨-, -, outcome, -⟩ := sound l r o mem
  exact outcome.trans (Ty.compare_congr left right)

theorem Sound.get?_eq (sound : c.Sound) (hit : c.get? a b = some o) : o = a.compare b := by
  obtain ⟨entry, mem, key, rfl⟩ := exists_of_get? hit
  exact sound.eq_compare mem key

theorem Sound.contains_swap (sound : c.Sound) : c.contains b a = c.contains a b := by
  have swap {a b : Ty} (entered : c.contains a b = true) : c.contains b a = true := by
    obtain ⟨o, hit⟩ := Option.isSome_iff_exists.1 entered
    obtain ⟨⟨⟨l, r⟩, o⟩, mem, key, -⟩ := exists_of_get? hit
    obtain ⟨left, right⟩ := isFor_iff.1 key
    obtain ⟨-, -, -, mirror⟩ := sound l r o mem
    exact contains_of_mem mirror (isFor_iff.2 ⟨right, left⟩)
  exact Bool.eq_iff_iff.2 ⟨swap, swap⟩

theorem Sound.mem_insert (sound : c.Sound) (different : (a == b) = false) :
    entry ∈ (c.insert a b (a.compare b)).entries ↔
      entry ∈ c.entries ∨
        (entry = ((b, a), b.compare a) ∨ entry = ((a, b), a.compare b)) ∧
          c.contains a b = false := by
  have mirror {entry : Entry} : entry ∈ (c.record b a (b.compare a)).entries ↔
      entry ∈ c.entries ∨ entry = ((b, a), b.compare a) ∧ c.contains a b = false := by
    rw [mem_record fun old mem key => sound.eq_compare mem key, sound.contains_swap]
  have agree : ∀ old ∈ (c.record b a (b.compare a)).entries, isFor a b old = true →
      old.2 = a.compare b := by
    intro old mem key
    rcases mirror.1 mem with mem | ⟨rfl, -⟩
    · exact sound.eq_compare mem key
    · rw [BEq.comm, (isFor_iff.1 key).1] at different
      cases different
  have entered : (c.record b a (b.compare a)).contains a b = c.contains a b := by
    rw [contains, get?_record, BEq.comm, different]
    rfl
  rw [insert, ← Ty.compare_swap, mem_record agree, mirror, entered, or_assoc, ← or_and_right]

theorem Sound.insert (sound : c.Sound) (different : (a == b) = false)
    (structured : a.isStructured = true ∨ b.isStructured = true) :
    (c.insert a b (a.compare b)).Sound := by
  intro l r o mem
  simp only [sound.mem_insert different] at mem ⊢
  rcases mem with old | ⟨mirror | new, absent⟩
  · obtain ⟨h₁, h₂, h₃, h₄⟩ := sound l r o old
    exact ⟨h₁, h₂, h₃, .inl h₄⟩
  · obtain ⟨⟨rfl, rfl⟩, rfl⟩ : (l = b ∧ r = a) ∧ o = b.compare a := by simpa using mirror
    refine ⟨?_, structured.symm, rfl, .inr ⟨.inr ?_, absent⟩⟩
    · rwa [BEq.comm]
    · rw [← Ty.compare_swap]
  · obtain ⟨⟨rfl, rfl⟩, rfl⟩ : (l = a ∧ r = b) ∧ o = a.compare b := by simpa using new
    refine ⟨different, structured, rfl, .inr ⟨.inl ?_, absent⟩⟩
    rw [← Ty.compare_swap]

end Cache

end DataflowTypes
