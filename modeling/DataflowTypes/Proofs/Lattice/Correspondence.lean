import DataflowTypes.Lattice.Inquiry
import DataflowTypes.Proofs.Lattice.Cache

/-!
# Comparing with a memo table

Everything that is computed from comparisons is written over a monad.  A
`Correspondence` relates computations of two monads that return the same; it is
kept by `pure` and `bind`, and so by all that is built from these.  Main
statements: lattices with corresponding comparisons have corresponding bounds, and
comparing with a sound memo table corresponds to comparing anew.
-/

namespace DataflowTypes

structure Correspondence (m n : Type → Type) [Monad m] [Monad n] where
  Related : {α : Type} → m α → n α → Prop
  pure : ∀ {α : Type} (a : α), Related (pure a) (pure a)
  bind : ∀ {α β : Type} {x : m α} {y : n α} {f : α → m β} {g : α → n β},
    Related x y → (∀ a, Related (f a) (g a)) → Related (x >>= f) (y >>= g)

variable {m n : Type → Type} [Monad m] [Monad n] (R : Correspondence m n)

namespace Correspondence

variable {α β : Type}

theorem ite {c : Prop} [Decidable c] {x x' : m α} {y y' : n α} (pos : c → R.Related x y)
    (neg : ¬c → R.Related x' y') :
    R.Related (if c then x else x') (if c then y else y') := by
  split
  · next h => exact pos h
  · next h => exact neg h

theorem dite {c : Prop} [Decidable c] {x : c → m α} {x' : ¬c → m α} {y : c → n α}
    {y' : ¬c → n α} (pos : ∀ h, R.Related (x h) (y h)) (neg : ∀ h, R.Related (x' h) (y' h)) :
    R.Related (if h : c then x h else x' h) (if h : c then y h else y' h) := by
  split
  · next h => exact pos h
  · next h => exact neg h

theorem foldlM {f : β → α → m β} {g : β → α → n β} (h : ∀ b a, R.Related (f b a) (g b a))
    (as : List α) (b : β) : R.Related (as.foldlM f b) (as.foldlM g b) := by
  induction as generalizing b with
  | nil => exact R.pure b
  | cons a as ih =>
      simp only [List.foldlM_cons]
      exact R.bind (h b a) ih

theorem mapM {f : α → m β} {g : α → n β} (h : ∀ a, R.Related (f a) (g a)) (as : List α) :
    R.Related (as.mapM f) (as.mapM g) := by
  have loop (bs : List β) : R.Related (List.mapM.loop f as bs) (List.mapM.loop g as bs) := by
    induction as generalizing bs with
    | nil => exact R.pure bs.reverse
    | cons a as ih => exact R.bind (h a) fun b => ih (b :: bs)
  exact loop []

theorem forM {f : α → m PUnit} {g : α → n PUnit} (h : ∀ a, R.Related (f a) (g a))
    (as : List α) : R.Related (as.forM f) (as.forM g) := by
  induction as with
  | nil => exact R.pure _
  | cons a as ih => exact R.bind (h a) fun _ => ih

theorem byOutcome {x : m Comparison} {y : n Comparison} {f : Comparison → m α}
    {g : Comparison → n α} (h : R.Related x y)
    (rule : R.Related (f .incomparable) (g .incomparable))
    (lower : R.Related (f .lower) (g .lower) := by exact R.pure _)
    (same : R.Related (f .same) (g .same) := by exact R.pure _)
    (higher : R.Related (f .higher) (g .higher) := by exact R.pure _) :
    R.Related (x >>= f) (y >>= g) := by
  refine R.bind h fun o => ?_
  cases o with
  | lower => exact lower
  | same => exact same
  | higher => exact higher
  | incomparable => exact rule

end Correspondence

/-! ## The rules of the families -/

namespace Rules

open Correspondence

theorem compareArrays_related {k l : Option Nat} {x : m Comparison} {y : n Comparison}
    (h : R.Related x y) : R.Related (compareArrays k l x) (compareArrays k l y) := by
  unfold compareArrays
  cases Length.compare k l with
  | incomparable => exact R.pure _
  | _ => exact R.bind h fun _ => R.pure _

theorem meetArrays_related {k l : Option Nat} {x : m Ty} {y : n Ty} (h : R.Related x y) :
    R.Related (meetArrays k l x) (meetArrays k l y) := by
  unfold meetArrays
  split
  · split
    · exact R.bind h fun _ => R.pure _
    · exact R.pure _
  · exact R.bind h fun _ => R.pure _
  · exact R.bind h fun _ => R.pure _

theorem joinArrays_related {k l : Option Nat} {x : m Ty} {y : n Ty} (h : R.Related x y) :
    R.Related (joinArrays k l x) (joinArrays k l y) :=
  R.bind h fun _ => R.pure _

section Components

variable {a b : NameSet}

theorem compareShared_related {f : (x : a.Member) → x.1 ∈ b → m Comparison}
    {g : (x : a.Member) → x.1 ∈ b → n Comparison} (h : ∀ x hx, R.Related (f x hx) (g x hx))
    (o : Comparison) (xs : List a.Member) :
    R.Related (compareShared f o xs) (compareShared g o xs) := by
  induction xs generalizing o with
  | nil => cases o <;> exact R.pure _
  | cons x xs ih =>
      cases o with
      | incomparable => exact R.pure _
      | _ =>
          simp only [compareShared]
          split
          · exact R.bind (h x _) fun _ => ih _
          · exact ih _

theorem combineShared_related {f : (x : a.Member) → x.1 ∈ b → m Ty}
    {g : (x : a.Member) → x.1 ∈ b → n Ty} (h : ∀ x hx, R.Related (f x hx) (g x hx))
    (xs : List a.Member) : R.Related (combineShared f xs) (combineShared g xs) := by
  induction xs with
  | nil => exact R.pure _
  | cons x xs ih =>
      simp only [combineShared]
      split
      · exact R.bind (h x _) fun _ => R.bind ih fun _ => R.pure _
      · exact ih

theorem sharedRow_related {f : (x : a.Member) → x.1 ∈ b → m Ty}
    {g : (x : a.Member) → x.1 ∈ b → n Ty} (h : ∀ x hx, R.Related (f x hx) (g x hx)) :
    R.Related (sharedRow f) (sharedRow g) :=
  R.bind (combineShared_related R h _) fun _ => R.pure _

theorem unitedRow_related (left : a.Member → Ty) (right : b.Member → Ty)
    {f : (x : a.Member) → x.1 ∈ b → m Ty} {g : (x : a.Member) → x.1 ∈ b → n Ty}
    (h : ∀ x hx, R.Related (f x hx) (g x hx)) :
    R.Related (unitedRow left right f) (unitedRow left right g) :=
  R.bind (combineShared_related R h _) fun _ => R.pure _

end Components

private theorem compareInOrder_related {ι : Type} {f : ι → m Comparison} {g : ι → n Comparison}
    (h : ∀ i, R.Related (f i) (g i)) (o : Comparison) (is : List ι) :
    R.Related (compareInOrder f o is) (compareInOrder g o is) := by
  induction is generalizing o with
  | nil => cases o <;> exact R.pure _
  | cons i is ih =>
      cases o with
      | incomparable => exact R.pure _
      | _ => exact R.bind (h i) fun _ => ih _

theorem compareFunctions_related {k : Nat} {f : Fin k → m Comparison} {g : Fin k → n Comparison}
    (h : ∀ i, R.Related (f i) (g i)) {x : m Comparison} {y : n Comparison} (hr : R.Related x y) :
    R.Related (compareFunctions f x) (compareFunctions g y) := by
  refine R.bind (compareInOrder_related R h _ _) fun o => ?_
  cases o with
  | incomparable => exact R.pure _
  | _ => exact R.bind hr fun _ => R.pure _

theorem combineFunctions_related {k : Nat} {f : Fin k → m Ty} {g : Fin k → n Ty}
    (h : ∀ i, R.Related (f i) (g i)) {x : m Ty} {y : n Ty} (hr : R.Related x y) :
    R.Related (combineFunctions f x) (combineFunctions g y) :=
  R.bind (R.mapM h _) fun _ => R.bind hr fun _ => R.pure _

end Rules

namespace Ty

/-! ## Bounds -/

theorem ne_array {s : Ty} (single : s.isArray = false) (d x : Ty) (dl k : Option Nat) :
    s ≠ array d x dl k := by
  rintro rfl
  simp [isArray, family?] at single

section Bounds

variable {f : Ty → Ty → m Comparison} {g : Ty → Ty → n Comparison}

private theorem meetWith_related (h : ∀ a b, R.Related (f a b) (g a b)) (a b : Ty) :
    R.Related (meetWith f a b) (meetWith g a b) := by
  induction a, b using pair_induction with
  | arrays d x dl k d' y dl' l ih =>
      rw [meetWith, meetWith]
      exact R.byOutcome (h _ _) (Rules.meetArrays_related R ih)
  | arraySingle d x dl k s single ih =>
      rw [meetWith, meetWith]
      · exact R.byOutcome (h _ _) (R.ite (fun _ => ih) fun _ => R.pure _)
      · exact ne_array single
      · exact ne_array single
  | singleArray s d y dl l single ih =>
      rw [meetWith, meetWith]
      · exact R.byOutcome (h _ _) (R.ite (fun _ => ih) fun _ => R.pure _)
      · exact ne_array single
      · exact ne_array single
  | records ls d x ls' d' y ih =>
      rw [meetWith, meetWith]
      have row := Rules.unitedRow_related R x y fun l hl => ih l ⟨l.1, hl⟩
      exact R.byOutcome (h _ _) (R.bind row fun _ => R.pure _)
  | unions ls d x ls' d' y ih =>
      rw [meetWith, meetWith]
      have row := Rules.sharedRow_related R fun l hl => ih l ⟨l.1, hl⟩
      exact R.byOutcome (h _ _) (R.bind row fun _ => R.pure _)
  | functions k d x dr r l d' y ds s ihParams ihResult =>
      rw [meetWith, meetWith]
      refine R.byOutcome (h _ _) (R.dite (fun arities => ?_) fun _ => R.pure _)
      exact Rules.combineFunctions_related R (fun i => ihParams i (i.cast arities)) ihResult
  | objects c c' =>
      rw [meetWith, meetWith]
      exact R.byOutcome (h _ _) (R.pure _)
  | nodes a b single single' families =>
      rw [meetWith.eq_def, meetWith.eq_def]
      refine R.byOutcome (h _ _) ?_
      cases a <;> cases b <;> first | exact R.pure _ | simp_all [isArray, family?]

private theorem joinWith_related (h : ∀ a b, R.Related (f a b) (g a b)) (a b : Ty) :
    R.Related (joinWith f a b) (joinWith g a b) := by
  induction a, b using pair_induction with
  | arrays d x dl k d' y dl' l ih =>
      rw [joinWith, joinWith]
      exact R.byOutcome (h _ _) (Rules.joinArrays_related R ih)
  | arraySingle d x dl k s single ih =>
      rw [joinWith, joinWith]
      · exact R.byOutcome (h _ _) (R.bind ih fun _ => R.pure _)
      · exact ne_array single
      · exact ne_array single
  | singleArray s d y dl l single ih =>
      rw [joinWith, joinWith]
      · exact R.byOutcome (h _ _) (R.bind ih fun _ => R.pure _)
      · exact ne_array single
      · exact ne_array single
  | records ls d x ls' d' y ih =>
      rw [joinWith, joinWith]
      have row := Rules.sharedRow_related R fun l hl => ih l ⟨l.1, hl⟩
      exact R.byOutcome (h _ _) (R.bind row fun _ => R.pure _)
  | unions ls d x ls' d' y ih =>
      rw [joinWith, joinWith]
      have row := Rules.unitedRow_related R x y fun l hl => ih l ⟨l.1, hl⟩
      exact R.byOutcome (h _ _) (R.bind row fun _ => R.pure _)
  | functions k d x dr r l d' y ds s ihParams ihResult =>
      rw [joinWith, joinWith]
      refine R.byOutcome (h _ _) (R.dite (fun arities => ?_) fun _ => R.pure _)
      exact Rules.combineFunctions_related R (fun i => ihParams i (i.cast arities)) ihResult
  | objects c c' =>
      rw [joinWith, joinWith]
      exact R.byOutcome (h _ _) (R.pure _)
  | nodes a b single single' families =>
      rw [joinWith.eq_def, joinWith.eq_def]
      refine R.byOutcome (h _ _) ?_
      cases a <;> cases b <;> first | exact R.pure _ | simp_all [isArray, family?]

end Bounds

end Ty

section Lattices

variable {L : Lattice m} {K : Lattice n} (h : ∀ a b, R.Related (L.compare a b) (K.compare a b))

include h

namespace Lattice

theorem isCompatible_related (target source : Ty) :
    R.Related (L.isCompatible target source) (K.isCompatible target source) :=
  R.bind (h source target) fun _ => R.pure _

theorem meet_related (a b : Ty) : R.Related (L.meet a b) (K.meet a b) :=
  Ty.meetWith_related R h a b

theorem join_related (a b : Ty) : R.Related (L.join a b) (K.join a b) :=
  Ty.joinWith_related R h a b

theorem joinAll_related (ts : List Ty) : R.Related (L.joinAll ts) (K.joinAll ts) :=
  R.foldlM (join_related R h) ts _

theorem meetAll_related (ts : List Ty) : R.Related (L.meetAll ts) (K.meetAll ts) :=
  R.foldlM (meet_related R h) ts _

end Lattice

theorem Inquiry.run_related {α : Type} (q : Inquiry α) : R.Related (q.run L) (q.run K) := by
  induction q with
  | done a => exact R.pure a
  | ask a b next ih => exact R.bind (h a b) ih

end Lattices

namespace Ty

/-! ## Comparisons -/

def compareBy (compare : Ty → Ty → m Comparison) (a b : Ty) : m Comparison :=
  match a, b with
  | array _ x _ n, array _ y _ k => Rules.compareArrays n k (compare x y)
  | record _ _ x, record ls' _ y =>
      Rules.compareRecords (b := ls') fun l h => compare (x l) (y ⟨l.1, h⟩)
  | union _ _ x, union ls' _ y =>
      Rules.compareUnions (b := ls') fun l h => compare (x l) (y ⟨l.1, h⟩)
  | function n _ x _ r, function k _ y _ s =>
      if h : n = k then
        Rules.compareFunctions (fun i => compare (x i) (y (i.cast h))) (compare r s)
      else pure .incomparable
  | object c, object c' => pure (c.compare c')
  | s, array d y dl k =>
      if s.isBound then pure (compareNodes s (array d y dl k))
      else if Length.acceptsScalar k then do
        if (← compare s y).isAtMost then pure .lower else pure .incomparable
      else pure .incomparable
  | array d x dl n, s =>
      if s.isBound then pure (compareNodes (array d x dl n) s)
      else if Length.acceptsScalar n then do
        if (← compare s x).isAtMost then pure .higher else pure .incomparable
      else pure .incomparable
  | a, b => pure (compareNodes a b)

theorem compareBy_array_single (compare : Ty → Ty → m Comparison) {d x s : Ty}
    {dl n : Option Nat} (single : s.isArray = false) :
    compareBy compare (array d x dl n) s =
      if s.isBound then pure (compareNodes (array d x dl n) s)
      else if Length.acceptsScalar n then
        compare s x >>= fun o => if o.isAtMost then pure .higher else pure .incomparable
      else pure .incomparable := by
  cases s with
  | array => cases single
  | _ => rfl

theorem compareBy_single_array (compare : Ty → Ty → m Comparison) {s d y : Ty}
    {dl k : Option Nat} (single : s.isArray = false) :
    compareBy compare s (array d y dl k) =
      if s.isBound then pure (compareNodes s (array d y dl k))
      else if Length.acceptsScalar k then
        compare s y >>= fun o => if o.isAtMost then pure .lower else pure .incomparable
      else pure .incomparable := by
  cases s with
  | array => cases single
  | _ => rfl

theorem compareWith_eq_memo (memo : Ty → Ty → m Comparison → m Comparison) {a b : Ty}
    (different : (a == b) = false) (structured : a.isStructured = true ∨ b.isStructured = true) :
    compareWith memo a b = memo a b (compareBy (compareWith memo) a b) := by
  have unflat : (!a.isStructured && !b.isStructured) = false := by
    rcases structured with h | h <;> simp [h]
  rw [compareWith.eq_def, different, unflat]
  cases a <;> cases b <;> rfl

theorem compareWith_flat (memo : Ty → Ty → m Comparison → m Comparison) {a b : Ty}
    (different : (a == b) = false) (ha : a.isStructured = false) (hb : b.isStructured = false) :
    compareWith memo a b = pure (compareNodes a b) := by
  rw [compareWith.eq_def, different, ha, hb]
  rfl

end Ty

namespace Lattice

def SoundMemo (memo : Option Cache) : Prop := ∀ c, memo = some c → c.Sound

/-- A computation with a memo table corresponds to one without if it returns the same and
leaves the table sound. -/
def memoCorrespondence : Correspondence Memo Id where
  Related x y := ∀ memo, SoundMemo memo →
    ∃ memo', SoundMemo memo' ∧ memo'.isSome = memo.isSome ∧
      Id.run (x.run memo) = (Id.run y, memo')
  pure a memo sound := ⟨memo, sound, rfl, rfl⟩
  bind {_ _ _ y _ _} hx hf memo sound := by
    obtain ⟨middle, sound', kept, first⟩ := hx memo sound
    obtain ⟨last, sound'', kept', second⟩ := hf (Id.run y) middle sound'
    refine ⟨last, sound'', kept'.trans kept, ?_⟩
    simp only [StateT.run_bind, Id.run_bind, first, second]

theorem memoCorrespondence_iff {α : Type} {x : Memo α} {y : Id α} :
    memoCorrespondence.Related x y ↔ ∀ memo, SoundMemo memo →
      ∃ memo', SoundMemo memo' ∧ memo'.isSome = memo.isSome ∧
        Id.run (x.run memo) = (Id.run y, memo') := Iff.rfl

private theorem lookUp_related {a b : Ty} {x : Memo Comparison} (different : (a == b) = false)
    (structured : a.isStructured = true ∨ b.isStructured = true)
    (h : memoCorrespondence.Related x (pure (a.compare b))) :
    memoCorrespondence.Related (lookUp a b x) (pure (a.compare b)) := by
  rw [memoCorrespondence_iff] at h ⊢
  intro memo sound
  cases memo with
  | none => exact h none sound
  | some c =>
      cases found : c.get? a b with
      | some o =>
          refine ⟨some c, sound, rfl, ?_⟩
          have hit : o = a.compare b := (sound c rfl).get?_eq found
          simp [lookUp, found, hit]
      | none =>
          obtain ⟨memo', sound', kept, run⟩ := h (some c) sound
          obtain ⟨c', rfl⟩ := Option.isSome_iff_exists.1 kept
          refine ⟨some (c'.insert a b (a.compare b)), ?_, rfl, ?_⟩
          · rintro _ ⟨⟩
            exact (sound' c' rfl).insert different structured
          · simp [lookUp, found, run]

open Ty

theorem compare_related_of_compareBy {a b : Ty}
    (h : memoCorrespondence.Related (compareBy memoized.compare a b)
      (compareBy plain.compare a b)) :
    memoCorrespondence.Related (memoized.compare a b) (plain.compare a b) := by
  change memoCorrespondence.Related (compareWith lookUp a b) (compareWith _ a b)
  cases different : a == b with
  | true =>
      rw [compareWith_of_beq _ different, compareWith_of_beq _ different]
      exact memoCorrespondence.pure _
  | false =>
      by_cases structured : a.isStructured = true ∨ b.isStructured = true
      · have outcome : compareBy plain.compare a b = pure (a.compare b) :=
          (compareWith_eq_memo (fun _ _ o => o) different structured).symm
        rw [outcome] at h
        rw [compareWith_eq_memo _ different structured, compareWith_eq_memo _ different structured]
        exact outcome ▸ lookUp_related different structured h
      · obtain ⟨ha, hb⟩ : a.isStructured = false ∧ b.isStructured = false := by
          simpa using structured
        rw [compareWith_flat _ different ha hb, compareWith_flat _ different ha hb]
        exact memoCorrespondence.pure _

theorem memoized_compare_related (a b : Ty) :
    memoCorrespondence.Related (memoized.compare a b) (plain.compare a b) := by
  induction a, b using pair_induction with
  | arrays d x dl n d' y dl' k ih =>
      exact compare_related_of_compareBy (Rules.compareArrays_related _ ih)
  | arraySingle d x dl n s single ih =>
      apply compare_related_of_compareBy
      rw [compareBy_array_single _ single, compareBy_array_single _ single]
      refine Correspondence.ite _ (fun _ => Correspondence.pure _ _) fun _ => ?_
      refine Correspondence.ite _ (fun _ => ?_) fun _ => Correspondence.pure _ _
      refine Correspondence.bind _ ih fun _ => ?_
      exact Correspondence.ite _ (fun _ => Correspondence.pure _ _) fun _ => Correspondence.pure _ _
  | singleArray s d y dl k single ih =>
      apply compare_related_of_compareBy
      rw [compareBy_single_array _ single, compareBy_single_array _ single]
      refine Correspondence.ite _ (fun _ => Correspondence.pure _ _) fun _ => ?_
      refine Correspondence.ite _ (fun _ => ?_) fun _ => Correspondence.pure _ _
      refine Correspondence.bind _ ih fun _ => ?_
      exact Correspondence.ite _ (fun _ => Correspondence.pure _ _) fun _ => Correspondence.pure _ _
  | records ls d x ls' d' y ih =>
      apply compare_related_of_compareBy
      exact Rules.compareShared_related _ (fun l hl => ih l ⟨l.1, hl⟩) _ _
  | unions ls d x ls' d' y ih =>
      apply compare_related_of_compareBy
      exact Rules.compareShared_related _ (fun l hl => ih l ⟨l.1, hl⟩) _ _
  | functions n d x dr r k d' y ds s ihParams ihResult =>
      apply compare_related_of_compareBy
      refine Correspondence.dite _ (fun arities => ?_) fun _ => Correspondence.pure _ _
      exact Rules.compareFunctions_related _ (fun i => ihParams i (i.cast arities)) ihResult
  | objects c c' => exact compare_related_of_compareBy (Correspondence.pure _ _)
  | nodes a b single single' families =>
      apply compare_related_of_compareBy
      cases a <;> cases b <;> first | exact Correspondence.pure _ _ | simp_all [isArray, family?]

end Lattice

end DataflowTypes
