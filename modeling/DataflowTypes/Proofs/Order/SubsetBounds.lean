import DataflowTypes.Proofs.Order.Bounds
import DataflowTypes.Proofs.Order.Reachability

/-!
# Bounds of lists of nodes

The bounds of a list are found by a search through all nodes.  Main statement: the search finds
exactly the least upper and the greatest lower bound in the order of reachability; and where any
two nodes have bounds, every list has them, and folding the bounds of pairs over the list gives
the same ones.

Upper and lower bounds differ in the direction of the order only, so what does not depend on the
search is said once, for a relation `R` that is `g.Leads` or its converse.
-/

namespace DataflowTypes.FinOrder

/-! ## Bounds under a relation -/

/-- `u` lies beyond all members of a list, and before every other node that does. -/
structure IsBound {α : Type} (R : α → α → Prop) (nodes xs : List α) (u : α) : Prop where
  mem : u ∈ nodes
  beyond : ∀ x ∈ xs, R x u
  first : ∀ v ∈ nodes, (∀ x ∈ xs, R x v) → R u v

namespace IsBound

variable {α : Type} {R S : α → α → Prop} {nodes xs : List α} {a b u v y : α}

theorem imp (same : ∀ a ∈ nodes, ∀ b ∈ nodes, (R a b ↔ S a b)) (inside : ∀ x ∈ xs, x ∈ nodes)
    (h : IsBound R nodes xs u) : IsBound S nodes xs u where
  mem := h.mem
  beyond x hx := (same x (inside x hx) u h.mem).1 (h.beyond x hx)
  first v hv beyond := by
    refine (same u h.mem v hv).1 (h.first v hv fun x hx => ?_)
    exact (same x (inside x hx) v hv).2 (beyond x hx)

theorem unique (antisymm : ∀ a b, R a b → R b a → a = b) (hu : IsBound R nodes xs u)
    (hv : IsBound R nodes xs v) : u = v :=
  antisymm u v (hu.first v hv.mem hv.beyond) (hv.first u hu.mem hu.beyond)

theorem nil_iff : IsBound R nodes [] u ↔ u ∈ nodes ∧ ∀ v ∈ nodes, R u v := by
  constructor
  · intro h
    exact ⟨h.mem, fun v hv => h.first v hv (by simp)⟩
  · rintro ⟨hu, first⟩
    exact ⟨hu, by simp, fun v hv _ => first v hv⟩

theorem single (refl : ∀ a, R a a) (ha : a ∈ nodes) : IsBound R nodes [a] a where
  mem := ha
  beyond := by simpa using refl a
  first v _ beyond := beyond a (List.mem_singleton.2 rfl)

private theorem concat (trans : ∀ a b c, R a b → R b c → R a c) (h : IsBound R nodes xs u)
    (pair : IsBound R nodes [u, y] v) : IsBound R nodes (xs ++ [y]) v where
  mem := pair.mem
  beyond x hx := by
    rcases List.mem_append.1 hx with hx | hx
    · exact trans x u v (h.beyond x hx) (pair.beyond u (by simp))
    · exact pair.beyond x (List.mem_cons_of_mem _ hx)
  first w hw beyond := by
    refine pair.first w hw fun x hx => ?_
    rcases List.mem_pair.1 hx with rfl | rfl
    · exact h.first w hw fun z hz => beyond z (List.mem_append_left _ hz)
    · exact beyond x (by simp)

def Pairs (R : α → α → Prop) (nodes : List α) (bound : α → α → Option α) : Prop :=
  ∀ a ∈ nodes, ∀ b ∈ nodes, ∃ c, bound a b = some c ∧ IsBound R nodes [a, b] c

theorem foldlM (trans : ∀ a b c, R a b → R b c → R a c) {bound : α → α → Option α}
    (pairs : Pairs R nodes bound) (ys : List α) (inside : ∀ y ∈ ys, y ∈ nodes)
    (h : IsBound R nodes xs u) :
    ∃ v, ys.foldlM bound u = some v ∧ IsBound R nodes (xs ++ ys) v := by
  induction ys generalizing xs u with
  | nil => exact ⟨u, rfl, by simpa using h⟩
  | cons y ys ih =>
      -- `u` bounds the elements so far, so its bound with `y` bounds one more.
      obtain ⟨c, found, pair⟩ := pairs u h.mem y (inside y List.mem_cons_self)
      obtain ⟨v, folded, all⟩ :=
        ih (fun z hz => inside z (List.mem_cons_of_mem _ hz)) (h.concat trans pair)
      refine ⟨v, ?_, by simpa using all⟩
      rw [List.foldlM_cons, found]
      exact folded

theorem boundOf (refl : ∀ a, R a a) (trans : ∀ a b c, R a b → R b c → R a c)
    {bound : α → α → Option α} (pairs : Pairs R nodes bound) (start : IsBound R nodes [] u)
    (inside : ∀ x ∈ xs, x ∈ nodes) :
    ∃ v, Extremes.boundOf bound u xs = some v ∧ IsBound R nodes xs v := by
  cases xs with
  | nil => exact ⟨u, rfl, start⟩
  | cons x xs =>
      exact foldlM trans pairs xs (fun y hy => inside y (List.mem_cons_of_mem _ hy))
        (single refl (inside x List.mem_cons_self))

theorem exists_start (refl : ∀ a, R a a) (trans : ∀ a b c, R a b → R b c → R a c)
    {bound : α → α → Option α} (pairs : Pairs R nodes bound) (some : nodes ≠ []) :
    ∃ u, IsBound (fun a b => R b a) nodes [] u := by
  -- The bound of all nodes bounds the empty list from the other side.
  obtain ⟨x, rest, rfl⟩ := List.exists_cons_of_ne_nil some
  obtain ⟨u, -, all⟩ := foldlM trans pairs rest
    (fun y hy => List.mem_cons_of_mem _ hy) (single refl List.mem_cons_self)
  exact ⟨u, nil_iff.2 ⟨all.mem, all.beyond⟩⟩

end IsBound

/-! ## The search -/

variable {α : Type} [DecidableEq α] {g : Digraph α} {p : FinOrder α} {a b u : α} {xs : List α}

theorem keys_upper (frozen : ofDigraph g = .ok p) : p.upper.map (·.1) = p.ranked := by
  obtain ⟨-, -, ranked, upper⟩ := of_ofDigraph frozen
  rw [upper, ranked]
  induction g.ordered with
  | nil => rfl
  | cons x after ih => rw [List.foldr_cons, extendUpper, List.map_cons, ih]

private theorem consistent_of_ofDigraph (frozen : ofDigraph g = .ok p) : p.Consistent := by
  have keys := keys_upper frozen
  have row (entry : α × List α) (he : entry ∈ p.upper) : p.above entry.1 = entry.2 := by
    obtain ⟨before, after, split⟩ := List.append_of_mem he
    have nodup := nodup_ranked frozen
    rw [← keys, split, List.map_append, List.map_cons, List.nodup_append] at nodup
    -- No other entry has this key.
    have found : p.upper.lookup entry.1 = some entry.2 := by
      refine List.lookup_eq_some_iff.2 ⟨before, after, split, fun other mem => ?_⟩
      have different := nodup.2.2 other.1 (List.mem_map_of_mem mem) entry.1 List.mem_cons_self
      simpa using different.symm
    rw [above, lookUpper, found]
    rfl
  refine ⟨row, fun a ha => ?_⟩
  obtain ⟨-, nodes, -⟩ := of_ofDigraph frozen
  have placed : a ∈ p.upper.map (·.1) := by
    rw [keys, mem_ranked_iff frozen, ← nodes]
    exact ha
  obtain ⟨entry, he, rfl⟩ := List.mem_map.1 placed
  rw [row entry he]
  exact he

theorem exists_joinOf? (inside : ∀ x ∈ xs, x ∈ p.nodes)
    (bound : IsBound (fun a b => p.le a b = true) p.nodes xs u) :
    ∃ v, p.joinOf? xs = some v := by
  have contained : xs.all p.contains = true := by simpa [contains] using inside
  have mem_bounds (v : α) : v ∈ p.nodes.filter (fun v => (xs.map p.above).all (·.contains v)) ↔
      v ∈ p.nodes ∧ ∀ x ∈ xs, p.le x v = true := by
    simp [le]
  refine Option.isSome_iff_exists.1 ?_
  simp only [joinOf?, contained, if_true, List.find?_isSome]
  refine ⟨u, (mem_bounds u).2 ⟨bound.mem, bound.beyond⟩, ?_⟩
  rw [List.all_eq_true]
  intro v hv
  exact bound.first v ((mem_bounds v).1 hv).1 ((mem_bounds v).1 hv).2

theorem exists_meetOf? (consistent : p.Consistent)
    (sound : ∀ entry ∈ p.upper, entry.1 ∈ p.nodes) (inside : ∀ x ∈ xs, x ∈ p.nodes)
    (bound : IsBound (fun a b => p.le b a = true) p.nodes xs u) :
    ∃ v, p.meetOf? xs = some v := by
  have contained : xs.all p.contains = true := by simpa [contains] using inside
  refine Option.isSome_iff_exists.1 ?_
  simp only [meetOf?, contained, if_true, Option.isSome_map, List.find?_isSome]
  refine ⟨(u, p.above u), ?_, ?_⟩
  · exact List.mem_filter.2 ⟨consistent.listed u bound.mem, List.all_eq_true.2 bound.beyond⟩
  · rw [List.all_eq_true]
    intro entry he
    obtain ⟨listed, below⟩ := List.mem_filter.1 he
    have above := bound.first entry.1 (sound entry listed) fun x hx => by
      rw [le, consistent.row entry listed]
      exact List.all_eq_true.1 below x hx
    rwa [le, consistent.row entry listed] at above

private theorem mem_of_joinOf? (found : p.joinOf? xs = some u) :
    (∀ x ∈ xs, x ∈ p.nodes) ∧ u ∈ p.nodes := by
  simp only [joinOf?] at found
  split at found
  case isTrue contained =>
    refine ⟨by simpa [contains] using contained, ?_⟩
    exact (List.mem_filter.1 (List.mem_of_find?_eq_some found)).1
  case isFalse => cases found

private theorem mem_of_meetOf? (sound : ∀ entry ∈ p.upper, entry.1 ∈ p.nodes)
    (found : p.meetOf? xs = some u) : (∀ x ∈ xs, x ∈ p.nodes) ∧ u ∈ p.nodes := by
  simp only [meetOf?] at found
  split at found
  case isTrue contained =>
    refine ⟨by simpa [contains] using contained, ?_⟩
    obtain ⟨entry, chosen, rfl⟩ := Option.map_eq_some_iff.1 found
    exact sound entry (List.mem_filter.1 (List.mem_of_find?_eq_some chosen)).1
  case isFalse => cases found

/-! ## Bounds in the order of a graph -/

theorem le_iff_of_mem (frozen : ofDigraph g = .ok p) :
    ∀ a ∈ g.nodes, ∀ b ∈ g.nodes, (p.le a b = true ↔ g.Leads a b) := by
  intro a ha b _
  simp [le_iff_leads frozen, ha]

theorem joinOf?_eq_some_iff (frozen : ofDigraph g = .ok p) :
    p.joinOf? xs = some u ↔
      (∀ x ∈ xs, x ∈ g.nodes) ∧ IsBound g.Leads g.nodes xs u := by
  obtain ⟨acyclic, nodes, -⟩ := of_ofDigraph frozen
  have exact {v : α} (found : p.joinOf? xs = some v) :
      (∀ x ∈ xs, x ∈ g.nodes) ∧ IsBound g.Leads g.nodes xs v := by
    obtain ⟨inside, hv⟩ := mem_of_joinOf? found
    obtain ⟨above, least⟩ := joinOf?_isLeast found
    rw [nodes] at inside hv least
    exact ⟨inside, IsBound.imp (le_iff_of_mem frozen) inside ⟨hv, above, least⟩⟩
  -- Conversely some bound is found, and there is only one.
  refine ⟨exact, fun ⟨inside, bound⟩ => ?_⟩
  have searched := bound.imp (fun a ha b hb => (le_iff_of_mem frozen a ha b hb).symm) inside
  rw [← nodes] at inside searched
  obtain ⟨v, found⟩ := exists_joinOf? inside searched
  rw [found, bound.unique (fun _ _ => acyclic.antisymm) (exact found).2]

theorem meetOf?_eq_some_iff (frozen : ofDigraph g = .ok p) :
    p.meetOf? xs = some u ↔
      (∀ x ∈ xs, x ∈ g.nodes) ∧ IsBound (fun a b => g.Leads b a) g.nodes xs u := by
  obtain ⟨acyclic, nodes, -⟩ := of_ofDigraph frozen
  have consistent := consistent_of_ofDigraph frozen
  have sound (entry : α × List α) (he : entry ∈ p.upper) : entry.1 ∈ p.nodes := by
    have placed : entry.1 ∈ p.upper.map (·.1) := List.mem_map_of_mem he
    rwa [keys_upper frozen, mem_ranked_iff frozen, ← nodes] at placed
  have exact {v : α} (found : p.meetOf? xs = some v) :
      (∀ x ∈ xs, x ∈ g.nodes) ∧ IsBound (fun a b => g.Leads b a) g.nodes xs v := by
    obtain ⟨inside, hv⟩ := mem_of_meetOf? sound found
    obtain ⟨below, greatest⟩ := meetOf?_isGreatest consistent found
    rw [nodes] at inside hv greatest
    exact ⟨inside, IsBound.imp (fun a ha b hb => le_iff_of_mem frozen b hb a ha) inside
      ⟨hv, below, greatest⟩⟩
  refine ⟨exact, fun ⟨inside, bound⟩ => ?_⟩
  have searched := bound.imp (fun a ha b hb => (le_iff_of_mem frozen b hb a ha).symm) inside
  rw [← nodes] at inside searched
  obtain ⟨v, found⟩ := exists_meetOf? consistent sound inside searched
  rw [found, bound.unique (fun _ _ there back => acyclic.antisymm back there) (exact found).2]

theorem bottom?_eq_some_iff_isBound (frozen : ofDigraph g = .ok p) :
    p.bottom? = some u ↔ IsBound g.Leads g.nodes [] u := by
  rw [bottom?_eq_some_iff frozen, IsBound.nil_iff]

theorem top?_eq_some_iff_isBound (frozen : ofDigraph g = .ok p) :
    p.top? = some u ↔ IsBound (fun a b => g.Leads b a) g.nodes [] u := by
  rw [top?_eq_some_iff frozen, IsBound.nil_iff]

theorem isLattice_iff (frozen : ofDigraph g = .ok p) :
    p.isLattice = true ↔ ∀ a ∈ g.nodes, ∀ b ∈ g.nodes,
      (∃ u, IsBound g.Leads g.nodes [a, b] u) ∧
        ∃ l, IsBound (fun a b => g.Leads b a) g.nodes [a, b] l := by
  obtain ⟨-, nodes, -⟩ := of_ofDigraph frozen
  rw [isLattice_iff_exists, nodes]
  refine forall₄_congr fun a ha b hb => ?_
  have inside : ∀ x ∈ [a, b], x ∈ g.nodes := by simp [ha, hb]
  simp only [join?, meet?, joinOf?_eq_some_iff frozen, meetOf?_eq_some_iff frozen]
  simp only [and_iff_right inside]

private theorem pairs_of_isLattice (frozen : ofDigraph g = .ok p) (lattice : p.isLattice = true) :
    IsBound.Pairs g.Leads g.nodes p.join? ∧
      IsBound.Pairs (fun a b => g.Leads b a) g.nodes p.meet? := by
  have bounds := (isLattice_iff frozen).1 lattice
  refine ⟨fun a ha b hb => ?_, fun a ha b hb => ?_⟩
  · obtain ⟨⟨u, hu⟩, -⟩ := bounds a ha b hb
    exact ⟨u, (joinOf?_eq_some_iff frozen).2 ⟨by simp [ha, hb], hu⟩, hu⟩
  · obtain ⟨-, l, hl⟩ := bounds a ha b hb
    exact ⟨l, (meetOf?_eq_some_iff frozen).2 ⟨by simp [ha, hb], hl⟩, hl⟩

/-- The bounds of a list of nodes are exact.  In a lattice with a node they always exist, and
they are those of the pairwise bounds folded over the list, from the least or the greatest node
if the list is empty. -/
theorem subsetBounds_exact (frozen : ofDigraph g = .ok p) :
    (∀ xs u, p.joinOf? xs = some u ↔
        (∀ x ∈ xs, x ∈ g.nodes) ∧ IsBound g.Leads g.nodes xs u) ∧
      (∀ xs l, p.meetOf? xs = some l ↔
        (∀ x ∈ xs, x ∈ g.nodes) ∧ IsBound (fun a b => g.Leads b a) g.nodes xs l) ∧
      (p.isLattice = true ↔ ∀ a ∈ g.nodes, ∀ b ∈ g.nodes,
        (∃ u, IsBound g.Leads g.nodes [a, b] u) ∧
          ∃ l, IsBound (fun a b => g.Leads b a) g.nodes [a, b] l) ∧
      (p.isLattice = true → g.nodes ≠ [] →
        ∃ least greatest, p.bottom? = some least ∧ p.top? = some greatest ∧
          ∀ xs, (∀ x ∈ xs, x ∈ g.nodes) →
            (∃ u, p.joinOf? xs = some u ∧ Extremes.boundOf p.join? least xs = some u) ∧
              ∃ l, p.meetOf? xs = some l ∧ Extremes.boundOf p.meet? greatest xs = some l) := by
  refine ⟨fun xs u => joinOf?_eq_some_iff frozen, fun xs l => meetOf?_eq_some_iff frozen,
    isLattice_iff frozen, fun lattice nonempty => ?_⟩
  obtain ⟨joins, meets⟩ := pairs_of_isLattice frozen lattice
  have trans (a b c : α) (h : g.Leads a b) (h' : g.Leads b c) : g.Leads a c := h.trans h'
  have trans' (a b c : α) (h : g.Leads b a) (h' : g.Leads c b) : g.Leads c a := h'.trans h
  obtain ⟨least, bottom⟩ := IsBound.exists_start (fun _ => .refl) trans' meets nonempty
  obtain ⟨greatest, top⟩ := IsBound.exists_start (fun _ => .refl) trans joins nonempty
  refine ⟨least, greatest, (bottom?_eq_some_iff_isBound frozen).2 bottom,
    (top?_eq_some_iff_isBound frozen).2 top, fun xs inside => ?_⟩
  obtain ⟨u, folded, join⟩ := IsBound.boundOf (fun _ => .refl) trans joins bottom inside
  obtain ⟨l, folded', meet⟩ := IsBound.boundOf (fun _ => .refl) trans' meets top inside
  exact ⟨⟨u, (joinOf?_eq_some_iff frozen).2 ⟨inside, join⟩, folded⟩,
    l, (meetOf?_eq_some_iff frozen).2 ⟨inside, meet⟩, folded'⟩

theorem subsetBounds_exact_diamond :
    ∃ p, ofDigraph diamond = .ok p ∧ p.isLattice = true ∧
      (∃ least, p.bottom? = some least ∧
        ∃ u, p.joinOf? [1, 2, 1] = some u ∧ Extremes.boundOf p.join? least [1, 2, 1] = some u) ∧
      p.meetOf? [1, 7] = none := by
  obtain ⟨p, frozen, lattice⟩ : ∃ p, ofDigraph diamond = .ok p ∧ p.isLattice = true :=
    ⟨_, rfl, by decide⟩
  obtain ⟨-, meets, -, bounds⟩ := subsetBounds_exact frozen
  obtain ⟨least, greatest, bottom, -, all⟩ := bounds lattice (by decide)
  refine ⟨p, frozen, lattice, ⟨least, bottom, (all [1, 2, 1] (by decide)).1⟩, ?_⟩
  rw [Option.eq_none_iff_forall_ne_some]
  intro l found
  exact absurd ((meets [1, 7] l).1 found).1 (by decide)

end DataflowTypes.FinOrder
