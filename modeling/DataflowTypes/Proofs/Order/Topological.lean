import DataflowTypes.Order.FinOrder
import DataflowTypes.Proofs.Order.Path

/-!
# Topological order

Taking nodes off the queue keeps an invariant: what has been taken points forward, what waits
is ready, nothing that is ready has been left out, and the counter of a node is the number of
its predecessors that have not been taken.  When the queue is empty, the nodes that were taken
are therefore those to which no cycle leads.  Main statements: there is an order exactly if
there is no cycle, and otherwise the error names the first node on or after a cycle.
-/

namespace DataflowTypes.Digraph

variable {α : Type} [DecidableEq α] {g : Digraph α} {a b x : α} {taken queue : List α}

/-! ## Counters -/

/-- The predecessors of a node that have not been taken. -/
def missing (g : Digraph α) (taken : List α) (b : α) : List α :=
  (g.predecessors b).filter (· ∉ taken)

theorem mem_missing : a ∈ g.missing taken b ↔ g.Edge a b ∧ a ∉ taken := by
  simp [missing, mem_predecessors]

theorem missing_eq_nil_iff : g.missing taken b = [] ↔ ∀ a, g.Edge a b → a ∈ taken := by
  simp [List.eq_nil_iff_forall_not_mem, mem_missing]

private theorem missing_append (g : Digraph α) (taken : List α) (x b : α) :
    g.missing (taken ++ [x]) b = (g.missing taken b).erase x := by
  have nodup : (g.missing taken b).Nodup := (nodup_predecessors g b).filter _
  rw [nodup.erase_eq_filter, missing, missing, List.filter_filter]
  refine List.filter_congr fun a _ => ?_
  rw [Bool.eq_iff_iff]
  simp [and_comm]

namespace Sorting

variable {s : Sorting α}

private theorem counter_start (ha : a ∈ g.nodes) :
    (start g).counter a = (g.missing [] a).length := by
  have found : ∀ nodes : List α, a ∈ nodes →
      (nodes.map fun a => (a, (g.predecessors a).length)).lookup a =
        some (g.predecessors a).length := by
    intro nodes mem
    induction nodes with
    | nil => cases mem
    | cons b nodes ih =>
        by_cases same : a = b
        · simp [same]
        · have other : (a == b) = false := by simpa using same
          rw [List.map_cons, List.lookup_cons, other]
          exact ih ((List.mem_cons.1 mem).resolve_left same)
  simp [counter, start, found g.nodes ha, missing]

theorem taken_foldl_release (targets : List α) :
    (targets.foldl release s).taken = s.taken := by
  induction targets generalizing s with
  | nil => rfl
  | cons a targets ih => exact ih

private theorem lookup_replaced (entries : List (α × Nat)) (n : Nat) :
    (entries.map fun e => if e.1 = a then (e.1, n) else e).lookup b =
      if b = a then (entries.lookup a).map fun _ => n else entries.lookup b := by
  induction entries with
  | nil => simp
  | cons e entries ih =>
      obtain ⟨key, value⟩ := e
      by_cases here : key = a
      · subst here
        by_cases same : b = key
        · simp [same]
        · have other : (b == key) = false := by simpa using same
          simpa [List.lookup_cons, other, same] using ih
      · have other : (a == key) = false := by simpa using Ne.symm here
        rw [List.map_cons, if_neg here, List.lookup_cons, List.lookup_cons, List.lookup_cons, other,
          ih]
        by_cases same : b = a
        · simp [same, other]
        · simp [same]

theorem counter_release :
    (s.release a).counter b = if b = a then s.counter a - 1 else s.counter b := by
  simp only [release, counter, lookup_replaced]
  by_cases same : b = a
  · cases s.counters.lookup a <;> simp [same]
  · simp [same]

/-- What is left when the targets of a node are released, none of which is at zero before. -/
theorem foldl_release {targets : List α} (nodup : targets.Nodup)
    (positive : ∀ b ∈ targets, 0 < s.counter b) :
    (targets.foldl release s).waiting =
        s.waiting ++ targets.filter (fun b => s.counter b = 1) ∧
      ∀ b, (targets.foldl release s).counter b =
        if b ∈ targets then s.counter b - 1 else s.counter b := by
  induction targets generalizing s with
  | nil => simp
  | cons a targets ih =>
      obtain ⟨fresh, nodup⟩ := List.nodup_cons.1 nodup
      obtain ⟨first, positive⟩ := List.forall_mem_cons.1 positive
      have other {b : α} (hb : b ∈ targets) : (s.release a).counter b = s.counter b := by
        rw [counter_release, if_neg]
        rintro rfl
        exact fresh hb
      obtain ⟨waiting, counters⟩ :=
        ih nodup (s := s.release a) fun b hb => (other hb).symm ▸ positive b hb
      refine ⟨?_, fun b => ?_⟩
      · have last : s.counter a - 1 = 0 ↔ s.counter a = 1 := by omega
        rw [List.foldl_cons, waiting, List.filter_congr fun b hb => by rw [other hb]]
        simp only [release, last, List.filter_cons, decide_eq_true_eq]
        split <;> simp
      · rw [List.foldl_cons, counters]
        by_cases hb : b ∈ targets
        · simp [hb, other hb]
        · by_cases same : b = a
          · simp [same, fresh, counter_release]
          · simp [hb, same, counter_release]

end Sorting

/-! ## Taking nodes off the queue -/

structure Progress (g : Digraph α) (s : Sorting α) : Prop where
  nodup : (s.taken ++ s.waiting).Nodup
  inside : ∀ a ∈ s.taken ++ s.waiting, a ∈ g.nodes
  forward : ∀ before b, before ++ [b] <+: s.taken → ∀ a, g.Edge a b → a ∈ before
  ready : ∀ b ∈ s.waiting, ∀ a, g.Edge a b → a ∈ s.taken
  complete : ∀ b ∈ g.nodes, (∀ a, g.Edge a b → a ∈ s.taken) → b ∈ s.taken ++ s.waiting
  counted : ∀ b ∈ g.nodes, s.counter b = (g.missing s.taken b).length

namespace Progress

variable {s : Sorting α}

theorem exists_before (h : Progress g s) (hb : b ∈ s.taken) :
    ∃ before after, s.taken = before ++ b :: after ∧ b ∉ before ∧
      ∀ a, g.Edge a b → a ∈ before := by
  obtain ⟨before, after, split, first⟩ := List.eq_append_cons_of_mem hb
  have start : before ++ [b] <+: s.taken := ⟨after, by simp [split]⟩
  exact ⟨before, after, split, first, h.forward before b start⟩

theorem predecessor_mem (h : Progress g s) (hb : b ∈ s.taken) (edge : g.Edge a b) :
    a ∈ s.taken := by
  obtain ⟨before, after, split, -, all⟩ := h.exists_before hb
  rw [split]
  exact List.mem_append_left _ (all a edge)

theorem length_le (h : Progress g s) :
    s.taken.length + s.waiting.length ≤ g.nodes.length := by
  rw [← List.length_append]
  exact (h.nodup.subperm h.inside).length_le

theorem start (g : Digraph α) : Progress g (.start g) := by
  have first : (Sorting.start g).waiting =
      g.nodes.filter fun a => (g.predecessors a).length == 0 := by
    simp [Sorting.start, List.filter_map, Function.comp_def]
  have mem_first (b : α) : b ∈ (Sorting.start g).waiting ↔ b ∈ g.nodes ∧ ∀ a, ¬g.Edge a b := by
    simp [first, List.eq_nil_iff_forall_not_mem, mem_predecessors]
  constructor
  case nodup =>
    rw [first]
    exact g.nodes_nodup.filter _
  case inside => exact fun a ha => ((mem_first a).1 ha).1
  case forward =>
    intro before b short
    simp [Sorting.start] at short
  case ready =>
    intro b hb a edge
    exact absurd edge (((mem_first b).1 hb).2 a)
  case complete =>
    intro b hb none
    exact (mem_first b).2 ⟨hb, fun a edge => absurd (none a edge) (by simp [Sorting.start])⟩
  case counted => exact fun b hb => Sorting.counter_start hb

section

variable (h : Progress g s) (front : s.waiting = x :: queue)

include h front

theorem front_not_mem : x ∉ s.taken := by
  intro hx
  exact (List.nodup_append.1 h.nodup).2.2 x hx x (by simp [front]) rfl

private theorem successor_not_mem (edge : g.Edge x b) : b ∉ s.taken ++ s.waiting := by
  intro hb
  rcases List.mem_append.1 hb with hb | hb
  · exact h.front_not_mem front (h.predecessor_mem hb edge)
  · exact h.front_not_mem front (h.ready b hb x edge)

theorem counter_pos (edge : g.Edge x b) : 0 < s.counter b := by
  rw [h.counted b edge.right_mem]
  exact List.length_pos_of_mem (mem_missing.2 ⟨edge, h.front_not_mem front⟩)

theorem counter_sub (hb : b ∈ g.nodes) :
    (if b ∈ g.successors x then s.counter b - 1 else s.counter b) =
      (g.missing (s.taken ++ [x]) b).length := by
  rw [missing_append, h.counted b hb, List.length_erase]
  simp [mem_missing, mem_successors, h.front_not_mem front]

private theorem counter_eq_one_iff (edge : g.Edge x b) :
    s.counter b = 1 ↔ ∀ a, g.Edge a b → a ∈ s.taken ++ [x] := by
  have left := h.counter_sub front edge.right_mem
  rw [if_pos (mem_successors.2 edge)] at left
  rw [← missing_eq_nil_iff, ← List.length_eq_zero_iff, ← left]
  have := h.counter_pos front edge
  omega

private theorem mem_joining_iff :
    b ∈ (g.successors x).filter (fun b => s.counter b = 1) ↔
      g.Edge x b ∧ ∀ a, g.Edge a b → a ∈ s.taken ++ [x] := by
  rw [List.mem_filter, mem_successors, decide_eq_true_eq]
  exact and_congr_right (h.counter_eq_one_iff front)

theorem step :
    Progress g ((g.successors x).foldl .release
      { s with taken := s.taken ++ [x], waiting := queue }) := by
  obtain ⟨waiting, counters⟩ := Sorting.foldl_release
    (s := { s with taken := s.taken ++ [x], waiting := queue }) (nodup_successors g x)
    fun b hb => h.counter_pos front (mem_successors.1 hb)
  have taken : ((g.successors x).foldl Sorting.release
      { s with taken := s.taken ++ [x], waiting := queue }).taken = s.taken ++ [x] :=
    Sorting.taken_foldl_release _
  generalize (g.successors x).foldl .release
    { s with taken := s.taken ++ [x], waiting := queue } = next at taken waiting counters
  change next.waiting = queue ++ (g.successors x).filter (fun b => s.counter b = 1) at waiting
  have joining (b : α) := h.mem_joining_iff front (b := b)
  have inside := h.inside
  have nodup := h.nodup
  rw [front] at inside nodup
  constructor
  case nodup =>
    rw [taken, waiting, ← List.append_assoc, List.append_assoc s.taken [x] queue,
      List.singleton_append, List.nodup_append]
    refine ⟨nodup, (nodup_successors g x).filter _, ?_⟩
    rintro a ha b hb rfl
    rw [← front] at ha
    exact h.successor_not_mem front ((joining a).1 hb).1 ha
  case inside =>
    intro a ha
    rw [taken, waiting, List.append_assoc, List.singleton_append, ← List.cons_append,
      ← List.append_assoc] at ha
    rcases List.mem_append.1 ha with old | new
    · exact inside a old
    · exact ((joining a).1 new).1.right_mem
  case forward =>
    intro before b start
    rw [taken] at start
    rcases List.prefix_concat_iff.1 start with same | start
    · obtain ⟨rfl, last⟩ := List.append_inj' same rfl
      obtain rfl : b = x := by simpa using last
      exact h.ready b (by simp [front])
    · exact h.forward before b start
  case ready =>
    intro b hb
    rw [waiting] at hb
    rw [taken]
    rcases List.mem_append.1 hb with old | new
    · intro a edge
      exact List.mem_append_left _ (h.ready b (by simp [front, old]) a edge)
    · exact ((joining b).1 new).2
  case complete =>
    intro b hb all
    rw [taken] at all
    rw [taken, waiting]
    -- A node that was not ready before has an edge from the node just taken.
    by_cases edge : g.Edge x b
    · have joins := (joining b).2 ⟨edge, all⟩
      simp only [List.mem_append, joins, or_true]
    · have before : ∀ a, g.Edge a b → a ∈ s.taken := by
        intro a ha
        rcases List.mem_append.1 (all a ha) with earlier | last
        · exact earlier
        · rw [List.mem_singleton.1 last] at ha
          exact absurd ha edge
      have old := h.complete b hb before
      rw [front] at old
      simp only [List.mem_append, List.mem_cons] at old ⊢
      tauto
  case counted =>
    intro b hb
    rw [taken, counters]
    exact h.counter_sub front hb

end

/-- The fuel suffices if it covers the nodes that have not been taken yet. -/
theorem run {fuel : Nat} (h : Progress g s) (enough : g.nodes.length ≤ s.taken.length + fuel) :
    Progress g (.run g fuel s) ∧ (Sorting.run g fuel s).waiting = [] := by
  induction fuel generalizing s with
  | zero =>
      have room := h.length_le
      exact ⟨h, List.length_eq_zero_iff.1 (by simp only [Sorting.run]; omega)⟩
  | succ fuel ih =>
      rw [Sorting.run]
      split
      · next empty => exact ⟨h, empty⟩
      · next x queue front =>
          refine ih (h.step front) ?_
          rw [Sorting.taken_foldl_release, List.length_append, List.length_singleton]
          omega

end Progress

/-! ## The nodes that can be placed -/

def ordered (g : Digraph α) : List α := g.sorted.taken

theorem progress_sorted (g : Digraph α) : Progress g g.sorted ∧ g.sorted.waiting = [] :=
  (Progress.start g).run (by simp)

theorem mem_ordered_of_predecessors (hb : b ∈ g.nodes) (all : ∀ a, g.Edge a b → a ∈ g.ordered) :
    b ∈ g.ordered := by
  obtain ⟨progress, empty⟩ := progress_sorted g
  simpa [ordered, empty] using progress.complete b hb all

theorem nodup_ordered (g : Digraph α) : g.ordered.Nodup := by
  obtain ⟨progress, empty⟩ := progress_sorted g
  simpa [ordered, empty] using progress.nodup

theorem idxOf_ordered_lt (edge : g.Edge a b) (hb : b ∈ g.ordered) :
    g.ordered.idxOf a < g.ordered.idxOf b := by
  obtain ⟨before, after, split, first, all⟩ := (progress_sorted g).1.exists_before hb
  have earlier := List.idxOf_lt_length_of_mem (all a edge)
  rw [ordered, split, List.idxOf_append_of_mem (all a edge), List.idxOf_append_of_notMem first]
  omega

private theorem mem_ordered_of_leads (leads : g.Leads a b) (hb : b ∈ g.ordered) :
    a ∈ g.ordered := by
  induction leads using Relation.ReflTransGen.head_induction_on with
  | refl => exact hb
  | head edge _ ih => exact (progress_sorted g).1.predecessor_mem ih edge

theorem idxOf_ordered_lt_of_path (path : g.Path a b) (hb : b ∈ g.ordered) :
    g.ordered.idxOf a < g.ordered.idxOf b := by
  induction path with
  | single edge => exact idxOf_ordered_lt edge hb
  | tail _ edge ih =>
      have middle := (progress_sorted g).1.predecessor_mem hb edge
      exact (ih middle).trans (idxOf_ordered_lt edge hb)

theorem mem_ordered_iff : a ∈ g.ordered ↔ a ∈ g.nodes ∧ ¬g.AfterCycle a := by
  constructor
  · intro ha
    refine ⟨(progress_sorted g).1.inside a (List.mem_append_left _ ha), ?_⟩
    rintro ⟨c, cycle, leads⟩
    have := idxOf_ordered_lt_of_path cycle (mem_ordered_of_leads leads ha)
    omega
  · rintro ⟨ha, free⟩
    by_contra stuck
    -- A node that cannot be placed has a predecessor that cannot be placed either.
    refine free (afterCycle_of_predecessors (S := fun b => b ∈ g.nodes ∧ b ∉ g.ordered)
      ?_ ⟨ha, stuck⟩)
    rintro b ⟨hb, stuck⟩
    by_contra none
    have placed : ∀ p, g.Edge p b → p ∈ g.ordered := by
      intro p edge
      by_contra missing
      exact none ⟨p, edge, edge.left_mem, missing⟩
    exact stuck (mem_ordered_of_predecessors hb placed)

/-! ## The outcome -/

def isStuck (g : Digraph α) (a : α) : Bool := 0 < g.sorted.counter a

theorem isStuck_iff_not_mem (ha : a ∈ g.nodes) : g.isStuck a = true ↔ a ∉ g.ordered := by
  have progress := (progress_sorted g).1
  have done : g.missing g.ordered a = [] ↔ a ∈ g.ordered := by
    rw [missing_eq_nil_iff]
    exact ⟨mem_ordered_of_predecessors ha, fun taken p => progress.predecessor_mem taken⟩
  rw [isStuck, decide_eq_true_eq, progress.counted a ha, List.length_pos_iff]
  exact not_congr done

theorem isStuck_iff (ha : a ∈ g.nodes) : g.isStuck a = true ↔ g.AfterCycle a := by
  simp [isStuck_iff_not_mem, mem_ordered_iff, ha]

theorem length_ordered_lt_iff :
    g.ordered.length < g.nodes.length ↔ (g.nodes.find? g.isStuck).isSome = true := by
  have inside : g.ordered ⊆ g.nodes := fun a ha => (mem_ordered_iff.1 ha).1
  rw [List.find?_isSome]
  constructor
  · intro short
    by_contra none
    have all : g.nodes ⊆ g.ordered := by
      intro a ha
      by_contra missing
      exact none ⟨a, ha, (isStuck_iff_not_mem ha).2 missing⟩
    have := (g.nodes_nodup.subperm all).length_le
    omega
  · rintro ⟨a, ha, stuck⟩
    have missing := (isStuck_iff_not_mem ha).1 stuck
    have := ((List.nodup_cons.2 ⟨missing, nodup_ordered g⟩).subperm
      (List.cons_subset.2 ⟨ha, inside⟩)).length_le
    rwa [List.length_cons] at this

private theorem idxOf_le_of_find? {xs : List α} {p : α → Bool} (found : xs.find? p = some x)
    (hb : p b = true) : xs.idxOf x ≤ xs.idxOf b := by
  obtain ⟨hx, before, after, rfl, none⟩ := List.find?_eq_some_iff_append.1 found
  have absent (y : α) (hy : p y = true) : y ∉ before := by
    intro mem
    have := none y mem
    simp [hy] at this
  rw [List.idxOf_append_of_notMem (absent x hx), List.idxOf_append_of_notMem (absent b hb)]
  simp

private theorem find?_isStuck_eq_none_iff : g.nodes.find? g.isStuck = none ↔ g.Acyclic := by
  rw [List.find?_eq_none, acyclic_iff]
  constructor
  · intro all a after
    exact all a after.mem ((isStuck_iff after.mem).2 after)
  · intro none a ha stuck
    exact none a ((isStuck_iff ha).1 stuck)

private theorem find?_isStuck_eq_some_iff :
    g.nodes.find? g.isStuck = some x ↔
      g.AfterCycle x ∧ ∀ y, g.AfterCycle y → g.indexOf x ≤ g.indexOf y := by
  have first {z : α} (found : g.nodes.find? g.isStuck = some z) :
      g.AfterCycle z ∧ ∀ y, g.AfterCycle y → g.indexOf z ≤ g.indexOf y := by
    refine ⟨(isStuck_iff (List.mem_of_find?_eq_some found)).1 (List.find?_some found), ?_⟩
    intro y hy
    exact idxOf_le_of_find? found ((isStuck_iff hy.mem).2 hy)
  refine ⟨first, ?_⟩
  rintro ⟨hx, least⟩
  obtain ⟨z, found⟩ := Option.isSome_iff_exists.1
    (List.find?_isSome.2 ⟨x, hx.mem, (isStuck_iff hx.mem).2 hx⟩)
  obtain ⟨hz, least'⟩ := first found
  have same : g.nodes.idxOf x = g.nodes.idxOf z := Nat.le_antisymm (least z hz) (least' x hx)
  rw [found, (List.idxOf_inj hx.mem).1 same]

theorem topological_eq (g : Digraph α) :
    g.topological =
      (g.nodes.find? g.isStuck).elim (.ok g.ordered) fun x => .error (.cyclic x) := by
  have short := length_ordered_lt_iff (g := g)
  have test : (fun a => decide (0 < g.sorted.counter a)) = g.isStuck := rfl
  simp only [topological, test]
  cases found : g.nodes.find? g.isStuck with
  | none =>
      rw [found] at short
      exact dif_neg (mt short.1 (by simp))
  | some x =>
      rw [found] at short
      exact dif_pos (short.2 rfl)

theorem topological_eq_ok_iff {order : List α} :
    g.topological = .ok order ↔ g.Acyclic ∧ order = g.ordered := by
  rw [topological_eq, ← find?_isStuck_eq_none_iff]
  cases g.nodes.find? g.isStuck with
  | none => simp [eq_comm]
  | some x => simp

theorem topological_eq_error_iff :
    g.topological = .error (.cyclic x) ↔
      g.AfterCycle x ∧ ∀ y, g.AfterCycle y → g.indexOf x ≤ g.indexOf y := by
  rw [topological_eq, ← find?_isStuck_eq_some_iff]
  cases g.nodes.find? g.isStuck with
  | none => simp
  | some y => simp

theorem ofDigraph_eq (g : Digraph α) :
    FinOrder.ofDigraph g = g.topological.map fun ranked =>
      { nodes := g.nodes, ranked, upper := ranked.foldr (FinOrder.extendUpper g) [] } := by
  rw [FinOrder.ofDigraph]
  cases g.topological <;> rfl

/-- The nodes can be ordered so that all edges point forward exactly if there is no cycle, and
only then does the graph generate an order.  Every graph is covered: adding a node or an edge
again, or an edge that is refused, leads to no other ones. -/
theorem topological_sorts (g : Digraph α) :
    ((∃ order, g.topological = .ok order) ↔ g.Acyclic) ∧
      (∀ order, g.topological = .ok order →
        order.Perm g.nodes ∧ ∀ a b, g.Edge a b → order.idxOf a < order.idxOf b) ∧
      ((∃ p, FinOrder.ofDigraph g = .ok p) ↔ ∃ order, g.topological = .ok order) := by
  refine ⟨?_, ?_, ?_⟩
  · simp [topological_eq_ok_iff]
  · intro order sorted
    obtain ⟨acyclic, rfl⟩ := topological_eq_ok_iff.1 sorted
    have all : ∀ a, a ∈ g.ordered ↔ a ∈ g.nodes := fun a => by
      simp [mem_ordered_iff, acyclic_iff.1 acyclic a]
    refine ⟨(List.perm_ext_iff_of_nodup (nodup_ordered g) g.nodes_nodup).2 all, ?_⟩
    intro a b edge
    exact idxOf_ordered_lt edge ((all b).2 edge.right_mem)
  · rw [ofDigraph_eq]
    cases g.topological <;> simp [Except.map]

def stair : Digraph Nat where
  nodes := [3, 2, 1]
  edges := [(1, 2), (2, 3)]
  nodes_nodup := by decide
  edges_nodup := by decide
  edges_sound := by decide

theorem topological_sorts_stair :
    stair.topological = .ok [1, 2, 3] ∧ [1, 2, 3].Perm stair.nodes ∧
      [1, 2, 3].idxOf 2 < [1, 2, 3].idxOf 3 := by
  obtain ⟨-, sorts, -⟩ := topological_sorts stair
  obtain ⟨perm, forward⟩ := sorts [1, 2, 3] rfl
  exact ⟨rfl, perm, forward 2 3 (by decide)⟩

/-- Where there is no order, the error names the first node on or after a cycle.  This node
lies on a cycle itself exactly if no node after a cycle was added before all nodes on cycles. -/
theorem cyclic_names_first (g : Digraph α) (x : α) :
    (g.topological = .error (.cyclic x) ↔
        g.AfterCycle x ∧ ∀ y, g.AfterCycle y → g.indexOf x ≤ g.indexOf y) ∧
      (FinOrder.ofDigraph g = .error (.cyclic x) ↔ g.topological = .error (.cyclic x)) ∧
      (g.topological = .error (.cyclic x) →
        (g.Path x x ↔ ∀ y, g.AfterCycle y → ∃ c, g.Path c c ∧ g.indexOf c ≤ g.indexOf y)) := by
  refine ⟨topological_eq_error_iff, ?_, ?_⟩
  · rw [ofDigraph_eq]
    cases g.topological <;> simp [Except.map]
  · intro failed
    obtain ⟨after, first⟩ := topological_eq_error_iff.1 failed
    constructor
    · intro cycle y hy
      exact ⟨x, cycle, first y hy⟩
    · intro covered
      obtain ⟨c, cycle, early⟩ := covered x after
      have same : g.nodes.idxOf c = g.nodes.idxOf x :=
        Nat.le_antisymm early (first c cycle.afterCycle)
      rwa [← (List.idxOf_inj cycle.right_mem).1 same]

def bystander : Digraph Nat where
  nodes := [0, 1, 2]
  edges := [(1, 2), (2, 1), (1, 0)]
  nodes_nodup := by decide
  edges_nodup := by decide
  edges_sound := by decide

theorem cyclic_names_first_bystander :
    bystander.topological = .error (.cyclic 0) ∧ bystander.AfterCycle 0 ∧
      (bystander.Path 0 0 ↔ ∀ y, bystander.AfterCycle y →
        ∃ c, bystander.Path c c ∧ bystander.indexOf c ≤ bystander.indexOf y) := by
  obtain ⟨named, -, culprit⟩ := cyclic_names_first bystander 0
  exact ⟨rfl, (named.1 rfl).1, culprit rfl⟩

/-- The node that the error names need not lie on a cycle. -/
theorem cyclic_names_bystander :
    [(1, 2), (2, 1), (1, 0)].foldlM (fun g e => g.addEdge e.1 e.2)
        ([0, 1, 2].foldl addNode empty) = .ok bystander ∧
      bystander.topological = .error (.cyclic 0) ∧
      FinOrder.ofDigraph bystander = .error (.cyclic 0) ∧ ¬bystander.Path 0 0 := by
  refine ⟨rfl, rfl, rfl, ?_⟩
  intro cycle
  obtain ⟨c, edge, -⟩ := Relation.TransGen.head'_iff.1 cycle
  simp [Edge, bystander] at edge

end DataflowTypes.Digraph
