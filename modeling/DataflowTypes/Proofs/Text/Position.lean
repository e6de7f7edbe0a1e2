import DataflowTypes.Text.Span

/-!
# Lines and columns

The offsets at which lines start are collected once for a source and searched by halving.  Main
statement: at the end of any part `before` of the source they give its number of newlines and the
bytes of its last line, both counted from one.
-/

namespace DataflowTypes

namespace Place

variable {xs : Array Nat} {x low high : Nat}

/-- What a search for `x` may answer: an index at which it stands, or one that parts the smaller
numbers from the greater ones. -/
inductive IsFor (xs : Array Nat) (x : Nat) : Place → Prop where
  | found {i : Nat} (stands : xs[i]? = some x) : IsFor xs x (found i)
  | missing {i : Nat} (isPlace : i ≤ xs.size) (smaller : ∀ j y, xs[j]? = some y → j < i → y < x)
      (greater : ∀ j y, xs[j]? = some y → i ≤ j → x < y) : IsFor xs x (missing i)

theorem lt_of_increasing (increasing : xs.toList.Pairwise (· < ·)) {i j y z : Nat} (less : i < j)
    (left : xs[i]? = some y) (right : xs[j]? = some z) : y < z := by
  obtain ⟨_, rfl⟩ := Array.getElem?_eq_some_iff.1 left
  obtain ⟨_, rfl⟩ := Array.getElem?_eq_some_iff.1 right
  exact List.pairwise_iff_getElem.1 increasing i j _ _ less

-- What is left of the part under search is smaller and what is right of it is greater.
private theorem isFor_searchIn (increasing : xs.toList.Pairwise (· < ·)) {bound : high ≤ xs.size}
    (ordered : low ≤ high) (smaller : ∀ j y, xs[j]? = some y → j < low → y < x)
    (greater : ∀ j y, xs[j]? = some y → high ≤ j → x < y) :
    IsFor xs x (searchIn xs x low high bound) := by
  fun_induction searchIn xs x low high bound with
  | case1 low high bound inside middle isIndex here =>
      exact .found (here ▸ Array.getElem?_eq_getElem isIndex)
  | case2 low high bound inside middle isIndex _ before ih =>
      refine ih (by omega) (fun j y stands less => ?_) greater
      rcases Nat.lt_or_eq_of_le (Nat.le_of_lt_succ less) with less | rfl
      · exact Nat.lt_trans
          (lt_of_increasing increasing less stands (Array.getElem?_eq_getElem isIndex)) before
      · obtain ⟨_, rfl⟩ := Array.getElem?_eq_some_iff.1 stands
        exact before
  | case3 low high bound inside middle isIndex other notBefore ih =>
      have after : x < xs[middle] := by omega
      refine ih (by omega) smaller fun j y stands less => ?_
      rcases Nat.lt_or_eq_of_le less with less | rfl
      · exact Nat.lt_trans after
          (lt_of_increasing increasing less (Array.getElem?_eq_getElem isIndex) stands)
      · obtain ⟨_, rfl⟩ := Array.getElem?_eq_some_iff.1 stands
        exact after
  | case4 low high bound outside =>
      exact .missing (by omega) smaller fun j y stands less => greater j y stands (by omega)

theorem isFor_search (increasing : xs.toList.Pairwise (· < ·)) (x : Nat) :
    IsFor xs x (search xs x) := by
  refine isFor_searchIn increasing (Nat.zero_le _) (by omega) fun j y stands beyond => ?_
  obtain ⟨_, _⟩ := Array.getElem?_eq_some_iff.1 stands
  omega

end Place

namespace LineIndex

/-! ## The last line that has begun -/

section

variable {index : LineIndex} {offset start : Nat} {front back : List Nat}

/-- The line of an offset is the last one that starts at most there, whether the offset is itself
a start or falls between two of them. -/
theorem line_of_split (increasing : index.starts.toList.Pairwise (· < ·))
    (split : index.starts.toList = front ++ start :: back) (begun : start ≤ offset)
    (later : ∀ s ∈ back, offset < s) : index.line offset = front.length := by
  have stands : index.starts[front.length]? = some start := by
    simp [← Array.getElem?_toList, split]
  have beyond (j y : Nat) (stands : index.starts[j]? = some y) (less : front.length < j) :
      offset < y := by
    rw [← Array.getElem?_toList, split, List.getElem?_append_right (by omega),
      show j - front.length = j - front.length - 1 + 1 by omega, List.getElem?_cons_succ] at stands
    exact later y (List.mem_of_getElem? stands)
  have answer := Place.isFor_search increasing offset
  rw [line]
  cases found : Place.search index.starts offset with
  | found i =>
      rw [found] at answer
      cases answer with
      | found here =>
          rcases Nat.lt_trichotomy i front.length with less | same | less
          · have := Place.lt_of_increasing increasing less here stands
            omega
          · exact same
          · have := beyond i offset here less
            omega
  | missing i =>
      rw [found] at answer
      cases answer with
      | missing isPlace smaller greater =>
          have above : front.length < i := by
            refine Nat.lt_of_not_le fun least => ?_
            have := greater _ _ stands least
            omega
          have below : i ≤ front.length + 1 := by
            refine Nat.le_of_not_lt fun less => ?_
            have isIndex : i - 1 < index.starts.size := by omega
            have here := Array.getElem?_eq_getElem isIndex
            have := smaller _ _ here (by omega)
            have := beyond _ _ here (by omega)
            omega
          change i - 1 = front.length
          omega

private theorem lineStart_of_split (increasing : index.starts.toList.Pairwise (· < ·))
    (split : index.starts.toList = front ++ start :: back) (begun : start ≤ offset)
    (later : ∀ s ∈ back, offset < s) : index.lineStart offset = start := by
  rw [lineStart, line_of_split increasing split begun later, Array.getD_eq_getD_getElem?,
    ← Array.getElem?_toList, split]
  simp

end

/-! ## The starts of a source -/

variable {offset : Nat} {cs : List Char}

theorem afterNewlines_append (offset : Nat) (cs ds : List Char) :
    afterNewlines offset (cs ++ ds) =
      afterNewlines offset cs ++ afterNewlines (offset + byteLength cs) ds := by
  induction cs generalizing offset with
  | nil => simp [afterNewlines, byteLength]
  | cons c cs ih =>
      simp only [List.cons_append, afterNewlines, byteLength, ih, Nat.add_assoc]
      split <;> rfl

theorem bounds_of_mem_afterNewlines {start : Nat} (h : start ∈ afterNewlines offset cs) :
    offset < start ∧ start ≤ offset + byteLength cs := by
  induction cs generalizing offset with
  | nil => simp [afterNewlines] at h
  | cons c cs ih =>
      have size := c.utf8Size_pos
      simp only [byteLength]
      rw [afterNewlines] at h
      split at h
      · rcases List.mem_cons.1 h with rfl | h
        · omega
        · have := ih h
          omega
      · have := ih h
        omega

private theorem length_afterNewlines (offset : Nat) (cs : List Char) :
    (afterNewlines offset cs).length = cs.count '\n' := by
  induction cs generalizing offset with
  | nil => rfl
  | cons c cs ih =>
      rw [afterNewlines, List.count_cons]
      split <;> simp_all

def lastLine (cs : List Char) : List Char := (cs.reverse.takeWhile (· != '\n')).reverse

theorem lastLine_concat (cs : List Char) (c : Char) :
    lastLine (cs ++ [c]) = if c = '\n' then [] else lastLine cs ++ [c] := by
  by_cases newline : c = '\n' <;> simp [lastLine, newline]

private theorem exists_getLast? (offset : Nat) (cs : List Char) :
    ∃ start, (offset :: afterNewlines offset cs).getLast? = some start ∧
      start + byteLength (lastLine cs) = offset + byteLength cs := by
  -- The induction is from the back, as the last character decides where the last line starts.
  obtain ⟨cs, rfl⟩ : ∃ ds : List Char, cs = ds.reverse := ⟨cs.reverse, by simp⟩
  induction cs with
  | nil => exact ⟨offset, by simp [afterNewlines, lastLine, byteLength]⟩
  | cons c cs ih =>
      obtain ⟨start, last, length⟩ := ih
      rw [List.reverse_cons, afterNewlines_append, lastLine_concat]
      by_cases newline : c = '\n'
      · refine ⟨offset + byteLength cs.reverse + c.utf8Size, ?_, ?_⟩
        · simp only [afterNewlines, newline, if_true, ← List.cons_append]
          exact List.getLast?_concat
        · simp [newline, byteLength, Nat.add_assoc]
      · refine ⟨start, by simpa [afterNewlines, newline] using last, ?_⟩
        simp only [newline, if_false, byteLength_append]
        omega

private theorem increasing_afterNewlines (offset : Nat) (cs : List Char) :
    (offset :: afterNewlines offset cs).Pairwise (· < ·) := by
  induction cs generalizing offset with
  | nil => simp [afterNewlines]
  | cons c cs ih =>
      refine List.pairwise_cons.2 ⟨fun start h => (bounds_of_mem_afterNewlines h).1, ?_⟩
      rw [afterNewlines]
      split
      · exact ih _
      · exact (List.pairwise_cons.1 (ih _)).2

/-- A place in a source is given by the characters that end at most there. -/
structure Cut (source : String) (offset : Nat) (before after : List Char) : Prop where
  split : source.toList = before ++ after
  ended : byteLength before ≤ offset
  ongoing : ∀ c rest, after = c :: rest → offset < byteLength before + c.utf8Size

variable {source : String} {before after : List Char}

private theorem Cut.lt_of_mem (cut : Cut source offset before after) {start : Nat}
    (h : start ∈ afterNewlines (byteLength before) after) : offset < start := by
  cases after with
  | nil => simp [afterNewlines] at h
  | cons c rest =>
      have ongoing := cut.ongoing c rest rfl
      rw [afterNewlines] at h
      split at h
      · rcases List.mem_cons.1 h with rfl | h
        · exact ongoing
        · exact Nat.lt_trans ongoing (bounds_of_mem_afterNewlines h).1
      · exact Nat.lt_trans ongoing (bounds_of_mem_afterNewlines h).1

theorem Cut.line_and_lineStart (cut : Cut source offset before after) :
    (ofString source).line offset = before.count '\n' ∧
      (ofString source).lineStart offset + byteLength (lastLine before) = byteLength before := by
  have increasing : (ofString source).starts.toList.Pairwise (· < ·) := by
    simpa [ofString] using increasing_afterNewlines 0 source.toList
  obtain ⟨start, last, length⟩ := exists_getLast? 0 before
  obtain ⟨front, whole⟩ := List.getLast?_eq_some_iff.1 last
  have split : (ofString source).starts.toList =
      front ++ start :: afterNewlines (byteLength before) after := by
    rw [ofString, cut.split, afterNewlines_append, ← List.cons_append, whole]
    simp
  have lines : front.length = before.count '\n' := by
    simpa [length_afterNewlines] using (congrArg List.length whole).symm
  have begun : start ≤ offset := by
    have := cut.ended
    omega
  have later : ∀ s ∈ afterNewlines (byteLength before) after, offset < s :=
    fun s h => cut.lt_of_mem h
  rw [line_of_split increasing split begun later, lineStart_of_split increasing split begun later]
  omega

theorem position_ofString (split : source.toList = before ++ after) :
    (ofString source).position (byteLength before) =
      (1 + before.count '\n', 1 + byteLength (lastLine before)) := by
  have cut : Cut source (byteLength before) before after := by
    refine ⟨split, Nat.le_refl _, fun c _ _ => ?_⟩
    have := c.utf8Size_pos
    omega
  obtain ⟨line, start⟩ := cut.line_and_lineStart
  simp only [position, line, Prod.mk.injEq]
  omega

end LineIndex

theorem utf8ByteSize_eq (source : String) :
    source.utf8ByteSize = byteLength source.toList := by
  rw [← utf8ByteSize_ofList, String.ofList_toList]

/-- Line and column of the span are those at which it starts: one more than the newlines before
it, and one more than the bytes since the last of them. -/
def Span.Located (s : Span) (source : String) : Prop :=
  ∃ before after : String, source = before ++ after ∧ s.start = before.utf8ByteSize ∧
    s.line = 1 + before.toList.count '\n' ∧
    s.column = 1 + byteLength (LineIndex.lastLine before.toList)

theorem LineIndex.located_span {source : String} {before after : List Char}
    (split : source.toList = before ++ after) (stop : Nat) :
    ((ofString source).span (byteLength before) stop).Located source := by
  refine ⟨.ofList before, .ofList after, ?_, ?_, ?_⟩
  · rw [← String.ofList_append, ← split, String.ofList_toList]
  · rw [utf8ByteSize_ofList]
    rfl
  · simp [span, position_ofString split]

end DataflowTypes
