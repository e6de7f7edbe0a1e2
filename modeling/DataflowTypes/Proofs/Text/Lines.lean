import DataflowTypes.Proofs.Text.Position
import DataflowTypes.Text.Lines

/-!
# The lines of a source

Lines are numbered by the newlines before them.  Main statements: the line in which a piece of
text without line ends stands is found under its number, and there is no line under the number
that an empty last line would have.
-/

namespace DataflowTypes

namespace LineIndex

def AtLineStart (cs : List Char) : Prop := ∀ c ∈ cs.getLast?, c = '\n'

theorem atLineStart_iff {cs : List Char} :
    AtLineStart cs ↔ cs = [] ∨ ∃ front, cs = front ++ ['\n'] := by
  constructor
  · intro atStart
    cases last : cs.getLast? with
    | none => exact .inl (List.getLast?_eq_none_iff.1 last)
    | some c =>
        obtain rfl := atStart c last
        exact .inr (List.getLast?_eq_some_iff.1 last)
  · rintro (rfl | ⟨front, rfl⟩) <;> simp [AtLineStart]

theorem exists_front (cs : List Char) :
    ∃ front, cs = front ++ lastLine cs ∧ '\n' ∉ lastLine cs ∧ AtLineStart front := by
  -- The induction is from the back, as the last character decides where the last line starts.
  obtain ⟨cs, rfl⟩ : ∃ ds : List Char, cs = ds.reverse := ⟨cs.reverse, by simp⟩
  induction cs with
  | nil => exact ⟨[], by simp [lastLine], by simp [lastLine], by simp [AtLineStart]⟩
  | cons c cs ih =>
      rw [List.reverse_cons, lastLine_concat]
      obtain ⟨front, split, clear, atStart⟩ := ih
      by_cases newline : c = '\n'
      · refine ⟨cs.reverse ++ [c], ?_, ?_, ?_⟩
        · simp [newline]
        · simp [newline]
        · simp [AtLineStart, newline]
      · refine ⟨front, ?_, ?_, atStart⟩
        · rw [if_neg newline, ← List.append_assoc, ← split]
        · simp [newline, clear, eq_comm]

theorem lastLine_eq_nil_iff {cs : List Char} : lastLine cs = [] ↔ AtLineStart cs := by
  constructor
  · intro empty
    obtain ⟨front, split, -, atStart⟩ := exists_front cs
    rw [empty, List.append_nil] at split
    exact split ▸ atStart
  · intro atStart
    rcases atLineStart_iff.1 atStart with rfl | ⟨front, rfl⟩
    · rfl
    · simp [lastLine_concat]

end LineIndex

namespace Text

open LineIndex

variable {source : String} {line front rest : List Char}

/-- The line of the source with the given number.  It ends where the source ends or before a
newline; a carriage return just before that newline is not part of it. -/
def IsLine (source : String) (number : Nat) (line : String) : Prop :=
  ∃ before after, source.toList = before ++ line.toList ++ after ∧
    number = 1 + before.count '\n' ∧ AtLineStart before ∧ '\n' ∉ line.toList ∧
    (after = [] ∨ ['\r', '\n'] <+: after ∨ ['\n'] <+: after ∧ line.toList.getLast? ≠ some '\r')

theorem linesFrom_append (clear : '\n' ∉ front) :
    linesFrom line (front ++ rest) = linesFrom (front.reverse ++ line) rest := by
  induction front generalizing line with
  | nil => rfl
  | cons c front ih =>
      obtain ⟨notNewline, clear⟩ := not_or.1 (mt List.mem_cons.2 clear)
      rw [List.cons_append, linesFrom, if_neg (Ne.symm notNewline), ih clear]
      simp

theorem linesFrom_newline :
    linesFrom line ('\n' :: rest) = dropReturn line.reverse :: linesFrom [] rest := by
  rw [linesFrom, if_pos rfl]

private theorem drop_linesFrom (front : List Char) :
    (linesFrom line (front ++ '\n' :: rest)).drop (front.count '\n' + 1) = linesFrom [] rest := by
  induction front generalizing line with
  | nil => simp [linesFrom_newline]
  | cons c front ih =>
      by_cases newline : c = '\n'
      · simp [newline, linesFrom_newline, ih]
      · simp [linesFrom, newline, ih]

theorem getElem?_lines (split : source.toList = front ++ rest) (atStart : AtLineStart front) :
    (lines source)[front.count '\n']? = (linesFrom [] rest).head?.map String.ofList := by
  have dropped : (linesFrom [] source.toList).drop (front.count '\n') = linesFrom [] rest := by
    rw [split]
    rcases atLineStart_iff.1 atStart with rfl | ⟨front, rfl⟩
    · rfl
    · simpa using drop_linesFrom front
  rw [lines, List.getElem?_map, ← dropped, List.head?_drop]

theorem getElem?_lines_eq_none (atStart : AtLineStart source.toList) :
    (lines source)[source.toList.count '\n']? = none := by
  rw [getElem?_lines (List.append_nil _).symm atStart]
  rfl

private theorem linesFrom_of_not_mem (clear : '\n' ∉ line) (notNil : line ≠ []) :
    linesFrom [] line = [line] := by
  have scanned := @linesFrom_append [] line [] clear
  simpa [linesFrom, notNil] using scanned

private theorem head?_linesFrom_newline (clear : '\n' ∉ line) :
    (linesFrom [] (line ++ '\n' :: rest)).head? = some (dropReturn line) := by
  rw [linesFrom_append clear, linesFrom_newline]
  simp

/-- What a line starts with is found in that line.  It does not end with a carriage return,
which could belong to the line end. -/
theorem exists_isLine {start after : List Char} (split : source.toList = front ++ start ++ after)
    (atStart : AtLineStart front) (clear : '\n' ∉ start) (notNil : start ≠ [])
    (noReturn : start.getLast? = some '\r' → after = []) :
    ∃ more, more <+: after ∧
      (lines source)[front.count '\n']? = some (String.ofList (start ++ more)) ∧
      IsLine source (1 + front.count '\n') (String.ofList (start ++ more)) := by
  have found := getElem?_lines (split.trans (List.append_assoc ..)) atStart
  by_cases newline : '\n' ∈ after
  · obtain ⟨tail, rest, rfl, clear'⟩ := List.eq_append_cons_of_mem newline
    have clear : '\n' ∉ start ++ tail := by simp [clear, clear']
    rw [← List.append_assoc, head?_linesFrom_newline clear] at found
    by_cases carriage : (start ++ tail).getLast? = some '\r'
    · obtain rfl | ⟨tail, c, rfl⟩ := List.eq_nil_or_concat tail
      · exact absurd (noReturn (by simpa using carriage)) (by simp)
      · obtain rfl : c = '\r' := by simpa using carriage
        refine ⟨tail, ⟨'\r' :: '\n' :: rest, by simp⟩, ?_, front, '\r' :: '\n' :: rest, ?_, rfl,
          atStart, ?_, .inr (.inl ⟨rest, rfl⟩)⟩
        · rw [found, dropReturn, if_pos carriage, List.concat_eq_append, ← List.append_assoc,
            List.dropLast_concat]
          rfl
        · rw [split]
          simp
        · simpa using clear
    · refine ⟨tail, List.prefix_append .., ?_, front, '\n' :: rest, ?_, rfl, atStart,
        by simpa using clear,
        .inr (.inr ⟨⟨rest, rfl⟩, by simpa using carriage⟩)⟩
      · rw [found, dropReturn, if_neg carriage]
        rfl
      · rw [split]
        simp
  · have clear : '\n' ∉ start ++ after := by simp [clear, newline]
    refine ⟨after, List.prefix_refl _, ?_, front, [], ?_, rfl, atStart, by simpa using clear,
      .inl rfl⟩
    · rw [found, linesFrom_of_not_mem clear (by simp [notNil])]
      rfl
    · rw [split]
      simp

end Text

end DataflowTypes
