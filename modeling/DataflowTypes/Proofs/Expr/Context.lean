import DataflowTypes.Proofs.Expr.Extension
import DataflowTypes.Proofs.Text.Lines

/-!
# Errors in their context

Main statement: the context of an error shows the line of the source that the error is in, with
carets from its column on that stay in the line.  Only for an end that is reported after the last
newline of a source, or in an empty one, there is no line to show.
-/

namespace DataflowTypes

namespace ParseError

variable {source : String} {e : ParseError}

def marked (number : Nat) (line : String) (column carets : Nat) : String :=
  "  " ++ toString number ++ " | " ++ line ++ "\n" ++
    "  " ++ String.ofList (List.replicate (toString number).length ' ') ++ " | " ++
      String.ofList (List.replicate column ' ') ++ String.ofList (List.replicate carets '^')

/-- The context is the line of the error with carets below it, at least one.  They start at the
column of the error and stay in the line, but for a single one at its end. -/
def MarksLine (e : ParseError) (source : String) : Prop :=
  ∃ line carets, Text.IsLine source e.span.line line ∧
    e.context source = marked e.span.line line (e.span.column - 1) carets ∧ 0 < carets ∧
    (e.span.column - 1 + carets ≤ line.utf8ByteSize ∨
      line.utf8ByteSize ≤ e.span.column - 1 ∧ carets = 1)

private theorem context_of_line {line : String}
    (found : (Text.lines source)[e.span.line - 1]? = some line) :
    e.context source =
      marked e.span.line line (e.span.column - 1) (caretCount e.span line (e.span.column - 1)) := by
  simp only [context, found]
  rfl

private theorem MarksLine.context_ne_empty (h : e.MarksLine source) : e.context source ≠ "" := by
  obtain ⟨line, carets, -, shown, -⟩ := h
  rw [shown]
  intro empty
  have := congrArg String.toList empty
  simp [marked] at this

/-- An error at a piece of text without line ends, which is empty only at the end of the source,
is shown in its line. -/
theorem marksLine_of_split {before text after : List Char}
    (split : source.toList = before ++ text ++ after)
    (span : e.span =
      (LineIndex.ofString source).span (byteLength before) (byteLength before + byteLength text))
    (inside : ∀ c ∈ text, c ≠ '\n' ∧ c ≠ '\r') (final : text = [] → after = [])
    (notNil : LineIndex.lastLine before ++ text ≠ []) :
    e.MarksLine source := by
  have position := LineIndex.position_ofString (split.trans (List.append_assoc ..))
  have number : e.span.line = 1 + before.count '\n' := by rw [span, LineIndex.span, position]
  have column : e.span.column - 1 = byteLength (LineIndex.lastLine before) := by
    rw [span, LineIndex.span, position]
    simp
  have length : e.span.length = byteLength text := by
    rw [span]
    simp [LineIndex.span, Span.length]
  obtain ⟨front, whole, clear, atStart⟩ := LineIndex.exists_front before
  have count : before.count '\n' = front.count '\n' := by
    have counted := congrArg (List.count '\n') whole
    rwa [List.count_append, List.count_eq_zero.2 clear] at counted
  have split' : source.toList = front ++ (LineIndex.lastLine before ++ text) ++ after := by
    rw [split, ← List.append_assoc, ← whole]
  have clear' : '\n' ∉ LineIndex.lastLine before ++ text := by
    rw [List.mem_append, not_or]
    exact ⟨clear, fun h => (inside _ h).1 rfl⟩
  have noReturn (last : (LineIndex.lastLine before ++ text).getLast? = some '\r') :
      after = [] := by
    cases text with
    | nil => exact final rfl
    | cons c cs =>
        have present : '\r' ∈ c :: cs := by
          rw [List.getLast?_append, List.getLast?_cons, Option.some_or,
            ← List.getLast?_cons] at last
          exact List.mem_of_getLast? last
        exact absurd rfl (inside _ present).2
  obtain ⟨more, start, found, isLine⟩ :=
    Text.exists_isLine split' atStart clear' notNil noReturn
  rw [← count] at found isLine
  rw [← number] at isLine
  have index : e.span.line - 1 = before.count '\n' := by rw [number, Nat.add_sub_cancel_left]
  have size : (String.ofList (LineIndex.lastLine before ++ text ++ more)).utf8ByteSize =
      byteLength (LineIndex.lastLine before) + byteLength text + byteLength more := by
    rw [utf8ByteSize_ofList, byteLength_append, byteLength_append]
  refine ⟨_, _, isLine, context_of_line (by rw [index]; exact found),
    Nat.le_max_left _ _, ?_⟩
  rw [caretCount, size, column, length]
  cases text with
  | nil =>
      obtain rfl : more = [] := List.prefix_nil.1 (final rfl ▸ start)
      exact .inr (by simp [byteLength])
  | cons c cs =>
      have := c.utf8Size_pos
      simp only [byteLength]
      omega

private theorem marksLine_of_lexeme {x : Lexeme} (present : x ∈ tokenize source)
    (span : e.span = x.span) :
    e.MarksLine source := by
  obtain ⟨front, text, rest, kind?, split, cut, rfl⟩ := Scan.exists_of_mem_tokenize present
  obtain ⟨c, w, rfl, notBlank⟩ := cut.exists_cons
  rw [Scan.span_lexemeAt] at span
  refine marksLine_of_split split span (fun d hd => ?_) (fun h => absurd h (by simp)) (by simp)
  have := Scan.isBlank_eq_false_iff.1 (notBlank d hd)
  constructor <;> rintro rfl <;> simp at this

private theorem context_eq_empty {expected : String}
    (atStart : LineIndex.AtLineStart source.toList) :
    (unexpectedEnd expected (endSpan source)).context source = "" := by
  have position := LineIndex.position_ofString (List.append_nil source.toList).symm
  have line : (endSpan source).line - 1 = source.toList.count '\n' := by
    rw [endSpan, LineIndex.span, utf8ByteSize_eq, position]
    simp
  have absent : (Text.lines source)[(endSpan source).line - 1]? = none := by
    rw [line, Text.getElem?_lines_eq_none atStart]
  simp only [context, span, absent]

private theorem marksLine_end {expected : String} (inLine : ¬LineIndex.AtLineStart source.toList) :
    (unexpectedEnd expected (endSpan source)).MarksLine source := by
  have split : source.toList = source.toList ++ [] ++ [] := by simp
  refine marksLine_of_split split ?_ (by simp) (fun _ => rfl) ?_
  · rw [span, endSpan, utf8ByteSize_eq]
    rfl
  · simpa [LineIndex.lastLine_eq_nil_iff] using inLine

/-- The context of an error marks its line.  It is empty only for an end that is reported where
a line would start. -/
theorem context_marks_line (h : Expr.parse source = .error e) :
    (e.context source = "" ↔ e.isEnd = true ∧ LineIndex.AtLineStart source.toList) ∧
      (e.context source ≠ "" → e.MarksLine source) := by
  have marks (other : ¬(e.isEnd = true ∧ LineIndex.AtLineStart source.toList)) :
      e.MarksLine source := by
    rcases Expr.points_of_parse_eq_error h with ⟨expected, rfl⟩ | ⟨-, x, present, span⟩
    · exact marksLine_end fun atStart => other ⟨rfl, atStart⟩
    · exact marksLine_of_lexeme present span
  have empty (atEnd : e.isEnd = true ∧ LineIndex.AtLineStart source.toList) :
      e.context source = "" := by
    rcases Expr.points_of_parse_eq_error h with ⟨expected, rfl⟩ | ⟨notEnd, -⟩
    · exact context_eq_empty atEnd.2
    · exact absurd (atEnd.1.symm.trans notEnd) (by decide)
  refine ⟨⟨fun nothing => ?_, empty⟩, fun something => marks (mt empty something)⟩
  exact Classical.byContradiction fun other => (marks other).context_ne_empty nothing

theorem context_marks_line_carriage :
    ∃ e, Expr.parse "\x7b]\r\n\x7d" = .error e ∧
      e.context "\x7b]\r\n\x7d" = "  1 | \x7b]\n    |  ^" ∧ e.MarksLine "\x7b]\r\n\x7d" := by
  have tokens : tokenize "\x7b]\r\n\x7d" = [.token ⟨.leftBrace, "\x7b", ⟨0, 1, 1, 1⟩⟩,
      .token ⟨.rightBracket, "]", ⟨1, 2, 1, 2⟩⟩, .token ⟨.rightBrace, "\x7d", ⟨4, 5, 2, 1⟩⟩] := by
    decide +kernel
  have fails : Expr.parse "\x7b]\r\n\x7d" =
      .error (.unexpectedToken "]" "a type" ⟨1, 2, 1, 2⟩) := by
    rw [Expr.parse, Cursor.start, tokens]
    rfl
  have shown : (ParseError.unexpectedToken "]" "a type" ⟨1, 2, 1, 2⟩).context "\x7b]\r\n\x7d" =
      "  1 | \x7b]\n    |  ^" := by
    decide +kernel
  exact ⟨_, fails, shown, (context_marks_line fails).2 (by rw [shown]; decide)⟩

/-- Nothing is shown where a source ends just after a newline, although the end is reported in
the line that would start there. -/
theorem context_empty_after_newline :
    ∃ e, Expr.parse "\x7b\n" = .error e ∧ e.span.line = 2 ∧ e.context "\x7b\n" = "" ∧
      Text.IsLine "\x7b\n" 2 "" := by
  have tokens : tokenize "\x7b\n" = [.token ⟨.leftBrace, "\x7b", ⟨0, 1, 1, 1⟩⟩] := by
    decide +kernel
  have finish : endSpan "\x7b\n" = ⟨2, 2, 2, 1⟩ := by decide +kernel
  have fails : Expr.parse "\x7b\n" = .error (.unexpectedEnd "a type" ⟨2, 2, 2, 1⟩) := by
    rw [Expr.parse, Cursor.start, tokens, finish]
    rfl
  refine ⟨_, fails, rfl, by decide +kernel, ['\x7b', '\n'], [], by decide +kernel, by decide,
    by simp [LineIndex.AtLineStart], by simp, .inl rfl⟩

end ParseError

end DataflowTypes
