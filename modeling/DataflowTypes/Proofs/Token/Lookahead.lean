import DataflowTypes.Token.Lexer

/-!
# Lookahead

A lexer is asked for its lexemes call by call.  Main statement: whatever the calls are, those
that take a lexeme get the lexemes of the source in order and then nothing, and those that only
look get what is taken next.
-/

namespace DataflowTypes

namespace Lexer

/-! ## One call -/

def stream (l : Lexer) : List Lexeme :=
  l.ahead.toList ++ Scan.scan l.index l.offset l.rest

private theorem stream_ofString (source : String) :
    (ofString source).stream = tokenize source := rfl

theorem scanOne_spec {l : Lexer} (empty : l.ahead = none) :
    l.scanOne.1 = l.stream.head? ∧ l.scanOne.2.stream = l.stream.tail ∧
      l.scanOne.2.ahead = none ∧ l.scanOne.2.source = l.source := by
  unfold scanOne
  split
  case h_1 atEnd => simp [stream, empty, Scan.scan_of_first?_eq_none atEnd]
  case h_2 x stop rest found => simp [stream, empty, Scan.scan_of_first?_eq_some found]

theorem peek_spec (l : Lexer) :
    l.peek.1 = l.stream.head? ∧ l.peek.2.stream = l.stream ∧ l.peek.2.source = l.source := by
  unfold peek
  split
  case h_1 x ahead => simp [stream, ahead]
  case h_2 empty =>
    obtain ⟨found, rest, cleared, source⟩ := scanOne_spec empty
    -- What was cut off stands in front of what is left of the text.
    have back : { l.scanOne.2 with ahead := l.scanOne.1 }.stream =
        l.scanOne.1.toList ++ l.scanOne.2.stream := by
      simp [stream, cleared]
    refine ⟨found, back.trans ?_, source⟩
    rw [found, rest]
    cases l.stream <;> rfl

theorem next_spec (l : Lexer) :
    l.next.1 = l.stream.head? ∧ l.next.2.stream = l.stream.tail ∧
      l.next.2.source = l.source := by
  unfold next
  split
  case h_1 x ahead => simp [stream, ahead]
  case h_2 empty =>
    obtain ⟨found, rest, -, source⟩ := scanOne_spec empty
    exact ⟨found, rest, source⟩

/-! ## Calls in any order -/

/-- `iterate` takes a lexeme as `next` does, for a loop over the lexer. -/
inductive Call where
  | peek
  | next
  | iterate
  | endSpan
  | source
deriving DecidableEq, Repr

inductive Reply where
  | lexeme (x : Option Lexeme)
  | span (s : Span)
  | text (source : String)
deriving DecidableEq, Repr

def Call.takes : Call → Bool
  | next | iterate => true
  | peek | endSpan | source => false

def serve (l : Lexer) : Call → Reply × Lexer
  | .peek => (.lexeme l.peek.1, l.peek.2)
  | .next | .iterate => (.lexeme l.next.1, l.next.2)
  | .endSpan => (.span l.endSpan, l)
  | .source => (.text l.source, l)

def replies (l : Lexer) : List Call → List Reply
  | [] => []
  | call :: calls => (l.serve call).1 :: (l.serve call).2.replies calls

def taken (calls : List Call) (replies : List Reply) : List Reply :=
  ((calls.zip replies).filter (·.1.takes)).map (·.2)

def Call.reply (source : String) (stream : List Lexeme) : Call → Reply
  | peek | next | iterate => .lexeme stream.head?
  | endSpan => .span (DataflowTypes.endSpan source)
  | .source => .text source

theorem Call.reply_of_takes {source : String} {stream : List Lexeme} {call : Call}
    (h : call.takes = true) : call.reply source stream = .lexeme stream.head? := by
  cases call with
  | next | iterate => rfl
  | peek | endSpan | source => cases h

theorem serve_spec (l : Lexer) (call : Call) :
    (l.serve call).1 = call.reply l.source l.stream ∧
      (l.serve call).2.stream = l.stream.drop (if call.takes then 1 else 0) ∧
      (l.serve call).2.source = l.source := by
  cases call with
  | peek =>
      obtain ⟨found, rest, source⟩ := l.peek_spec
      exact ⟨congrArg _ found, rest, source⟩
  | next | iterate =>
      obtain ⟨found, rest, source⟩ := l.next_spec
      exact ⟨congrArg _ found, by simpa [serve, Call.takes] using rest, source⟩
  | endSpan | source => exact ⟨rfl, rfl, rfl⟩

/-- The reply to a call depends on the calls before it only by how many of them took a lexeme. -/
theorem getElem?_replies (l : Lexer) (calls : List Call) (i : Nat) :
    (l.replies calls)[i]? =
      calls[i]?.map fun call =>
        call.reply l.source (l.stream.drop ((calls.take i).countP Call.takes)) := by
  induction calls generalizing l i with
  | nil => simp [replies]
  | cons call calls ih =>
      obtain ⟨reply, rest, source⟩ := l.serve_spec call
      cases i with
      | zero => simp [replies, reply]
      | succ i =>
          have count : ((call :: calls).take (i + 1)).countP Call.takes =
              (if call.takes then 1 else 0) + (calls.take i).countP Call.takes := by
            rw [List.take_succ_cons, List.countP_cons, Nat.add_comm]
          rw [replies, List.getElem?_cons_succ, ih, source, rest, List.drop_drop, count]
          rfl

private theorem taken_replies (l : Lexer) (calls : List Call) :
    taken calls (l.replies calls) =
      (List.range (calls.countP Call.takes)).map fun i => .lexeme l.stream[i]? := by
  induction calls generalizing l with
  | nil => rfl
  | cons call calls ih =>
      obtain ⟨reply, rest, -⟩ := l.serve_spec call
      have more := ih (l.serve call).2
      rw [rest] at more
      cases takes : call.takes with
      | false =>
          simp only [takes] at more
          simpa [taken, replies, takes] using more
      | true =>
          have first : (l.serve call).1 = .lexeme l.stream[0]? := by
            rw [reply, Call.reply_of_takes takes, List.head?_eq_getElem?]
          simp only [takes, if_true, List.getElem?_drop] at more
          rw [List.countP_cons, takes, if_pos rfl, List.range_succ_eq_map, List.map_cons,
            List.map_map]
          simpa [taken, replies, takes, first, Function.comp_def, Nat.add_comm] using more

/-- Looking ahead never changes the stream: the calls that take a lexeme get those of the source
in order and then nothing, every call is answered by what is not yet taken, and what is seen
ahead is what the next call takes. -/
theorem lookahead_transparent (source : String) (calls : List Call) :
    taken calls ((ofString source).replies calls) =
        (List.range (calls.countP Call.takes)).map (fun i => .lexeme (tokenize source)[i]?) ∧
      (∀ i : Nat, ((ofString source).replies calls)[i]? =
        calls[i]?.map fun call : Call => call.reply source
          ((tokenize source).drop ((calls.take i).countP Call.takes))) ∧
      ∀ before between after last, calls = before ++ .peek :: (between ++ last :: after) →
        (∀ call ∈ between, call.takes = false) → last.takes = true →
        ((ofString source).replies calls)[before.length]? =
          ((ofString source).replies calls)[before.length + 1 + between.length]? := by
  rw [← stream_ofString]
  refine ⟨taken_replies _ calls, getElem?_replies _ calls, ?_⟩
  rintro before between after last rfl notTaken takes
  have here : (before ++ .peek :: (between ++ last :: after))[before.length]? = some .peek := by
    simp
  have there : (before ++ .peek :: (between ++ last :: after))[
      before.length + 1 + between.length]? = some last := by
    simp [Nat.add_assoc, Nat.add_comm 1]
  -- Between the two calls nothing is taken.
  have same : ((before ++ .peek :: (between ++ last :: after)).take
        (before.length + 1 + between.length)).countP Call.takes =
      ((before ++ .peek :: (between ++ last :: after)).take before.length).countP Call.takes := by
    have none : between.countP Call.takes = 0 := by simpa using notTaken
    rw [List.take_left, Nat.add_assoc, List.take_length_add_append, Nat.add_comm 1,
      List.take_succ_cons, List.take_left, List.countP_append, List.countP_cons, none]
    rfl
  rw [getElem?_replies, getElem?_replies, here, there, same, Option.map_some, Option.map_some,
    Call.reply_of_takes takes]
  rfl

theorem lookahead_transparent_stray :
    (ofString "a #").replies [.next, .peek, .endSpan, .peek, .iterate, .peek, .source, .next] =
      [.lexeme (some (.token ⟨.identifier, "a", ⟨0, 1, 1, 1⟩⟩)),
        .lexeme (some (.stray ⟨2, 3, 1, 3⟩)), .span ⟨3, 3, 1, 4⟩,
        .lexeme (some (.stray ⟨2, 3, 1, 3⟩)), .lexeme (some (.stray ⟨2, 3, 1, 3⟩)),
        .lexeme none, .text "a #", .lexeme none] ∧
      ((ofString "a #").replies
          [.next, .peek, .endSpan, .peek, .iterate, .peek, .source, .next])[1]? =
        ((ofString "a #").replies
          [.next, .peek, .endSpan, .peek, .iterate, .peek, .source, .next])[4]? := by
  refine ⟨by decide +kernel, ?_⟩
  exact (lookahead_transparent "a #" [.next, .peek, .endSpan, .peek, .iterate, .peek, .source,
    .next]).2.2 [.next] [.endSpan, .peek] [.peek, .source, .next] .iterate rfl (by decide) rfl

end Lexer

end DataflowTypes
