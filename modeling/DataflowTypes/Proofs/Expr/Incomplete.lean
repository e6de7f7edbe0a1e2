import DataflowTypes.Proofs.Expr.Completion

/-!
# Incomplete sources

A source is incomplete if more tokens make it one that can be read.  Main statement: where a
source without stray characters is not read, the end is reported exactly if it is incomplete,
with one exception.  As the last token behind an opening brace, `function` is taken for a type
and refused, although `=` could follow it.
-/

namespace DataflowTypes

/-- The tokens of the source are the first ones of a source that can be read, which has more. -/
def Expr.Incomplete (source : String) : Prop :=
  ∃ whole e more, Expr.parse whole = .ok e ∧ more ≠ [] ∧
    (tokenize whole).map Lexeme.terminal? = (tokenize source).map Lexeme.terminal? ++ more

private theorem exists_terminals {source : String} (clear : ∀ s, .stray s ∉ tokenize source) :
    ∃ ss : List Terminal, (tokenize source).map Lexeme.terminal? = ss.map some ∧
      ∀ s ∈ ss, s.Spelled := by
  have lifted {xs : List Lexeme} (clear : ∀ s, .stray s ∉ xs) :
      ∃ ts : List Token, xs = ts.map .token := by
    induction xs with
    | nil => exact ⟨[], rfl⟩
    | cons x xs ih =>
        cases x with
        | stray s => exact absurd List.mem_cons_self (clear s)
        | token t =>
            obtain ⟨ts, rfl⟩ := ih fun s hs => clear s (List.mem_cons_of_mem _ hs)
            exact ⟨t :: ts, rfl⟩
  obtain ⟨ts, tokens⟩ := lifted clear
  refine ⟨ts.map Token.terminal, by simp [tokens, Lexeme.terminal?], ?_⟩
  rw [List.forall_mem_map]
  intro t ht
  have present : .token t ∈ tokenize source := by
    rw [tokens]
    exact List.mem_map_of_mem ht
  exact spelled_of_mem_tokenize present

namespace Expr

variable {source : String} {ss more : List Terminal}

private theorem incomplete_of_isType
    (terminals : (tokenize source).map Lexeme.terminal? = ss.map some)
    (spelled : ∀ s ∈ ss, s.Spelled) (notNil : more ≠ []) (spelled' : ∀ s ∈ more, s.Spelled)
    (isType : IsType (ss ++ more)) : Incomplete source := by
  obtain ⟨d, same⟩ := isType
  obtain ⟨whole, tokens⟩ := exists_tokenize (List.forall_mem_append.2 ⟨spelled, spelled'⟩)
  have derives : d.Derives whole := by rw [Derivation.Derives, tokens, same]
  obtain ⟨e, h, -⟩ := derives.parse
  exact ⟨whole, e, more.map some, h, by simpa using notNil, by rw [tokens, terminals]; simp⟩

private theorem Incomplete.exists_isType (h : Incomplete source)
    (terminals : (tokenize source).map Lexeme.terminal? = ss.map some) :
    ∃ more, IsType (ss ++ more) := by
  obtain ⟨whole, e, more, h, -, tokens⟩ := h
  obtain ⟨d, derives, -⟩ := exists_derives h
  rw [derives, terminals] at tokens
  obtain ⟨first, more, split, same, -⟩ := List.map_eq_append_iff.1 tokens
  obtain rfl : first = ss := (List.map_inj_right fun _ _ => Option.some.inj).1 same
  exact ⟨more, d, split⟩

end Expr

namespace Cursor

variable {c : Cursor} {e : ParseError} {ss more : List Terminal}

theorem current_ne_none_of_fails (sane : c.Sane) (fails : Fails Reader.wholeType c e)
    (notEnd : e.isEnd = false) : c.current ≠ none := by
  have steady : Steady [] {} _ _ c := sane.steady (Nat.le_refl _)
  rcases Reader.fails_wholeType_iff.1 fails with fails | ⟨expr, c', t, read, here, -⟩
  · exact steady.current_ne_none sane fails notEnd
  · obtain ⟨used, leaves, -⟩ := steady.moves read
    exact leaves.current_ne_none sane (by simp [here])

/-- What is refused before the end, and does not hang on the last token, is refused in every
source that goes on. -/
theorem not_isType_of_fails (sane : c.Sane) (fails : Fails Reader.wholeType c e)
    (notEnd : e.isEnd = false) (firm : ¬e.HangsOn c.lexemes)
    (terminals : c.lexemes.map Lexeme.terminal? = ss.map some) : ¬IsType (ss ++ more) := by
  rintro ⟨d, same⟩
  have before := current_ne_none_of_fails sane fails notEnd
  let tokens : List Token := more.map fun s => ⟨s.kind, s.text, {}⟩
  let whole := c.extend tokens {}
  have lexemes : whole.lexemes.map Lexeme.terminal? = d.terminals.map some := by
    rw [lexemes_extend, List.map_append, terminals, same]
    simp [tokens, Lexeme.terminal?, Token.terminal]
  have settled : whole.Settled := fun atEnd => absurd atEnd before
  obtain ⟨c', passes, atEnd⟩ := (passes_to_end_iff settled).2 lexemes
  have enough : d.terminals.length ≤ whole.remaining := by
    have length : whole.lexemes.length = d.terminals.length := by
      simpa using congrArg List.length lexemes
    rw [← length]
    exact whole.length_lexemes_le
  obtain ⟨expr, read, -⟩ := (Reader.derived_reads whole.remaining).1 enough passes
    (by rw [Cursor.isAt, atEnd]; rfl)
  have steady : Steady tokens {} (Reader.type c.remaining) (Reader.type whole.remaining) c :=
    sane.steady (by simp [whole, remaining, extend])
  rcases Reader.fails_wholeType_iff.1 fails with fails | ⟨expr', c₁, t, read', here, -⟩
  · cases (steady.stuck fails notEnd firm).symm.trans read
  · have onward := steady.onward read' (by simp [here])
    cases onward.symm.trans read
    cases here.symm.trans atEnd

private theorem exists_isType_of_isEnd (sane : c.Sane) (fails : Fails Reader.wholeType c e)
    (isEnd : e.isEnd = true) (terminals : c.lexemes.map Lexeme.terminal? = ss.map some) :
    ∃ more, more ≠ [] ∧ (∀ s ∈ more, s.Spelled) ∧ IsType (ss ++ more) := by
  rcases Reader.fails_wholeType_iff.1 fails with fails | ⟨expr, c', t, -, -, rfl⟩
  · obtain ⟨ss', more, same, completion⟩ :=
      (EndsIn.types_and_fields _).1.starts sane.settled sane.spelled fails isEnd
    obtain rfl : ss' = ss :=
      (List.map_inj_right fun _ _ => Option.some.inj).1 (same.symm.trans terminals)
    exact ⟨more, completion⟩
  · cases isEnd

/-- What hangs on the last token can be completed behind `=`. -/
theorem exists_isType_of_hangsOn (sane : c.Sane) (fails : Fails Reader.wholeType c e)
    (hangs : e.HangsOn c.lexemes) (terminals : c.lexemes.map Lexeme.terminal? = ss.map some) :
    ∃ more, more ≠ [] ∧ (∀ s ∈ more, s.Spelled) ∧ IsType (ss ++ more) := by
  let equals : Token := ⟨.equals, "=", {}⟩
  let whole := c.extend [equals] {}
  have before := current_ne_none_of_fails sane fails hangs.isEnd_eq_false
  have lexemes : whole.lexemes = c.lexemes ++ [.token equals] := lexemes_extend ..
  have settled : whole.Settled := fun atEnd => absurd atEnd before
  have spelled : whole.Spelled := by
    refine spelled_iff.2 fun t ht => ?_
    rw [lexemes, List.mem_append, List.mem_singleton] at ht
    rcases ht with ht | ht
    · exact spelled_iff.1 sane.spelled t ht
    · obtain rfl := Lexeme.token.inj ht
      rfl
  have steady : Steady [equals] {} (Reader.type c.remaining) (Reader.type whole.remaining) c :=
    sane.steady (by simp [whole, remaining, extend])
  rcases Reader.fails_wholeType_iff.1 fails with fails | ⟨expr, c₁, t, -, -, rfl⟩
  · obtain ⟨e', isEnd, fails'⟩ := steady.hangs fails hangs ⟨equals, rfl, rfl⟩
    obtain ⟨ss', more, terminals', notNil, spelled', isType⟩ :=
      (EndsIn.types_and_fields _).1.starts settled spelled fails' isEnd
    obtain rfl : ss' = ss ++ [equals.terminal] := by
      refine (List.map_inj_right fun _ _ => Option.some.inj).1 (terminals'.symm.trans ?_)
      rw [lexemes, List.map_append, terminals, List.map_append]
      rfl
    refine ⟨equals.terminal :: more, by simp, List.forall_mem_cons.2 ⟨rfl, spelled'⟩, ?_⟩
    rwa [List.append_assoc] at isType
  · obtain ⟨brace, word, -, -, -, same⟩ := hangs
    obtain ⟨-, expected, -⟩ := ParseError.unexpectedToken.inj same
    exact absurd expected (by decide)

end Cursor

private theorem located_endSpan (source : String) :
    (endSpan source).start = source.utf8ByteSize ∧ (endSpan source).stop = source.utf8ByteSize ∧
      (endSpan source).Located source := by
  refine ⟨rfl, rfl, ?_⟩
  rw [endSpan, utf8ByteSize_eq]
  exact LineIndex.located_span (List.append_nil _).symm _

/-- A source that is not read is incomplete exactly if its end is reported or the failure hangs
on its last token.  The end is reported with the empty span there. -/
theorem Expr.incomplete_iff_reported {source : String} {e : ParseError}
    (clear : ∀ s, .stray s ∉ tokenize source) (h : Expr.parse source = .error e) :
    (Expr.Incomplete source ↔ e.isEnd = true ∨ e.HangsOn (tokenize source)) ∧
      (e.isEnd = true → e.span.start = source.utf8ByteSize ∧
        e.span.stop = source.utf8ByteSize ∧ e.span.Located source) := by
  constructor
  · obtain ⟨ss, terminals, spelled⟩ := exists_terminals clear
    rcases Expr.parse_eq_error_iff.1 h with stray | ⟨c, start, fails⟩
    · obtain ⟨s, stray, -⟩ := Cursor.start_eq_error stray
      exact absurd stray (clear s)
    · obtain ⟨lexemes, -, sane⟩ := Cursor.start_sane start
      have terminals' : c.lexemes.map Lexeme.terminal? = ss.map some := by rw [lexemes, terminals]
      rw [← lexemes]
      constructor
      · intro incomplete
        obtain ⟨more, isType⟩ := incomplete.exists_isType terminals
        cases isEnd : e.isEnd with
        | true => exact .inl rfl
        | false =>
            refine .inr (Classical.byContradiction fun firm => ?_)
            exact Cursor.not_isType_of_fails sane fails isEnd firm terminals' isType
      · intro reported
        obtain ⟨more, notNil, spelled', isType⟩ :
            ∃ more, more ≠ [] ∧ (∀ s ∈ more, s.Spelled) ∧ IsType (ss ++ more) := by
          rcases reported with isEnd | hangs
          · exact Cursor.exists_isType_of_isEnd sane fails isEnd terminals'
          · exact Cursor.exists_isType_of_hangsOn sane fails hangs terminals'
        exact incomplete_of_isType terminals spelled notNil spelled' isType
  · intro isEnd
    rcases Expr.points_of_parse_eq_error h with ⟨expected, rfl⟩ | ⟨notEnd, -⟩
    · exact located_endSpan source
    · exact absurd (isEnd.symm.trans notEnd) (by decide)

theorem Expr.incomplete_iff_reported_record :
    Expr.parse "\x7ba =" = .error (.unexpectedEnd "a type" ⟨4, 4, 1, 5⟩) ∧
      Expr.Incomplete "\x7ba =" := by
  have tokens : tokenize "\x7ba =" = [.token ⟨.leftBrace, "\x7b", ⟨0, 1, 1, 1⟩⟩,
      .token ⟨.identifier, "a", ⟨1, 2, 1, 2⟩⟩, .token ⟨.equals, "=", ⟨3, 4, 1, 4⟩⟩] := by
    decide +kernel
  have finish : endSpan "\x7ba =" = ⟨4, 4, 1, 5⟩ := by decide +kernel
  have fails : Expr.parse "\x7ba =" = .error (.unexpectedEnd "a type" ⟨4, 4, 1, 5⟩) := by
    rw [Expr.parse, Cursor.start, tokens, finish]
    rfl
  have clear : ∀ s, .stray s ∉ tokenize "\x7ba =" := by simp [tokens]
  exact ⟨fails, (Expr.incomplete_iff_reported clear fails).1.2 (.inl rfl)⟩

/-- Behind an opening brace `function` is refused as the last token, although a record can
start with it. -/
theorem Expr.function_refused_before_end :
    (∀ s, .stray s ∉ tokenize "\x7bfunction") ∧
      Expr.parse "\x7bfunction" = .error (.unexpectedToken "function" "a type" ⟨1, 9, 1, 2⟩) ∧
      Expr.Incomplete "\x7bfunction" := by
  have tokens : tokenize "\x7bfunction" = [.token ⟨.leftBrace, "\x7b", ⟨0, 1, 1, 1⟩⟩,
      .token ⟨.functionWord, "function", ⟨1, 9, 1, 2⟩⟩] := by
    decide +kernel
  have whole : (Derivation.record [.mk ⟨.functionWord, "function", rfl⟩ (.name "int")]).Derives
      "\x7bfunction = int\x7d" := by
    unfold Derivation.Derives
    decide +kernel
  obtain ⟨e, h, -⟩ := whole.parse
  refine ⟨by simp [tokens], ?_, _, e, [some (.fixed .equals), some (.name "int"),
    some (.fixed .rightBrace)], h, by simp, ?_⟩
  · rw [Expr.parse, Cursor.start, tokens]
    rfl
  · rw [whole, tokens]
    rfl

end DataflowTypes
