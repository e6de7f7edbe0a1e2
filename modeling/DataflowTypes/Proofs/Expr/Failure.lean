import DataflowTypes.Proofs.Expr.Parser
import DataflowTypes.Proofs.Token.Tiling

/-!
# Failures of the reader

`Fails m c e` says that the reader `m` fails at the cursor `c`.  A failure points at the end of
the source or at one of its lexemes, and its cause can depend on where the source ends: as the
last token behind an opening brace, `function` is refused, although it could become a label.
-/

namespace DataflowTypes

def ParseError.isEnd : ParseError → Bool
  | unexpectedEnd .. => true
  | unexpectedToken .. | invalidLength .. | strayCharacter .. => false

def ParseError.PointsInto (e : ParseError) (c : Cursor) : Prop :=
  (∃ expected, e = .unexpectedEnd expected c.finish) ∨
    e.isEnd = false ∧ ∃ x ∈ c.lexemes, e.span = x.span

/-- The word `function` is refused as the last token, behind an opening brace. -/
def ParseError.HangsOn (e : ParseError) (xs : List Lexeme) : Prop :=
  ∃ brace word : Token, [.token brace, .token word] <:+ xs ∧ brace.kind = .leftBrace ∧
    word.kind = .functionWord ∧ e = .unexpectedToken word.text "a type" word.span

theorem ParseError.HangsOn.isEnd_eq_false {e : ParseError} {xs : List Lexeme} (h : e.HangsOn xs) :
    e.isEnd = false := by
  obtain ⟨brace, word, -, -, -, rfl⟩ := h
  rfl

theorem ParseError.not_hangsOn_stray {s : Span} {xs : List Lexeme} :
    ¬(ParseError.strayCharacter s).HangsOn xs := by
  rintro ⟨brace, word, -, -, -, same⟩
  cases same

theorem Derivation.getLast?_terminals (d : Derivation) :
    ∀ s ∈ d.terminals.getLast?, s.kind ≠ .leftBrace := by
  cases d <;> simp [terminals, List.getLast?_cons, List.getLast?_append]

namespace Cursor

variable {c c' m : Cursor} {t : Token} {used used' : List Token} {more : List Token}
  {finish : Span} {e : ParseError}

def extend (c : Cursor) (more : List Token) (finish : Span) : Cursor :=
  { c with rest := c.rest ++ more.map .token, finish }

/-- What holds of the cursors of a source: there is nothing after the end, spans tell lexemes
apart, and tokens are spelled as their kinds ask. -/
structure Sane (c : Cursor) : Prop where
  settled : c.Settled
  distinct : (c.lexemes.map Lexeme.span).Nodup
  spelled : c.Spelled

structure Leaves (c : Cursor) (used : List Token) (c' : Cursor) : Prop where
  lexemes : c.lexemes = used.map .token ++ c'.lexemes
  finish : c'.finish = c.finish
  settled : c.Settled → c'.Settled

def Closed (used : List Token) : Prop := ∀ t ∈ used.getLast?, t.kind ≠ .leftBrace

theorem Settled.lexemes_eq_nil_iff (h : c.Settled) : c.lexemes = [] ↔ c.current = none := by
  constructor
  · intro empty
    cases here : c.current with
    | none => rfl
    | some t => simp [lexemes, here] at empty
  · intro atEnd
    simp [lexemes, atEnd, h atEnd]

theorem spelled_iff : c.Spelled ↔ ∀ t, .token t ∈ c.lexemes → t.terminal.Spelled := by
  have present (t : Token) : .token t ∈ c.lexemes ↔ c.current = some t ∨ .token t ∈ c.rest := by
    simp [lexemes]
  simp only [Spelled, present]

theorem closed_append (h : Closed used) (h' : Closed used') : Closed (used ++ used') := by
  intro t last
  rw [List.getLast?_append] at last
  cases later : used'.getLast? with
  | none => exact h t (by simpa [later] using last)
  | some t' => exact h' t (by simpa [later] using last)

namespace Leaves

theorem refl (c : Cursor) : c.Leaves [] c := ⟨rfl, rfl, id⟩

theorem trans (h : c.Leaves used m) (h' : m.Leaves used' c') : c.Leaves (used ++ used') c' where
  lexemes := by rw [h.lexemes, h'.lexemes, List.map_append, List.append_assoc]
  finish := h'.finish.trans h.finish
  settled := h'.settled ∘ h.settled

theorem sane (h : c.Leaves used c') (sane : c.Sane) : c'.Sane := by
  refine ⟨h.settled sane.settled, ?_, ?_⟩
  · have distinct := sane.distinct
    rw [h.lexemes, List.map_append] at distinct
    exact (List.pairwise_append.1 distinct).2.1
  · refine spelled_iff.2 fun t ht => spelled_iff.1 sane.spelled t ?_
    rw [h.lexemes]
    exact List.mem_append_right _ ht

theorem length_le (h : c.Leaves used c') : c'.lexemes.length ≤ c.lexemes.length := by
  rw [h.lexemes, List.length_append]
  exact Nat.le_add_left _ _

theorem current_ne_none (h : c.Leaves used c') (sane : c.Sane) (before : c'.current ≠ none) :
    c.current ≠ none := by
  rw [ne_eq, ← (h.settled sane.settled).lexemes_eq_nil_iff] at before
  rw [ne_eq, ← sane.settled.lexemes_eq_nil_iff, h.lexemes]
  simp [before]

theorem pointsInto (h : c.Leaves used c') (points : e.PointsInto c') : e.PointsInto c := by
  rcases points with ⟨expected, rfl⟩ | ⟨notEnd, x, hx, span⟩
  · exact .inl ⟨expected, by rw [h.finish]⟩
  · refine .inr ⟨notEnd, x, ?_, span⟩
    rw [h.lexemes]
    exact List.mem_append_right _ hx

theorem hangsOn_iff (h : c.Leaves used c') (closed : Closed used) (before : c'.lexemes ≠ []) :
    e.HangsOn c.lexemes ↔ e.HangsOn c'.lexemes := by
  have rest : c'.lexemes <:+ c.lexemes := h.lexemes ▸ List.suffix_append _ _
  constructor
  · rintro ⟨brace, word, suffix, isBrace, isWord, rfl⟩
    refine ⟨brace, word, ?_, isBrace, isWord, rfl⟩
    by_cases enough : 2 ≤ c'.lexemes.length
    · exact List.suffix_of_suffix_length_le suffix rest enough
    · -- Otherwise the brace is the last of the tokens that were used.
      obtain ⟨x, single⟩ : ∃ x, c'.lexemes = [x] :=
        List.length_eq_one_iff.1 (by have := List.length_pos_iff.2 before; omega)
      obtain ⟨front, split⟩ := suffix
      rw [h.lexemes, single, List.append_cons] at split
      obtain ⟨front', -⟩ := List.append_inj' split rfl
      have last : used.getLast? = some brace := by
        have found := congrArg List.getLast? front'
        simpa [List.getLast?_map, eq_comm] using found
      exact absurd isBrace (closed brace last)
  · rintro ⟨brace, word, suffix, kinds⟩
    exact ⟨brace, word, suffix.trans rest, kinds⟩

end Leaves

theorem finish_advance (h : c.advance = .ok c') : c'.finish = c.finish := by
  unfold advance at h
  split at h
  case h_1 | h_2 =>
    obtain rfl := Except.ok.inj h
    rfl
  case h_3 => cases h

theorem Takes.leaves (h : c.Takes t c') : c.Leaves [t] c' := by
  obtain ⟨lexemes, settled⟩ := lexemes_advance h.2
  exact ⟨by rw [lexemes, Cursor.lexemes, h.1]; rfl, finish_advance h.2, fun _ => settled⟩

theorem Passes.leaves {ss : List Terminal} (h : c.Passes ss c') :
    ∃ used, c.Leaves used c' ∧ used.map Token.terminal = ss := by
  induction ss generalizing c with
  | nil =>
      obtain rfl := h
      exact ⟨[], .refl _, rfl⟩
  | cons s ss ih =>
      obtain ⟨t, next, take, rfl, h⟩ := h
      obtain ⟨used, leaves, rfl⟩ := ih h
      exact ⟨t :: used, take.leaves.trans leaves, rfl⟩

theorem Takes.length_le {n : Nat} (h : c.Takes t c') (size : c.lexemes.length ≤ n + 1) :
    c'.lexemes.length ≤ n := by
  rw [h.leaves.lexemes] at size
  simpa using size

theorem lexemes_extend (c : Cursor) (more : List Token) (finish : Span) :
    (c.extend more finish).lexemes = c.lexemes ++ more.map .token := by
  simp [lexemes, extend]

theorem advance_extend (more : List Token) (finish : Span) (h : c.advance = .ok c') :
    ∃ next, (c.extend more finish).advance = .ok next ∧
      (c'.current ≠ none → next = c'.extend more finish) := by
  unfold advance at h
  split at h
  case h_1 rest =>
    obtain rfl := Except.ok.inj h
    cases more with
    | nil | cons =>
        exact ⟨_, by simp [advance, extend, rest]; rfl, fun notEnd => absurd rfl notEnd⟩
  case h_2 t' rest here =>
    obtain rfl := Except.ok.inj h
    exact ⟨_, by simp [advance, extend, here], fun _ => rfl⟩
  case h_3 => cases h

theorem advance_eq_error (more : List Token) (finish : Span) (h : c.advance = .error e) :
    ∃ s, .stray s ∈ c.rest ∧ e = .strayCharacter s ∧
      (c.extend more finish).advance = .error e := by
  unfold advance at h
  split at h
  case h_1 | h_2 => cases h
  case h_3 s rest here =>
    obtain rfl := Except.error.inj h
    exact ⟨s, by simp [here], rfl, by simp [advance, extend, here]⟩

theorem startsField_extend (notLast : c.isAtLabel = true → c.rest ≠ []) :
    (c.extend more finish).startsField = c.startsField := by
  have isAtLabel : (c.extend more finish).isAtLabel = c.isAtLabel := rfl
  rw [startsField, startsField, isAtLabel]
  split
  case isTrue label =>
    obtain ⟨x, rest, here⟩ := List.exists_cons_of_ne_nil (notLast label)
    cases x <;> simp [nextIs, extend, here]
  case isFalse => rfl

theorem exists_of_isAtLabel (h : c.isAtLabel = true) :
    ∃ w, c.current = some w ∧ w.kind.isLabel = true ∧ c.isAt .rightBrace = false := by
  cases here : c.current with
  | none => simp [isAtLabel, here] at h
  | some w =>
      have isLabel : w.kind.isLabel = true := by simpa [isAtLabel, here] using h
      refine ⟨w, rfl, isLabel, ?_⟩
      rw [isAt, here, Option.any_some, beq_eq_false_iff_ne]
      intro kind
      rw [kind] at isLabel
      cases isLabel

theorem startsField_last (h : c.isAtLabel = true) (last : c.rest = []) :
    c.startsField = .ok false := by
  rw [startsField, if_pos h, nextIs, last]

theorem startsField_equals (h : c.isAtLabel = true) (last : c.rest = [.token t])
    (kind : t.kind = .equals) : c.startsField = .ok true := by
  rw [startsField, if_pos h, nextIs, last]
  exact congrArg _ (beq_iff_eq.2 kind)

theorem startsField_eq_error (h : c.startsField = .error e) :
    ∃ s, .stray s ∈ c.rest ∧ e = .strayCharacter s := by
  unfold startsField nextIs at h
  split at h
  case isTrue =>
    split at h
    case h_1 | h_2 => cases h
    case h_3 s rest here =>
      obtain rfl := Except.error.inj h
      exact ⟨s, by simp [here], rfl⟩
  case isFalse => cases h

theorem unexpected_extend (h : c.current ≠ none) (expected : String) :
    (c.extend more finish).unexpected expected = c.unexpected expected := by
  cases here : c.current with
  | none => exact absurd here h
  | some t => simp [unexpected, extend, here]

theorem pointsInto_unexpected (c : Cursor) (expected : String) :
    (c.unexpected expected).PointsInto c := by
  cases here : c.current with
  | none => exact .inl ⟨expected, by simp [unexpected, here]⟩
  | some t => exact .inr (by simp [unexpected, lexemes, here, ParseError.isEnd, ParseError.span,
      Lexeme.span])

theorem pointsInto_stray {s : Span} (ahead : .stray s ∈ c.rest) :
    (ParseError.strayCharacter s).PointsInto c :=
  .inr ⟨rfl, .stray s, by simp [lexemes, ahead], rfl⟩

end Cursor

def Fails {α : Type} (m : Reader α) (c : Cursor) (e : ParseError) : Prop := m.run c = .error e

namespace Reader

variable {α β : Type} {c c' : Cursor} {e : ParseError}

theorem fails_bind_iff {m : Reader α} {f : α → Reader β} :
    Fails (m >>= f) c e ↔ Fails m c e ∨ ∃ a next, Reads m c a next ∧ Fails (f a) next e := by
  change (m.run c >>= fun p => (f p.1).run p.2) = .error e ↔ _
  unfold Fails Reads
  cases m.run c with
  | error e => simp [bind, Except.bind]
  | ok p =>
      obtain ⟨a, next⟩ := p
      constructor
      · exact fun h => .inr ⟨a, next, rfl, h⟩
      · rintro (h | ⟨_, _, same, h⟩)
        · cases h
        · cases same
          exact h

theorem not_fails_pure {a : α} : ¬Fails (pure a) c e := fun h => by cases h

theorem fails_throw_iff {e' : ParseError} : Fails (throw e' : Reader α) c e ↔ e = e' := by
  change Except.error e' = .error e ↔ _
  simp [eq_comm]

theorem fails_get_bind_iff {f : Cursor → Reader β} :
    Fails (get >>= f) c e ↔ Fails (f c) c e := Iff.rfl

theorem fails_lift_bind_iff {x : Except ParseError α} {f : α → Reader β} :
    Fails ((liftM x : Reader α) >>= f) c e ↔ x = .error e ∨ ∃ a, x = .ok a ∧ Fails (f a) c e := by
  cases x with
  | error e' =>
      change Except.error e' = .error e ↔ _
      simp
  | ok a => exact ⟨fun h => .inr ⟨a, rfl, h⟩, fun h => by
      rcases h with h | ⟨_, same, h⟩
      · cases h
      · cases same
        exact h⟩

theorem fails_skip_iff : Fails skip c e ↔ c.advance = .error e := by
  unfold skip
  rw [fails_get_bind_iff, fails_lift_bind_iff]
  refine or_iff_left ?_
  rintro ⟨next, -, h⟩
  cases h

theorem fails_skip_bind_iff {m : Reader α} :
    Fails (do skip; m) c e ↔
      c.advance = .error e ∨ ∃ next, c.advance = .ok next ∧ Fails m next e := by
  simp only [fails_bind_iff, fails_skip_iff, reads_skip_iff]
  exact or_congr_right ⟨fun ⟨_, h⟩ => h, fun h => ⟨(), h⟩⟩

theorem reads_taken {kind : TokenKind} {b : Bool} (h : Reads (taken kind) c b c') :
    (b = true ∧ ∃ t, c.Takes t c' ∧ t.kind = kind) ∨
      (b = false ∧ c.isAt kind = false ∧ c' = c) := by
  have choice : Reads (do if ← taken kind then return true else return false) c b c' := by
    refine reads_bind_iff.2 ⟨b, c', h, ?_⟩
    cases b <;> exact reads_pure_iff.2 ⟨rfl, rfl⟩
  rcases reads_taken_iff.1 choice with ⟨t, next, take, same, h⟩ | ⟨isAt, h⟩
  · obtain ⟨rfl, rfl⟩ := reads_pure_iff.1 h
    exact .inl ⟨rfl, t, take, same⟩
  · obtain ⟨rfl, rfl⟩ := reads_pure_iff.1 h
    exact .inr ⟨rfl, isAt, rfl⟩

theorem fails_taken_iff {kind : TokenKind} {yes no : Reader α} (isAt : c.isAt kind = false) :
    Fails (do if ← taken kind then yes else no) c e ↔ Fails no c e := by
  unfold taken
  rw [bind_assoc, fails_get_bind_iff]
  simp [isAt]

theorem fails_startsField_iff {f : Bool → Reader α} :
    Fails (do f (← (← get).startsField)) c e ↔
      c.startsField = .error e ∨ ∃ b, c.startsField = .ok b ∧ Fails (f b) c e := by
  rw [fails_get_bind_iff]
  exact fails_lift_bind_iff

theorem fails_takeIf_iff {accepts : TokenKind → Bool} {expected : String} :
    Fails (takeIf accepts expected) c e ↔
      if c.current.any (accepts ·.kind) then c.advance = .error e
      else e = c.unexpected expected := by
  rw [takeIf, fails_get_bind_iff]
  cases here : c.current with
  | none => exact fails_throw_iff
  | some t =>
      cases accepted : accepts t.kind with
      | false => simp [accepted, fails_throw_iff]
      | true =>
          simp only [accepted, Option.any_some, if_true, fails_skip_bind_iff]
          exact or_iff_left fun ⟨_, _, fails⟩ => not_fails_pure fails

theorem fails_numeral_iff :
    Fails numeral c e ↔ Fails (expect .integer) c e ∨
      ∃ t c', (c.Takes t c' ∧ t.kind = .integer) ∧ maxLength < decimalValue t.text.toList ∧
        e = .invalidLength t.text t.span := by
  rw [numeral, fails_bind_iff]
  refine or_congr_right (exists₂_congr fun t c' => ?_)
  rw [reads_expect_iff]
  refine and_congr_right fun _ => ?_
  dsimp only
  split
  case isTrue fits => exact ⟨fun h => absurd h not_fails_pure, fun h => by omega⟩
  case isFalse large => simp [fails_throw_iff, Nat.lt_of_not_le large]

theorem fails_wholeType_iff :
    Fails wholeType c e ↔ Fails (type c.remaining) c e ∨
      ∃ expr c' t, Reads (type c.remaining) c expr c' ∧ c'.current = some t ∧
        e = .unexpectedToken t.text "end of input" t.span := by
  unfold wholeType
  rw [fails_get_bind_iff, fails_bind_iff]
  refine or_congr_right ⟨?_, ?_⟩
  · rintro ⟨expr, c', read, h⟩
    rw [fails_get_bind_iff] at h
    split at h
    case h_1 => exact absurd h not_fails_pure
    case h_2 t here => exact ⟨expr, c', t, read, here, fails_throw_iff.1 h⟩
  · rintro ⟨expr, c', t, read, here, rfl⟩
    refine ⟨expr, c', read, ?_⟩
    rw [fails_get_bind_iff, here]
    exact fails_throw_iff.2 rfl

end Reader

/-! ## Whole sources -/

private theorem Scan.nodup_spans (source : String) : ((tokenize source).map Lexeme.span).Nodup := by
  rw [List.Nodup, List.pairwise_map]
  refine (List.pairwise_iff_forall_sublist.2 fun {x y} both same => ?_)
  have later : x.span.stop ≤ y.span.start :=
    List.pairwise_iff_forall_sublist.1 (pairwise_scan source.toList) both
  have size := (start_le_of_mem_scan (both.subset (by simp) : x ∈ tokenize source)).2
  rw [same] at later size
  omega

theorem Cursor.start_sane {source : String} {c : Cursor} (h : Cursor.start source = .ok c) :
    c.lexemes = tokenize source ∧ c.finish = endSpan source ∧ c.Sane := by
  obtain ⟨lexemes, settled, spelled⟩ := start_eq_ok h
  exact ⟨lexemes, finish_advance h, settled, lexemes ▸ Scan.nodup_spans source, spelled⟩

theorem Expr.parse_eq_error_iff {source : String} {e : ParseError} :
    Expr.parse source = .error e ↔
      Cursor.start source = .error e ∨
        ∃ c, Cursor.start source = .ok c ∧ Fails Reader.wholeType c e := by
  unfold Expr.parse
  cases Cursor.start source with
  | error e' => simp [bind, Except.bind]
  | ok c =>
      change Prod.fst <$> Reader.wholeType.run c = .error e ↔ _
      simp only [reduceCtorEq, false_or, Except.ok.injEq, exists_eq_left']
      unfold Fails
      cases Reader.wholeType.run c <;> simp [Functor.map, Except.map]

theorem Cursor.start_eq_error {source : String} {e : ParseError}
    (h : Cursor.start source = .error e) :
    ∃ s, .stray s ∈ tokenize source ∧ e = .strayCharacter s := by
  obtain ⟨s, stray, same, -⟩ := advance_eq_error [] {} h
  exact ⟨s, stray, same⟩

end DataflowTypes
