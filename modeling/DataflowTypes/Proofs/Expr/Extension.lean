import DataflowTypes.Proofs.Expr.Failure

/-!
# Sources that go on

Main statement: what a reader does before the end of a source, it does in the same way in a
source that goes on.  The one exception is a failure that hangs on the last token.
-/

namespace DataflowTypes

/-- What the reader `m` does at a cursor: it goes on over tokens or fails at what is to come.
Before the end it does the same in a source that goes on with `more`, where `m'` is the reader;
but what hangs on the last token can then be read further if `=` follows. -/
structure Steady {α : Type} (more : List Token) (finish : Span) (m m' : Reader α) (c : Cursor) :
    Prop where
  moves : ∀ {a c'}, Reads m c a c' → ∃ used, c.Leaves used c' ∧ Cursor.Closed used
  points : ∀ {e}, Fails m c e → e.PointsInto c
  onward : ∀ {a c'}, Reads m c a c' → c'.current ≠ none →
    Reads m' (c.extend more finish) a (c'.extend more finish)
  stuck : ∀ {e}, Fails m c e → e.isEnd = false → ¬e.HangsOn c.lexemes →
    Fails m' (c.extend more finish) e
  hangs : ∀ {e}, Fails m c e → e.HangsOn c.lexemes →
    (∃ t, more = [t] ∧ t.kind = .equals) →
      ∃ e', e'.isEnd = true ∧ Fails m' (c.extend more finish) e'

namespace Steady

open Reader

variable {α β : Type} {more : List Token} {finish : Span} {c c' : Cursor} {e : ParseError}

theorem pure (a : α) : Steady more finish (pure a) (pure a) c where
  moves h := by
    obtain ⟨-, rfl⟩ := reads_pure_iff.1 h
    exact ⟨[], .refl _, by simp [Cursor.Closed]⟩
  points h := absurd h not_fails_pure
  onward h _ := by
    obtain ⟨rfl, rfl⟩ := reads_pure_iff.1 h
    exact reads_pure_iff.2 ⟨rfl, rfl⟩
  stuck h := absurd h not_fails_pure
  hangs h := absurd h not_fails_pure

theorem current_ne_none {m m' : Reader α} (h : Steady more finish m m' c) (sane : c.Sane)
    (fails : Fails m c e) (notEnd : e.isEnd = false) : c.current ≠ none := by
  intro atEnd
  rcases h.points fails with ⟨expected, rfl⟩ | ⟨-, x, hx, -⟩
  · cases notEnd
  · rw [sane.settled.lexemes_eq_nil_iff.2 atEnd] at hx
    cases hx

theorem bind {m m' : Reader α} {f f' : α → Reader β} (sane : c.Sane)
    (h : Steady more finish m m' c)
    (next : ∀ a c' used, Reads m c a c' → c.Leaves used c' →
      Steady more finish (f a) (f' a) c') : Steady more finish (m >>= f) (m' >>= f') c where
  moves reads := by
    obtain ⟨a, c₁, first, second⟩ := reads_bind_iff.1 reads
    obtain ⟨used, leaves, closed⟩ := h.moves first
    obtain ⟨used', leaves', closed'⟩ := (next a c₁ used first leaves).moves second
    exact ⟨used ++ used', leaves.trans leaves', Cursor.closed_append closed closed'⟩
  points fails := by
    rcases fails_bind_iff.1 fails with fails | ⟨a, c₁, first, fails⟩
    · exact h.points fails
    · obtain ⟨used, leaves, -⟩ := h.moves first
      exact leaves.pointsInto ((next a c₁ used first leaves).points fails)
  onward reads before := by
    obtain ⟨a, c₁, first, second⟩ := reads_bind_iff.1 reads
    obtain ⟨used, leaves, -⟩ := h.moves first
    have steady := next a c₁ used first leaves
    obtain ⟨used', leaves', -⟩ := steady.moves second
    have before₁ := leaves'.current_ne_none (leaves.sane sane) before
    exact reads_bind_iff.2 ⟨a, _, h.onward first before₁, steady.onward second before⟩
  stuck {e} fails notEnd free := by
    rcases fails_bind_iff.1 fails with fails | ⟨a, c₁, first, fails⟩
    · exact fails_bind_iff.2 (.inl (h.stuck fails notEnd free))
    · obtain ⟨used, leaves, closed⟩ := h.moves first
      have steady := next a c₁ used first leaves
      have before₁ := steady.current_ne_none (leaves.sane sane) fails notEnd
      have some₁ := mt (leaves.settled sane.settled).lexemes_eq_nil_iff.1 before₁
      rw [leaves.hangsOn_iff closed some₁] at free
      exact fails_bind_iff.2 (.inr ⟨a, _, h.onward first before₁, steady.stuck fails notEnd free⟩)
  hangs {e} fails hangs equals := by
    rcases fails_bind_iff.1 fails with fails | ⟨a, c₁, first, fails⟩
    · obtain ⟨e', isEnd, fails'⟩ := h.hangs fails hangs equals
      exact ⟨e', isEnd, fails_bind_iff.2 (.inl fails')⟩
    · obtain ⟨used, leaves, closed⟩ := h.moves first
      have steady := next a c₁ used first leaves
      have before₁ := steady.current_ne_none (leaves.sane sane) fails hangs.isEnd_eq_false
      have some₁ := mt (leaves.settled sane.settled).lexemes_eq_nil_iff.1 before₁
      rw [leaves.hangsOn_iff closed some₁] at hangs
      obtain ⟨e', isEnd, fails'⟩ := steady.hangs fails hangs equals
      exact ⟨e', isEnd, fails_bind_iff.2 (.inr ⟨a, _, h.onward first before₁, fails'⟩)⟩

theorem get {f f' : Cursor → Reader α} (sane : c.Sane) (h : Steady more finish (f c) (f' c) c)
    (same : c.current ≠ none → f' (c.extend more finish) = f' c) :
    Steady more finish (get >>= f) (get >>= f') c where
  moves := h.moves
  points := h.points
  onward reads before := by
    obtain ⟨used, leaves, -⟩ := h.moves reads
    rw [reads_get_bind_iff, same (leaves.current_ne_none sane before)]
    exact h.onward reads before
  stuck fails notEnd free := by
    rw [fails_get_bind_iff, same (h.current_ne_none sane fails notEnd)]
    exact h.stuck fails notEnd free
  hangs {e} fails hangs equals := by
    obtain ⟨e', isEnd, fails'⟩ := h.hangs fails hangs equals
    refine ⟨e', isEnd, ?_⟩
    rwa [fails_get_bind_iff, same (h.current_ne_none sane fails hangs.isEnd_eq_false)]

private theorem not_hangsOn_unexpected (sane : c.Sane) (expected : String) :
    ¬(c.unexpected expected).HangsOn c.lexemes := by
  rintro ⟨brace, word, suffix, -, -, same⟩
  unfold Cursor.unexpected at same
  split at same
  case h_1 t here =>
    have distinct := sane.distinct
    obtain ⟨-, -, span⟩ := ParseError.unexpectedToken.inj same
    rw [Cursor.lexemes, here] at suffix distinct
    have later : .token word ∈ c.rest := by
      rcases List.suffix_cons_iff.1 suffix with whole | inside
      · obtain ⟨-, rest⟩ := List.cons.inj whole
        exact (show [.token word] = c.rest from rest) ▸ List.mem_singleton_self _
      · exact inside.subset (by simp)
    refine (List.nodup_cons.1 distinct).1 ?_
    exact List.mem_map.2 ⟨_, later, span.symm⟩
  case h_2 => cases same

theorem unexpected (sane : c.Sane) (expected : String) :
    Steady more finish (throw (c.unexpected expected) : Reader α) (throw (c.unexpected expected))
      c where
  moves h := absurd h not_reads_throw
  points h := by
    obtain rfl := fails_throw_iff.1 h
    exact c.pointsInto_unexpected expected
  onward h := absurd h not_reads_throw
  stuck h _ _ := by
    obtain rfl := fails_throw_iff.1 h
    exact fails_throw_iff.2 rfl
  hangs h hangs := by
    obtain rfl := fails_throw_iff.1 h
    exact absurd hangs (not_hangsOn_unexpected sane expected)

theorem skip {t : Token} (here : c.current = some t) (notBrace : t.kind ≠ .leftBrace) :
    Steady more finish skip skip c where
  moves h := ⟨[t], Cursor.Takes.leaves ⟨here, reads_skip_iff.1 h⟩, by simpa [Cursor.Closed]⟩
  points h := by
    obtain ⟨s, ahead, rfl, -⟩ := Cursor.advance_eq_error more finish (fails_skip_iff.1 h)
    exact Cursor.pointsInto_stray ahead
  onward h before := by
    obtain ⟨next, moved, same⟩ := Cursor.advance_extend more finish (reads_skip_iff.1 h)
    exact reads_skip_iff.2 (same before ▸ moved)
  stuck h _ _ := by
    obtain ⟨-, -, -, stays⟩ := Cursor.advance_eq_error more finish (fails_skip_iff.1 h)
    exact fails_skip_iff.2 stays
  hangs h hangs := by
    obtain ⟨s, -, rfl, -⟩ := Cursor.advance_eq_error more finish (fails_skip_iff.1 h)
    exact absurd hangs ParseError.not_hangsOn_stray

theorem takeIf {accepts : TokenKind → Bool} {expected : String} (sane : c.Sane)
    (notBrace : accepts .leftBrace = false) :
    Steady more finish (takeIf accepts expected) (takeIf accepts expected) c := by
  refine get sane ?_ ?_
  · split
    case h_1 t here =>
      split
      case isTrue accepted =>
        have other : t.kind ≠ .leftBrace := fun same => by simp [same, notBrace] at accepted
        exact (skip here other).bind sane fun _ _ _ _ _ => .pure t
      case isFalse => exact unexpected sane expected
    case h_2 => exact unexpected sane expected
  · intro before
    rw [Cursor.unexpected_extend before]
    rfl

theorem expect {kind : TokenKind} (sane : c.Sane) (notBrace : kind ≠ .leftBrace) :
    Steady more finish (expect kind) (expect kind) c :=
  takeIf sane (by simpa using notBrace.symm)

theorem label (sane : c.Sane) : Steady more finish label label c := takeIf sane rfl

theorem taken {kind : TokenKind} (sane : c.Sane) (notBrace : kind ≠ .leftBrace) :
    Steady more finish (taken kind) (taken kind) c := by
  refine get sane ?_ fun _ => rfl
  split
  case isTrue isAt =>
    obtain ⟨t, here, same⟩ := Cursor.isAt_eq_true_iff.1 isAt
    exact (skip here (same ▸ notBrace)).bind sane fun _ _ _ _ _ => .pure true
  case isFalse => exact .pure false

theorem spanFrom (sane : c.Sane) (first : Span) :
    Steady more finish (spanFrom first) (spanFrom first) c :=
  get sane (.pure _) fun _ => rfl

theorem startsField {f f' : Bool → Reader α} (notLast : c.isAtLabel = true → c.rest ≠ [])
    (next : ∀ b, c.startsField = .ok b → Steady more finish (f b) (f' b) c) :
    Steady more finish (do f (← (← MonadState.get).startsField))
      (do f' (← (← MonadState.get).startsField)) c where
  moves reads := by
    obtain ⟨b, starts, reads⟩ := reads_lift_bind_iff.1 reads
    exact (next b starts).moves reads
  points fails := by
    rcases fails_startsField_iff.1 fails with fails | ⟨b, starts, fails⟩
    · obtain ⟨s, ahead, rfl⟩ := Cursor.startsField_eq_error fails
      exact Cursor.pointsInto_stray ahead
    · exact (next b starts).points fails
  onward reads before := by
    obtain ⟨b, starts, reads⟩ := reads_lift_bind_iff.1 reads
    exact reads_lift_bind_iff.2 ⟨b, (Cursor.startsField_extend notLast).trans starts,
      (next b starts).onward reads before⟩
  stuck fails notEnd free := by
    refine fails_startsField_iff.2 ?_
    rw [Cursor.startsField_extend notLast]
    rcases fails_startsField_iff.1 fails with fails | ⟨b, starts, fails⟩
    · exact .inl fails
    · exact .inr ⟨b, starts, (next b starts).stuck fails notEnd free⟩
  hangs fails hangs equals := by
    rcases fails_startsField_iff.1 fails with fails | ⟨b, starts, fails⟩
    · obtain ⟨s, -, rfl⟩ := Cursor.startsField_eq_error fails
      exact absurd hangs ParseError.not_hangsOn_stray
    · obtain ⟨e', isEnd, fails'⟩ := (next b starts).hangs fails hangs equals
      exact ⟨e', isEnd, fails_startsField_iff.2
        (.inr ⟨b, (Cursor.startsField_extend notLast).trans starts, fails'⟩)⟩

theorem hangsOn_behind {t : Token} (take : c.Takes t c') (before : c'.current ≠ none)
    (notLast : c'.isAtLabel = true → c'.rest ≠ []) :
    e.HangsOn c.lexemes ↔ e.HangsOn c'.lexemes := by
  have rest : c.lexemes = .token t :: c'.lexemes := take.leaves.lexemes
  rw [rest]
  constructor
  · rintro ⟨brace, word, suffix, isBrace, isWord, rfl⟩
    refine ⟨brace, word, ?_, isBrace, isWord, rfl⟩
    rcases List.suffix_cons_iff.1 suffix with whole | inside
    · obtain ⟨-, single⟩ := List.cons.inj whole
      obtain ⟨w, here⟩ := Option.ne_none_iff_exists'.1 before
      simp only [Cursor.lexemes, here, Option.toList_some, List.map_cons, List.map_nil,
        List.cons_append, List.nil_append, List.cons.injEq, Lexeme.token.injEq] at single
      obtain ⟨rfl, empty⟩ := single
      refine absurd empty.symm (notLast ?_)
      simp [Cursor.isAtLabel, here, isWord, TokenKind.isLabel, TokenKind.isKeyword]
    · exact inside
  · rintro ⟨brace, word, suffix, kinds⟩
    exact ⟨brace, word, suffix.trans (List.suffix_cons _ _), kinds⟩

theorem brace {t : Token} {m m' : Reader α} (sane : c.Sane) (here : c.current = some t)
    (moves : ∀ {a c'}, Reads (do Reader.skip; m) c a c' →
      ∃ used, c.Leaves used c' ∧ Cursor.Closed used ∧ 2 ≤ used.length)
    (inner : ∀ {c₁}, c.Takes t c₁ → (c₁.isAtLabel = true → c₁.rest ≠ []) →
      Steady more finish m m' c₁)
    (last : ∀ {c₁ e}, c.Takes t c₁ → c₁.isAtLabel = true → c₁.rest = [] → Fails m c₁ e →
      e.PointsInto c₁ ∧ (e.isEnd = false → e.HangsOn c.lexemes ∧
        ((∃ t, more = [t] ∧ t.kind = .equals) →
          ∃ e', e'.isEnd = true ∧ Fails m' (c₁.extend more finish) e'))) :
    Steady more finish (do Reader.skip; m) (do Reader.skip; m') c where
  moves reads := by
    obtain ⟨used, leaves, closed, -⟩ := moves reads
    exact ⟨used, leaves, closed⟩
  points {e} fails := by
    rcases fails_skip_bind_iff.1 fails with stray | ⟨c₁, moved, fails⟩
    · obtain ⟨s, ahead, rfl, -⟩ := Cursor.advance_eq_error more finish stray
      exact Cursor.pointsInto_stray ahead
    · have take : c.Takes t c₁ := ⟨here, moved⟩
      refine take.leaves.pointsInto ?_
      by_cases isLast : c₁.isAtLabel = true ∧ c₁.rest = []
      · exact (last take isLast.1 isLast.2 fails).1
      · exact (inner take fun label empty => isLast ⟨label, empty⟩).points fails
  onward {a c'} reads before := by
    obtain ⟨used, leaves, -, enough⟩ := moves reads
    obtain ⟨c₁, moved, reads⟩ := (reads_skip_bind_iff fun _ => Iff.rfl).1 reads
    have take : c.Takes t c₁ := ⟨here, moved⟩
    -- The tokens used are two at least, and there is one more behind them.
    have notLast : c₁.isAtLabel = true → c₁.rest ≠ [] := by
      intro _ empty
      have some' := List.length_pos_iff.2
        (mt (leaves.settled sane.settled).lexemes_eq_nil_iff.1 before)
      have lengths := congrArg List.length (leaves.lexemes.symm.trans take.leaves.lexemes)
      have single : c₁.lexemes.length ≤ 1 := by simpa [Cursor.remaining, empty] using
        c₁.length_lexemes_le
      simp only [List.length_append, List.length_map, List.length_cons, List.length_nil] at lengths
      omega
    have steady := inner take notLast
    obtain ⟨used', leaves', -⟩ := steady.moves reads
    have before₁ := leaves'.current_ne_none (take.leaves.sane sane) before
    obtain ⟨next, moved, same⟩ := Cursor.advance_extend more finish moved
    exact (reads_skip_bind_iff fun _ => Iff.rfl).2
      ⟨next, moved, same before₁ ▸ steady.onward reads before⟩
  stuck {e} fails notEnd free := by
    rcases fails_skip_bind_iff.1 fails with stray | ⟨c₁, moved, fails⟩
    · obtain ⟨-, -, -, stays⟩ := Cursor.advance_eq_error more finish stray
      exact fails_skip_bind_iff.2 (.inl stays)
    · have take : c.Takes t c₁ := ⟨here, moved⟩
      have notLast : c₁.isAtLabel = true → c₁.rest ≠ [] := fun label empty =>
        free ((last take label empty fails).2 notEnd).1
      have steady := inner take notLast
      have before₁ := steady.current_ne_none (take.leaves.sane sane) fails notEnd
      rw [hangsOn_behind take before₁ notLast] at free
      obtain ⟨next, moved, same⟩ := Cursor.advance_extend more finish moved
      exact fails_skip_bind_iff.2
        (.inr ⟨next, moved, same before₁ ▸ steady.stuck fails notEnd free⟩)
  hangs {e} fails hangs equals := by
    rcases fails_skip_bind_iff.1 fails with stray | ⟨c₁, moved, fails⟩
    · obtain ⟨s, -, rfl, -⟩ := Cursor.advance_eq_error more finish stray
      exact absurd hangs ParseError.not_hangsOn_stray
    · have take : c.Takes t c₁ := ⟨here, moved⟩
      obtain ⟨next, moved, same⟩ := Cursor.advance_extend more finish moved
      by_cases isLast : c₁.isAtLabel = true ∧ c₁.rest = []
      · have before₁ : c₁.current ≠ none := by
          intro atEnd
          simp [Cursor.isAtLabel, atEnd] at isLast
        obtain ⟨e', isEnd, fails'⟩ :=
          ((last take isLast.1 isLast.2 fails).2 hangs.isEnd_eq_false).2 equals
        exact ⟨e', isEnd, fails_skip_bind_iff.2 (.inr ⟨next, moved, same before₁ ▸ fails'⟩)⟩
      · have notLast : c₁.isAtLabel = true → c₁.rest ≠ [] := fun label empty =>
          isLast ⟨label, empty⟩
        have steady := inner take notLast
        have before₁ := steady.current_ne_none (take.leaves.sane sane) fails hangs.isEnd_eq_false
        rw [hangsOn_behind take before₁ notLast] at hangs
        obtain ⟨e', isEnd, fails'⟩ := steady.hangs fails hangs equals
        exact ⟨e', isEnd, fails_skip_bind_iff.2 (.inr ⟨next, moved, same before₁ ▸ fails'⟩)⟩

theorem numeral (sane : c.Sane) : Steady more finish numeral numeral c := by
  have first : Steady more finish (Reader.expect .integer) (Reader.expect .integer) c :=
    expect sane (by decide)
  constructor
  case moves =>
    intro n c' reads
    obtain ⟨t, take, -⟩ := reads_numeral_iff.1 reads
    exact first.moves (reads_expect_iff.2 take)
  case points =>
    intro e fails
    rcases fails_numeral_iff.1 fails with fails | ⟨t, c', ⟨⟨here, -⟩, -⟩, -, rfl⟩
    · exact first.points fails
    · exact .inr ⟨rfl, .token t, by simp [Cursor.lexemes, here], rfl⟩
  case onward =>
    intro n c' reads before
    obtain ⟨t, take, value⟩ := reads_numeral_iff.1 reads
    have expected := first.onward (reads_expect_iff.2 take) before
    exact reads_numeral_iff.2 ⟨t, reads_expect_iff.1 expected, value⟩
  case stuck =>
    intro e fails notEnd free
    rcases fails_numeral_iff.1 fails with fails | ⟨t, c', ⟨⟨here, moved⟩, kind⟩, large⟩
    · exact fails_numeral_iff.2 (.inl (first.stuck fails notEnd free))
    · obtain ⟨next, moved', -⟩ := Cursor.advance_extend more finish moved
      exact fails_numeral_iff.2 (.inr ⟨t, next, ⟨⟨here, moved'⟩, kind⟩, large⟩)
  case hangs =>
    intro e fails hangs equals
    rcases fails_numeral_iff.1 fails with fails | ⟨t, c', -, -, rfl⟩
    · obtain ⟨e', isEnd, fails'⟩ := first.hangs fails hangs equals
      exact ⟨e', isEnd, fails_numeral_iff.2 (.inl fails')⟩
    · obtain ⟨brace, word, -, -, -, same⟩ := hangs
      cases same

theorem lengthAfterComma (sane : c.Sane) :
    Steady more finish lengthAfterComma lengthAfterComma c := by
  refine (taken sane (by decide)).bind sane fun b c' used _ leaves => ?_
  cases b with
  | true => exact (numeral (leaves.sane sane)).bind (leaves.sane sane) fun _ _ _ _ _ => .pure _
  | false => exact .pure none

private theorem of_unexpected {m m' : Reader α} {expected : String} (atEnd : c.current = none)
    (fails : Fails m c (c.unexpected expected)) : Steady more finish m m' c := by
  have unexpected : c.unexpected expected = .unexpectedEnd expected c.finish := by
    simp [Cursor.unexpected, atEnd]
  have only {e : ParseError} (h : Fails m c e) : e = .unexpectedEnd expected c.finish :=
    (Except.error.inj (h.symm.trans fails)).trans unexpected
  have never {a : α} {c' : Cursor} (h : Reads m c a c') : False := by
    cases h.symm.trans fails
  refine ⟨fun h => (never h).elim, fun h => .inl ⟨expected, only h⟩, fun h => (never h).elim,
    fun h notEnd => ?_, fun h hangs => ?_⟩
  · rw [only h] at notEnd
    cases notEnd
  · obtain ⟨brace, word, -, -, -, rfl⟩ := hangs
    cases only h

end Steady

/-! ## Types and fields -/

def SteadyWithin {α : Type} (more : List Token) (finish : Span) (n : Nat) (m m' : Reader α) :
    Prop :=
  ∀ ⦃c : Cursor⦄, c.Sane → c.lexemes.length ≤ n → Steady more finish m m' c

namespace SteadyWithin

open Reader

variable {α β : Type} {more : List Token} {finish : Span} {n n' : Nat} {m m' : Reader α}
  {f f' : α → Reader β} {separator close : TokenKind}

theorem bind (h : SteadyWithin more finish n m m')
    (next : ∀ a, SteadyWithin more finish n (f a) (f' a)) :
    SteadyWithin more finish n (m >>= f) (m' >>= f') :=
  fun _ sane size => (h sane size).bind sane fun a _ _ _ leaves =>
    next a (leaves.sane sane) (Nat.le_trans leaves.length_le size)

theorem bind_of_takes (h : SteadyWithin more finish (n + 1) m m')
    (takes : ∀ {c a c'}, Reads m c a c' → ∃ t, c.Takes t c')
    (next : ∀ a, SteadyWithin more finish n (f a) (f' a)) :
    SteadyWithin more finish (n + 1) (m >>= f) (m' >>= f') :=
  fun _ sane size => (h sane size).bind sane fun a c' _ reads leaves => by
    obtain ⟨t, take⟩ := takes reads
    exact next a (leaves.sane sane) (take.length_le size)

theorem pure (a : α) : SteadyWithin more finish n (pure a) (pure a) := fun _ _ _ => .pure a

theorem expect {kind : TokenKind} (notBrace : kind ≠ .leftBrace) :
    SteadyWithin more finish n (expect kind) (expect kind) := fun _ sane _ => .expect sane notBrace

theorem taken {kind : TokenKind} {yes yes' no no' : Reader α} (notBrace : kind ≠ .leftBrace)
    (first : SteadyWithin more finish n yes yes') (second : SteadyWithin more finish n no no') :
    SteadyWithin more finish n (do if ← taken kind then yes else no)
      (do if ← Reader.taken kind then yes' else no') :=
  bind (fun _ sane _ => .taken sane notBrace) fun b => by
    cases b with
    | true => exact first
    | false => exact second

theorem spanFrom (first : Span) {e : Span → Expr} :
    SteadyWithin more finish n (do return e (← spanFrom first)) (do return e (← spanFrom first)) :=
  bind (fun _ sane _ => .spanFrom sane first) fun _ => pure _

theorem zero {expected : String}
    (fails : ∀ c, Fails m c (c.unexpected expected)) : SteadyWithin more finish 0 m m' := by
  intro c sane size
  have atEnd := sane.settled.lexemes_eq_nil_iff.1 (List.length_eq_zero_iff.1 (Nat.le_zero.1 size))
  exact .of_unexpected atEnd (fails c)

theorem path (le : n ≤ n') : SteadyWithin more finish n (path n) (path n') := by
  induction n generalizing n' with
  | zero => exact zero fun c => rfl
  | succ n ih =>
      obtain ⟨n', rfl⟩ : ∃ k, n' = k + 1 := ⟨n' - 1, by omega⟩
      refine bind_of_takes (expect (by decide))
        (fun reads => ⟨_, (reads_expect_iff.1 reads).1⟩) fun name => ?_
      exact taken (by decide) ((ih (by omega)).bind fun _ => pure _) (pure _)

theorem unlessClosed (notBrace : close ≠ .leftBrace) {items items' : Reader (List FieldExpr)}
    (h : SteadyWithin more finish n items items') :
    SteadyWithin more finish n (unlessClosed close items) (unlessClosed close items') :=
  taken notBrace (pure []) h

theorem fields_succ (type : SteadyWithin more finish n (type n) (type n'))
    (fields : SteadyWithin more finish n (fields separator close n) (fields separator close n'))
    (notBrace : separator ≠ .leftBrace) (notBrace' : close ≠ .leftBrace) :
    SteadyWithin more finish (n + 1) (Reader.fields separator close (n + 1))
      (Reader.fields separator close (n' + 1)) := by
  rw [Reader.fields, Reader.fields]
  refine bind_of_takes (fun _ sane _ => .label sane)
    (fun reads => ⟨_, (reads_label_iff.1 reads).1⟩) fun name => ?_
  refine (expect notBrace).bind fun _ => type.bind fun content => ?_
  exact taken (by decide) (fields.bind fun _ => pure _) ((expect notBrace').bind fun _ => pure _)

end SteadyWithin

namespace Reader

variable {c c' : Cursor} {e : ParseError} {n : Nat} {t w : Token}

theorem leaves_of_reads_type {expr : Expr} (spelled : c.Spelled) (h : Reads (type n) c expr c') :
    ∃ used, c.Leaves used c' ∧ Cursor.Closed used ∧ used ≠ [] := by
  obtain ⟨d, followed, -⟩ := (reads_follow n).1 h
  obtain ⟨used, leaves, terminals⟩ := (followed spelled).leaves
  refine ⟨used, leaves, fun t last => ?_, ?_⟩
  · refine d.getLast?_terminals t.terminal ?_
    rw [← terminals, List.getLast?_map, last]
    rfl
  · rintro rfl
    exact d.terminals_ne_nil terminals.symm

private theorem leaves_of_reads_brace {expr : Expr} (spelled : c.Spelled)
    (here : c.current = some t) (isBrace : t.kind = .leftBrace) (h : Reads (type n) c expr c') :
    ∃ used, c.Leaves used c' ∧ Cursor.Closed used ∧ 2 ≤ used.length := by
  obtain ⟨used, leaves, closed, some'⟩ := leaves_of_reads_type spelled h
  refine ⟨used, leaves, closed, ?_⟩
  obtain ⟨first, others, rfl⟩ := List.exists_cons_of_ne_nil some'
  cases others with
  | cons => simp
  | nil =>
      have same : t = first := by
        have lexemes := leaves.lexemes
        rw [Cursor.lexemes, here] at lexemes
        exact Lexeme.token.inj (List.cons.inj lexemes).1
      exact absurd isBrace (closed t (by simp [same]))

private theorem fails_type_of_atEnd (atEnd : c.current = none) :
    Fails (type n) c (c.unexpected "a type") := by
  cases n with
  | zero => rfl
  | succ n =>
      rw [type, fails_get_bind_iff, atEnd]
      rfl

theorem isEnd_of_fails_expect {kind : TokenKind} {f : Token → Reader Expr}
    (atEnd : c.current = none) (h : Fails (expect kind >>= f) c e) : e.isEnd = true := by
  rcases fails_bind_iff.1 h with h | ⟨t, next, expected, -⟩
  · rw [expect, fails_takeIf_iff, atEnd] at h
    obtain rfl : e = _ := h
    simp [Cursor.unexpected, atEnd, ParseError.isEnd]
  · have here := (reads_expect_iff.1 expected).1.1
    rw [atEnd] at here
    cases here

theorem exists_advance_last (last : c.rest = []) :
    ∃ next, c.advance = .ok next ∧ next.current = none := by
  unfold Cursor.advance
  rw [last]
  exact ⟨_, rfl, rfl⟩

private theorem fails_type_last (here : c.current = some w) (isLabel : w.kind.isLabel = true)
    (last : c.rest = []) (h : Fails (type (n + 1)) c e) (notEnd : e.isEnd = false) :
    w.kind = .functionWord ∧ e = .unexpectedToken w.text "a type" w.span := by
  obtain ⟨next, moved, atEnd⟩ := exists_advance_last last
  have behind {m : Reader Expr} (h : Fails (do skip; m) c e) : Fails m next e := by
    rcases fails_skip_bind_iff.1 h with h | ⟨next', moved', h⟩
    · cases h.symm.trans moved
    · cases moved.symm.trans moved'
      exact h
  rw [type, fails_get_bind_iff, here] at h
  dsimp only at h
  cases kind : w.kind
  all_goals simp only [kind] at h
  case functionWord =>
    obtain rfl := fails_throw_iff.1 h
    exact ⟨rfl, by simp [Cursor.unexpected, here]⟩
  case identifier => exact absurd (behind h) not_fails_pure
  case arrayTypeWord =>
    exact absurd (notEnd.symm.trans (isEnd_of_fails_expect atEnd (behind h))) (by decide)
  case objectWord =>
    have isAt : next.isAt .leftParen = false := by simp [Cursor.isAt, atEnd]
    exact absurd ((fails_taken_iff isAt).1 (behind h)) not_fails_pure
  all_goals simp [kind, TokenKind.isLabel, TokenKind.isKeyword] at isLabel

private theorem fails_array_last {f : Expr → Token → Reader Expr} (sane : c.Sane)
    (here : c.current = some w) (isLabel : w.kind.isLabel = true) (last : c.rest = [])
    (h : Fails (do
      let element ← type (n + 1)
      let close ← expect .rightBrace
      f element close) c e) (notEnd : e.isEnd = false) :
    w.kind = .functionWord ∧ e = .unexpectedToken w.text "a type" w.span := by
  rcases fails_bind_iff.1 h with h | ⟨element, next, reads, h⟩
  · exact fails_type_last here isLabel last h notEnd
  · obtain ⟨used, leaves, -, some'⟩ := leaves_of_reads_type sane.spelled reads
    -- The one token is used up, and the closing brace is missed at the end.
    have single : c.lexemes.length = 1 := by simp [Cursor.lexemes, here, last]
    rw [leaves.lexemes, List.length_append, List.length_map] at single
    have some' := List.length_pos_iff.2 some'
    have atEnd : next.current = none := (leaves.settled sane.settled).lexemes_eq_nil_iff.1
      (List.length_eq_zero_iff.1 (by omega))
    exact absurd (notEnd.symm.trans (isEnd_of_fails_expect atEnd h)) (by decide)

private theorem exists_fails_fields {separator close : TokenKind} (here : c.current = some w)
    (isLabel : w.kind.isLabel = true) (last : c.rest = [.token t]) (kind : t.kind = separator) :
    ∃ e, e.isEnd = true ∧ Fails (fields separator close (n + 1)) c e := by
  obtain ⟨c₁, moved, here₁, last₁⟩ :
      ∃ c₁, c.advance = .ok c₁ ∧ c₁.current = some t ∧ c₁.rest = [] := by
    unfold Cursor.advance
    rw [last]
    exact ⟨_, rfl, rfl, rfl⟩
  obtain ⟨c₂, moved₁, atEnd⟩ := exists_advance_last last₁
  refine ⟨c₂.unexpected "a type", by simp [Cursor.unexpected, atEnd, ParseError.isEnd], ?_⟩
  rw [fields]
  refine fails_bind_iff.2 (.inr ⟨w, c₁, reads_label_iff.2 ⟨⟨here, moved⟩, isLabel⟩, ?_⟩)
  refine fails_bind_iff.2 (.inr ⟨t, c₂, reads_expect_iff.2 ⟨⟨here₁, moved₁⟩, kind⟩, ?_⟩)
  exact fails_bind_iff.2 (.inl (fails_type_of_atEnd atEnd))

private theorem reads_type_of_braced {expr : Expr} (here : c.current = some t)
    (isBrace : t.kind = .leftBrace)
    (h : Reads (do skip; braced t.span (fields .equals .rightBrace n) (type n)) c expr c') :
    Reads (type (n + 1)) c expr c' := by
  rw [type, reads_get_bind_iff, here]
  dsimp only
  rw [isBrace]
  exact h

section

variable {first : Span} {fields : Reader (List FieldExpr)} {type : Reader Expr}

private theorem fails_braced_last (label : c.isAtLabel = true) (last : c.rest = [])
    (h : Fails (braced first fields type) c e) :
    Fails (do
      let element ← type
      let _ ← expect .rightBrace
      return Expr.array element none (← spanFrom first)) c e := by
  obtain ⟨w, -, -, notAt⟩ := Cursor.exists_of_isAtLabel label
  have h := (fails_taken_iff notAt).1 h
  have starts := Cursor.startsField_last label last
  rcases fails_startsField_iff.1 h with starts' | ⟨b, starts', h⟩
  · cases starts'.symm.trans starts
  · obtain rfl := Except.ok.inj (starts'.symm.trans starts)
    exact h

private theorem fails_braced_field (here : c.current = some w) (isLabel : w.kind.isLabel = true)
    (last : c.rest = [.token t]) (kind : t.kind = .equals) (fails : Fails fields c e) :
    Fails (braced first fields type) c e := by
  have label : c.isAtLabel = true := by simpa [Cursor.isAtLabel, here] using isLabel
  obtain ⟨-, -, -, notAt⟩ := Cursor.exists_of_isAtLabel label
  refine (fails_taken_iff notAt).2 (fails_startsField_iff.2 (.inr ⟨true, ?_, ?_⟩))
  · exact Cursor.startsField_equals label last kind
  · exact fails_bind_iff.2 (.inl fails)

end

end Reader

namespace SteadyWithin

open Reader

variable {more : List Token} {finish : Span} {n n' : Nat}

theorem braced {c : Cursor} {t : Token} (type : SteadyWithin more finish n (type n) (type n'))
    (fields : SteadyWithin more finish n (fields .equals .rightBrace n)
      (fields .equals .rightBrace n'))
    (le : n ≤ n') (sane : c.Sane) (size : c.lexemes.length ≤ n + 1) (here : c.current = some t)
    (isBrace : t.kind = .leftBrace) :
    Steady more finish
      (do skip; braced t.span (Reader.fields .equals .rightBrace n) (Reader.type n))
      (do skip; Reader.braced t.span (Reader.fields .equals .rightBrace n') (Reader.type n'))
      c := by
  have record : SteadyWithin more finish n
      (do return Expr.record (← Reader.fields .equals .rightBrace n) (← Reader.spanFrom t.span))
      (do return Expr.record (← Reader.fields .equals .rightBrace n') (← Reader.spanFrom t.span)) :=
    fields.bind fun _ => spanFrom _
  have array : SteadyWithin more finish n
      (do
        let element ← Reader.type n
        let _ ← Reader.expect .rightBrace
        return Expr.array element none (← Reader.spanFrom t.span))
      (do
        let element ← Reader.type n'
        let _ ← Reader.expect .rightBrace
        return Expr.array element none (← Reader.spanFrom t.span)) :=
    type.bind fun _ => (expect (by decide)).bind fun _ => spanFrom _
  have within {c₁ : Cursor} (take : c.Takes t c₁) : c₁.Sane ∧ c₁.lexemes.length ≤ n :=
    ⟨take.leaves.sane sane, take.length_le size⟩
  refine .brace sane here
    (fun reads => leaves_of_reads_brace sane.spelled here isBrace
      (reads_type_of_braced here isBrace reads))
    (fun {c₁} take notLast => ?_) (fun {c₁ e} take label last fails => ?_)
  · obtain ⟨sane₁, size₁⟩ := within take
    refine (Steady.taken sane₁ (by decide)).bind sane₁ fun b c₂ used reads leaves => ?_
    rcases reads_taken reads with ⟨rfl, -⟩ | ⟨rfl, -, rfl⟩
    · exact spanFrom _ (leaves.sane sane₁) (Nat.le_trans leaves.length_le size₁)
    · exact .startsField notLast fun b _ => by
        cases b with
        | true => exact record sane₁ size₁
        | false => exact array sane₁ size₁
  · obtain ⟨sane₁, size₁⟩ := within take
    obtain ⟨w, here₁, isLabel, -⟩ := Cursor.exists_of_isAtLabel label
    have lexemes₁ : c₁.lexemes = [.token w] := by simp [Cursor.lexemes, here₁, last]
    have fuel : 1 ≤ n := by simpa [lexemes₁] using size₁
    obtain ⟨n, rfl⟩ : ∃ k, n = k + 1 := ⟨n - 1, by omega⟩
    obtain ⟨n', rfl⟩ : ∃ k, n' = k + 1 := ⟨n' - 1, by omega⟩
    have fails := fails_braced_last label last fails
    refine ⟨(array sane₁ size₁).points fails, fun notEnd => ?_⟩
    obtain ⟨isWord, rfl⟩ := fails_array_last sane₁ here₁ isLabel last fails notEnd
    refine ⟨⟨t, w, ?_, isBrace, isWord, rfl⟩, ?_⟩
    · rw [take.leaves.lexemes, lexemes₁]
      exact List.suffix_refl _
    · rintro ⟨eq, rfl, isEquals⟩
      have here' : (c₁.extend [eq] finish).current = some w := here₁
      have last' : (c₁.extend [eq] finish).rest = [.token eq] := by simp [Cursor.extend, last]
      obtain ⟨e, isEnd, fails⟩ := exists_fails_fields here' isLabel last' isEquals
      exact ⟨e, isEnd, fails_braced_field here' isLabel last' isEquals fails⟩

theorem type_succ (type : SteadyWithin more finish n (type n) (type n'))
    (fields : ∀ separator close, separator ≠ .leftBrace → close ≠ .leftBrace →
      SteadyWithin more finish n (fields separator close n) (fields separator close n'))
    (le : n ≤ n') :
    SteadyWithin more finish (n + 1) (Reader.type (n + 1)) (Reader.type (n' + 1)) := by
  intro c sane size
  rw [Reader.type, Reader.type]
  refine Steady.get sane ?_ ?_
  · cases here : c.current with
    | none => exact .unexpected sane _
    | some t =>
        have after {m m' : Reader Expr} (notBrace : t.kind ≠ .leftBrace)
            (h : SteadyWithin more finish n m m') :
            Steady more finish (do skip; m) (do skip; m') c :=
          (Steady.skip here notBrace).bind sane fun _ c₁ _ reads leaves => by
            have take : c.Takes t c₁ := ⟨here, reads_skip_iff.1 reads⟩
            exact h (leaves.sane sane) (take.length_le size)
        dsimp only
        cases kind : t.kind
        case identifier => exact after (by simp [kind]) (pure _)
        case leftBracket =>
          exact after (by simp [kind])
            ((expect (by decide)).bind fun _ => (expect (by decide)).bind fun _ => spanFrom _)
        case arrayTypeWord =>
          exact after (by simp [kind]) ((expect (by decide)).bind fun _ => type.bind fun _ =>
            bind (fun _ sane _ => .lengthAfterComma sane) fun _ =>
              (expect (by decide)).bind fun _ => spanFrom _)
        case leftBrace =>
          exact braced type (fields .equals .rightBrace (by decide) (by decide)) le sane size here
            kind
        case unionOpen =>
          exact after (by simp [kind]) ((unlessClosed (by decide)
            (fields .equals .unionClose (by decide) (by decide))).bind fun _ => spanFrom _)
        case leftParen =>
          exact after (by simp [kind]) ((expect (by decide)).bind fun _ =>
            (expect (by decide)).bind fun _ => (unlessClosed (by decide)
              (fields .colon .rightParen (by decide) (by decide))).bind fun _ =>
                type.bind fun _ => (expect (by decide)).bind fun _ => spanFrom _)
        case objectWord =>
          exact after (by simp [kind]) (taken (by decide) (taken (by decide) (spanFrom _)
            ((path le).bind fun _ => (expect (by decide)).bind fun _ => spanFrom _)) (pure _))
        all_goals exact .unexpected sane _
  · intro before
    rw [Cursor.unexpected_extend before]
    rfl

/-- Types and lists of fields are read steadily, if there is fuel for all lexemes. -/
theorem types_and_fields (le : n ≤ n') :
    SteadyWithin more finish n (type n) (type n') ∧
      ∀ separator close, separator ≠ .leftBrace → close ≠ .leftBrace →
        SteadyWithin more finish n (fields separator close n) (fields separator close n') := by
  induction n generalizing n' with
  | zero => exact ⟨zero fun _ => rfl, fun _ _ _ _ => zero fun _ => rfl⟩
  | succ n ih =>
      obtain ⟨n', rfl⟩ : ∃ k, n' = k + 1 := ⟨n' - 1, by omega⟩
      obtain ⟨type, fields⟩ := @ih n' (by omega)
      exact ⟨type_succ type fields (by omega), fun separator close notBrace notBrace' =>
        fields_succ type (fields separator close notBrace notBrace') notBrace notBrace'⟩

end SteadyWithin

theorem Cursor.Sane.steady {more : List Token} {finish : Span} {c : Cursor} {n : Nat}
    (sane : c.Sane) (le : c.remaining ≤ n) :
    Steady more finish (Reader.type c.remaining) (Reader.type n) c :=
  (SteadyWithin.types_and_fields le).1 sane c.length_lexemes_le

theorem Expr.points_of_parse_eq_error {source : String} {e : ParseError}
    (h : Expr.parse source = .error e) :
    (∃ expected, e = .unexpectedEnd expected (endSpan source)) ∨
      e.isEnd = false ∧ ∃ x ∈ tokenize source, e.span = x.span := by
  rcases Expr.parse_eq_error_iff.1 h with h | ⟨c, start, fails⟩
  · obtain ⟨s, stray, rfl⟩ := Cursor.start_eq_error h
    exact .inr ⟨rfl, .stray s, stray, rfl⟩
  · obtain ⟨lexemes, finish, sane⟩ := Cursor.start_sane start
    have steady : Steady [] {} _ _ c := sane.steady (Nat.le_refl _)
    rw [← lexemes, ← finish]
    rcases Reader.fails_wholeType_iff.1 fails with fails | ⟨expr, c', t, read, here, rfl⟩
    · exact steady.points fails
    · obtain ⟨used, leaves, -⟩ := steady.moves read
      refine .inr ⟨rfl, .token t, ?_, rfl⟩
      rw [leaves.lexemes]
      simp [Cursor.lexemes, here]

end DataflowTypes
