import DataflowTypes.Proofs.Expr.Extension
import DataflowTypes.Proofs.Token.Tiling

/-!
# Completing a source

Where the end of a source is reported, the tokens so far can be completed.  Main statement: a
reader that fails at the end has passed the first part of a word of its language, for types and
for lists of fields as for the readers that they are made of.
-/

namespace DataflowTypes

instance : Nonempty Token := ⟨⟨.comma, "", {}⟩⟩

instance : Nonempty Expr := ⟨.named "" {}⟩

theorem Terminal.spelled_fixed {kind : TokenKind} (fixed : kind.isFixed = true) :
    (Terminal.fixed kind).Spelled := by
  cases kind
  case identifier | integer => cases fixed
  all_goals rfl

theorem Terminal.spelled_name : (Terminal.name "x").Spelled := ⟨rfl, rfl⟩

theorem Terminal.Spelled.single {s : Terminal} (h : s.Spelled) : ∀ s' ∈ [s], s'.Spelled := by
  simpa using h

/-! ## Texts with given tokens -/

namespace Scan

private theorem Lexes.spaced {s : Terminal} {ss : List Terminal} {rest : List Char}
    (spelled : s.Spelled) (h : Lexes rest ss) :
    Lexes (s.text.toList ++ ' ' :: rest) (s :: ss) := by
  have isToken : IsToken s.kind s.text.toList := by
    rw [IsToken, String.ofList_toList]
    exact spelled
  have cut : Cut s.text.toList (' ' :: rest) (some s.kind) := by
    refine .token isToken fun more k start notNil longer => ?_
    obtain ⟨c, more, rfl⟩ := List.exists_cons_of_ne_nil notNil
    obtain ⟨rfl, -⟩ := List.cons_prefix_cons.1 start
    exact absurd (longer.not_isBlank ' ' (by simp)) (by decide)
  intro index offset
  rw [scan_cut cut, List.map_cons, h.blank]
  simp [lexemeAt, Lexeme.terminal?, Token.terminal]

end Scan

/-- Spelled terminals are the tokens of some source. -/
theorem exists_tokenize {ss : List Terminal} (spelled : ∀ s ∈ ss, s.Spelled) :
    ∃ source, (tokenize source).map Lexeme.terminal? = ss.map some := by
  have lexed : ∃ cs, Scan.Lexes cs ss := by
    induction ss with
    | nil => exact ⟨[], .nil⟩
    | cons s ss ih =>
        obtain ⟨first, others⟩ := List.forall_mem_cons.1 spelled
        obtain ⟨cs, h⟩ := ih others
        exact ⟨_, h.spaced first⟩
  obtain ⟨cs, h⟩ := lexed
  exact ⟨String.ofList cs, by rw [tokenize, String.toList_ofList, h]⟩

/-! ## Languages of readers -/

/-- The tokens from the cursor on are the first ones of a word with `P`, which has more. -/
def Cursor.Starts (c : Cursor) (P : List Terminal → Prop) : Prop :=
  ∃ ss more, c.lexemes.map Lexeme.terminal? = ss.map some ∧ more ≠ [] ∧
    (∀ s ∈ more, s.Spelled) ∧ P (ss ++ more)

theorem Cursor.Starts.behind {c c' : Cursor} {P : List Terminal → Prop} {ss : List Terminal}
    (passes : c.Passes ss c') (h : c'.Starts fun rest => P (ss ++ rest)) : c.Starts P := by
  obtain ⟨ss', more, lexemes, notNil, spelled, word⟩ := h
  obtain ⟨used, leaves, rfl⟩ := passes.leaves
  refine ⟨used.map Token.terminal ++ ss', more, ?_, notNil, spelled, by simpa using word⟩
  rw [leaves.lexemes, List.map_append, List.map_append, lexemes]
  simp [Lexeme.terminal?]

theorem Cursor.starts_of_atEnd {c : Cursor} {P : List Terminal → Prop} {ss : List Terminal}
    (settled : c.Settled) (atEnd : c.current = none) (notNil : ss ≠ [])
    (spelled : ∀ s ∈ ss, s.Spelled) (word : P ss) : c.Starts P :=
  ⟨[], ss, by simp [settled.lexemes_eq_nil_iff.2 atEnd], notNil, spelled, word⟩

def IsType (ss : List Terminal) : Prop := ∃ d : Derivation, d.terminals = ss

def IsFields (separator close : TokenKind) (ss : List Terminal) : Prop :=
  ∃ field fields, fieldsTerminals separator (field :: fields) ++ [.fixed close] = ss

theorem Derivation.isType (d : Derivation) : IsType d.terminals := ⟨d, rfl⟩

theorem isFields_cons (separator close : TokenKind) (l : Label) (d : Derivation)
    (fields : List FieldDerivation) :
    IsFields separator close (l.terminal :: .fixed separator ::
      (d.terminals ++ (moreTerminals separator fields ++ [.fixed close]))) :=
  ⟨.mk l d, fields, by simp [fieldsTerminals_cons]⟩

/-- Where the reader reports the end, words with `P` go on; and there are such words. -/
structure EndsIn {α : Type} (m : Reader α) (P : List Terminal → Prop) : Prop where
  word : ∃ ss, P ss ∧ ∀ s ∈ ss, s.Spelled
  starts : ∀ {c e}, c.Settled → c.Spelled → Fails m c e → e.isEnd = true → c.Starts P

namespace EndsIn

open Reader

variable {α β : Type} {P Q : List Terminal → Prop} {c : Cursor} {e : ParseError}

theorem mono {m : Reader α} (h : EndsIn m P) (le : ∀ ss, P ss → Q ss) : EndsIn m Q where
  word := by
    obtain ⟨ss, word, spelled⟩ := h.word
    exact ⟨ss, le ss word, spelled⟩
  starts settled spelled fails isEnd := by
    obtain ⟨ss, more, lexemes, notNil, spelled, word⟩ := h.starts settled spelled fails isEnd
    exact ⟨ss, more, lexemes, notNil, spelled, le _ word⟩

theorem bind [Nonempty α] {m : Reader α} {f : α → Reader β} (h : EndsIn m Q)
    (reads : ∀ {c a c'}, c.Spelled → Reads m c a c' → ∃ ss, Q ss ∧ c.Passes ss c')
    (h' : ∀ a ss, Q ss → EndsIn (f a) fun rest => P (ss ++ rest)) : EndsIn (m >>= f) P where
  word := by
    obtain ⟨ss, word, spelled⟩ := h.word
    obtain ⟨ss', word', spelled'⟩ := (h' Classical.ofNonempty ss word).word
    exact ⟨ss ++ ss', word', List.forall_mem_append.2 ⟨spelled, spelled'⟩⟩
  starts settled spelled fails isEnd := by
    rcases fails_bind_iff.1 fails with fails | ⟨a, next, read, fails⟩
    · obtain ⟨ss, more, lexemes, notNil, spelled, word⟩ := h.starts settled spelled fails isEnd
      obtain ⟨rest, word', spelled'⟩ := (h' Classical.ofNonempty _ word).word
      refine ⟨ss, more ++ rest, lexemes, by simp [notNil],
        List.forall_mem_append.2 ⟨spelled, spelled'⟩, ?_⟩
      rw [← List.append_assoc]
      exact word'
    · obtain ⟨ss, word, passes⟩ := reads spelled read
      obtain ⟨_, leaves, _⟩ := passes.leaves
      exact .behind passes ((h' a ss word).starts (leaves.settled settled)
        (passes.spelled spelled) fails isEnd)

theorem pure {a : α} (h : P []) : EndsIn (pure a) P :=
  ⟨⟨[], h, by simp⟩, fun _ _ fails => absurd fails not_fails_pure⟩

theorem spanFrom {first : Span} {f : Span → α} (h : P []) :
    EndsIn (do return f (← spanFrom first)) P :=
  ⟨⟨[], h, by simp⟩, fun _ _ fails => absurd fails not_fails_pure⟩

theorem not_isEnd_of_advance (h : c.advance = .error e) : e.isEnd = false := by
  obtain ⟨s, -, rfl, -⟩ := Cursor.advance_eq_error [] {} h
  rfl

theorem not_isEnd_unexpected {t : Token} {expected : String} (here : c.current = some t) :
    (c.unexpected expected).isEnd = false := by
  simp [Cursor.unexpected, here, ParseError.isEnd]

theorem atEnd_of_isEnd {expected : String} (h : (c.unexpected expected).isEnd = true) :
    c.current = none := by
  cases here : c.current with
  | none => rfl
  | some t => exact absurd (h.symm.trans (not_isEnd_unexpected here)) (by decide)

theorem unexpected {m : Reader α} {expected : String} {ss : List Terminal}
    (fails : ∀ c, Fails m c (c.unexpected expected)) (notNil : ss ≠ [])
    (spelled : ∀ s ∈ ss, s.Spelled) (word : P ss) : EndsIn m P := by
  refine ⟨⟨ss, word, spelled⟩, fun {c e} settled _ fails' isEnd => ?_⟩
  obtain rfl : c.unexpected expected = e := Except.error.inj ((fails c).symm.trans fails')
  exact Cursor.starts_of_atEnd settled (atEnd_of_isEnd isEnd) notNil spelled word

theorem atEnd_of_fails_takeIf {accepts : TokenKind → Bool} {expected : String}
    (fails : Fails (takeIf accepts expected) c e) (isEnd : e.isEnd = true) : c.current = none := by
  rw [fails_takeIf_iff] at fails
  split at fails
  · exact absurd (isEnd.symm.trans (not_isEnd_of_advance fails)) (by decide)
  · subst fails
    exact atEnd_of_isEnd isEnd

theorem takeIf {accepts : TokenKind → Bool} {expected : String} {s : Terminal}
    (words : Terminal → Prop) (word : words s) (spelled : s.Spelled)
    (words_of : ∀ t : Token, accepts t.kind = true → t.terminal.Spelled → words t.terminal)
    {f : Token → Reader α}
    (h : ∀ t s, words s → EndsIn (f t) fun rest => P (s :: rest)) :
    EndsIn (takeIf accepts expected >>= f) P := by
  refine @bind _ _ P (fun ss => ∃ s, words s ∧ ss = [s]) _ _ _
    ⟨⟨[s], ⟨s, word, rfl⟩, spelled.single⟩, fun settled _ fails isEnd => ?_⟩ ?_ ?_
  · exact Cursor.starts_of_atEnd settled (atEnd_of_fails_takeIf fails isEnd) (by simp)
      spelled.single ⟨s, word, rfl⟩
  · intro c t c' spelled read
    obtain ⟨take, holds⟩ := reads_takeIf_iff.1 read
    exact ⟨[t.terminal], ⟨_, words_of t holds (spelled t (.inl take.1)), rfl⟩,
      take.cons .nil spelled⟩
  · rintro t _ ⟨s, word, rfl⟩
    exact h t s word

theorem expect {kind : TokenKind} {f : Token → Reader α} (fixed : kind.isFixed = true)
    (h : ∀ t, EndsIn (f t) fun rest => P (.fixed kind :: rest)) : EndsIn (expect kind >>= f) P :=
  takeIf (· = .fixed kind) rfl (Terminal.spelled_fixed fixed)
    (fun t same spelled => by
      obtain rfl := beq_iff_eq.1 same
      exact spelled.eq_fixed fixed)
    fun t _ word => word ▸ h t

theorem name {f : Token → Reader α} (h : ∀ t n, EndsIn (f t) fun rest => P (.name n :: rest)) :
    EndsIn (Reader.expect .identifier >>= f) P :=
  takeIf (fun s => ∃ n, s = .name n) ⟨"x", rfl⟩ Terminal.spelled_name
    (fun t same _ => ⟨t.text, by rw [Token.terminal, beq_iff_eq.1 same]; rfl⟩)
    fun t _ ⟨n, word⟩ => word ▸ h t n

theorem label {f : Token → Reader α}
    (h : ∀ t (l : Label), EndsIn (f t) fun rest => P (l.terminal :: rest)) :
    EndsIn (Reader.label >>= f) P :=
  takeIf (fun s => ∃ l : Label, s = l.terminal) ⟨⟨.identifier, "x", rfl⟩, rfl⟩
    Terminal.spelled_name (fun t isLabel _ => ⟨⟨t.kind, t.text, isLabel⟩, rfl⟩)
    fun t _ ⟨l, word⟩ => word ▸ h t l

theorem taken {kind : TokenKind} {yes no : Reader α} (fixed : kind.isFixed = true)
    (h : EndsIn yes fun rest => P (.fixed kind :: rest)) (h' : EndsIn no P) :
    EndsIn (do if ← taken kind then yes else no) P := by
  refine ⟨h'.word, fun {c e} settled spelled fails isEnd => ?_⟩
  cases isAt : c.isAt kind with
  | false => exact h'.starts settled spelled ((fails_taken_iff isAt).1 fails) isEnd
  | true =>
      obtain ⟨t, here, same⟩ := Cursor.isAt_eq_true_iff.1 isAt
      unfold Reader.taken at fails
      rw [bind_assoc, fails_get_bind_iff, if_pos isAt] at fails
      simp only [bind_assoc, pure_bind] at fails
      rcases fails_skip_bind_iff.1 fails with stray | ⟨next, moved, fails⟩
      · exact absurd (isEnd.symm.trans (not_isEnd_of_advance stray)) (by decide)
      · have take : c.Takes t next := ⟨here, moved⟩
        have passes := take.fixed same fixed .nil spelled
        exact .behind passes (h.starts (take.leaves.settled settled) (take.spelled spelled)
          fails isEnd)

theorem startsField {f : Bool → Reader α} (h : ∀ b, EndsIn (f b) P) :
    EndsIn (do f (← (← get).startsField)) P := by
  refine ⟨(h false).word, fun {c e} settled spelled fails isEnd => ?_⟩
  rcases fails_startsField_iff.1 fails with stray | ⟨b, -, fails⟩
  · obtain ⟨s, -, rfl⟩ := Cursor.startsField_eq_error stray
    cases isEnd
  · exact (h b).starts settled spelled fails isEnd

/-! ## Types and fields -/

theorem lengthAfterComma :
    EndsIn lengthAfterComma fun ss => ∃ n, lengthTerminals n = ss := by
  let zero : Numeral := ⟨"0", by decide⟩
  have spelled : zero.terminal.Spelled := (rfl : Scan.isNumber "0" = true)
  refine taken rfl ⟨⟨_, ⟨some zero, rfl⟩, spelled.single⟩, fun settled _ fails isEnd => ?_⟩
    (pure ⟨none, rfl⟩)
  have fails := (fails_bind_iff.1 fails).resolve_right fun ⟨_, _, _, h⟩ => not_fails_pure h
  rcases fails_numeral_iff.1 fails with fails | ⟨t, next, -, -, rfl⟩
  · exact Cursor.starts_of_atEnd settled (atEnd_of_fails_takeIf fails isEnd) (by simp)
      spelled.single ⟨some zero, rfl⟩
  · cases isEnd

private theorem length_bind {f : Option Nat → Reader α}
    (h : ∀ n numeral, EndsIn (f n) fun rest => P (lengthTerminals numeral ++ rest)) :
    EndsIn (Reader.lengthAfterComma >>= f) P := by
  refine bind lengthAfterComma (fun spelled read => ?_) ?_
  · obtain ⟨numeral, follows, -⟩ := follows_lengthAfterComma read
    exact ⟨_, ⟨numeral, rfl⟩, follows spelled⟩
  · rintro n _ ⟨numeral, rfl⟩
    exact h n numeral

theorem path_bind {n : Nat} {f : List String → Reader α}
    (path : EndsIn (path n) fun ss => ∃ names, names ≠ [] ∧ pathTerminals names = ss)
    (h : ∀ result name names, EndsIn (f result) fun rest =>
      P (pathTerminals (name :: names) ++ rest)) :
    EndsIn (Reader.path n >>= f) P := by
  refine bind path (fun spelled read => ?_) ?_
  · obtain ⟨notNil, follows⟩ := follows_path read
    exact ⟨_, ⟨_, notNil, rfl⟩, follows spelled⟩
  · rintro result _ ⟨names, notNil, rfl⟩
    obtain ⟨name, names, rfl⟩ := List.exists_cons_of_ne_nil notNil
    exact h result name names

theorem path (n : Nat) :
    EndsIn (path n) fun ss => ∃ names, names ≠ [] ∧ pathTerminals names = ss := by
  induction n with
  | zero =>
      exact unexpected (fun _ => rfl) (by simp) Terminal.spelled_name.single
        ⟨["x"], by simp, rfl⟩
  | succ n ih =>
      rw [Reader.path]
      exact name fun _ first => taken rfl
        (path_bind ih fun _ next names => pure ⟨first :: next :: names, by simp, by simp⟩)
        (pure ⟨[first], by simp, rfl⟩)

theorem type_bind {n : Nat} {f : Expr → Reader α} (h : EndsIn (type n) IsType)
    (h' : ∀ e (d : Derivation), EndsIn (f e) fun rest => P (d.terminals ++ rest)) :
    EndsIn (type n >>= f) P := by
  refine bind h (fun spelled read => ?_) ?_
  · obtain ⟨d, follows, -⟩ := (reads_follow n).1 read
    exact ⟨_, d.isType, follows spelled⟩
  · rintro e _ ⟨d, rfl⟩
    exact h' e d

theorem fields_bind {separator close : TokenKind} {n : Nat} {f : List FieldExpr → Reader α}
    (fixed : separator.isFixed = true) (fixed' : close.isFixed = true)
    (h : EndsIn (fields separator close n) (IsFields separator close))
    (h' : ∀ es field fields, EndsIn (f es) fun rest =>
      P (fieldsTerminals separator (field :: fields) ++ [.fixed close] ++ rest)) :
    EndsIn (fields separator close n >>= f) P := by
  refine bind h (fun spelled read => ?_) ?_
  · obtain ⟨field, fields, follows, -⟩ := (reads_follow n).2 fixed fixed' read
    exact ⟨_, ⟨field, fields, rfl⟩, follows spelled⟩
  · rintro es _ ⟨field, fields, rfl⟩
    exact h' es field fields

theorem unlessClosed_bind {separator close : TokenKind} {n : Nat} {f : List FieldExpr → Reader α}
    (fixed : separator.isFixed = true) (fixed' : close.isFixed = true)
    (h : EndsIn (fields separator close n) (IsFields separator close))
    (h' : ∀ es fields, EndsIn (f es) fun rest =>
      P (fieldsTerminals separator fields ++ [.fixed close] ++ rest)) :
    EndsIn (unlessClosed close (fields separator close n) >>= f) P := by
  have closed : EndsIn (unlessClosed close (fields separator close n)) fun ss =>
      ∃ fields, fieldsTerminals separator fields ++ [.fixed close] = ss :=
    taken fixed' (pure ⟨[], rfl⟩) (h.mono fun _ ⟨field, fields, same⟩ => ⟨field :: fields, same⟩)
  refine bind closed (fun spelled read => ?_) ?_
  · obtain ⟨fields, follows, -⟩ := (reads_follow n).2.unlessClosed fixed fixed' read
    exact ⟨_, ⟨fields, rfl⟩, follows spelled⟩
  · rintro es _ ⟨fields, rfl⟩
    exact h' es fields

theorem fields_succ {separator close : TokenKind} {n : Nat} (type : EndsIn (type n) IsType)
    (fields : EndsIn (fields separator close n) (IsFields separator close))
    (fixed : separator.isFixed = true) (fixed' : close.isFixed = true) :
    EndsIn (Reader.fields separator close (n + 1)) (IsFields separator close) := by
  rw [Reader.fields]
  refine label fun _ l => expect fixed fun _ => type_bind type fun _ d =>
    taken rfl (fields_bind fixed fixed' fields fun _ field fields => ?_)
      (expect fixed' fun _ => pure ?_)
  · refine pure ?_
    simpa [moreTerminals] using isFields_cons separator close l d (field :: fields)
  · exact isFields_cons separator close l d []

theorem braced {n : Nat} {first : Span} (type : EndsIn (type n) IsType)
    (fields : EndsIn (fields .equals .rightBrace n) (IsFields .equals .rightBrace)) :
    EndsIn (braced first (Reader.fields .equals .rightBrace n) (Reader.type n)) fun rest =>
      IsType (.fixed .leftBrace :: rest) := by
  refine taken rfl (spanFrom (Derivation.isType (.record []))) (startsField fun b => ?_)
  cases b with
  | true =>
      exact fields_bind rfl rfl fields fun _ field fields => spanFrom
        (by rw [List.append_nil]; exact Derivation.isType (.record (field :: fields)))
  | false =>
      exact type_bind type fun _ d => expect rfl fun _ => spanFrom (Derivation.isType (.braced d))

theorem type_succ {n : Nat} (type : EndsIn (type n) IsType)
    (fields : ∀ separator close, separator.isFixed = true → close.isFixed = true →
      EndsIn (fields separator close n) (IsFields separator close)) :
    EndsIn (Reader.type (n + 1)) IsType := by
  refine ⟨type.word, fun {c e} settled spelled fails isEnd => ?_⟩
  rw [Reader.type, fails_get_bind_iff] at fails
  cases here : c.current with
  | none =>
      exact Cursor.starts_of_atEnd settled here (by simp) Terminal.spelled_name.single
        (Derivation.isType (.name "x"))
  | some t =>
      have after {s : Terminal} {m : Reader Expr} (same : t.terminal = s)
          (h : EndsIn m fun rest => IsType (s :: rest)) (fails : Fails (do skip; m) c e) :
          c.Starts IsType := by
        rcases fails_skip_bind_iff.1 fails with stray | ⟨next, moved, fails⟩
        · exact absurd (isEnd.symm.trans (not_isEnd_of_advance stray)) (by decide)
        · have take : c.Takes t next := ⟨here, moved⟩
          exact .behind (same ▸ take.cons .nil spelled)
            (h.starts (take.leaves.settled settled) (take.spelled spelled) fails isEnd)
      have fixed {kind : TokenKind} (same : t.kind = kind) (isFixed : kind.isFixed = true) :
          t.terminal = .fixed kind := by
        subst same
        exact (spelled t (.inl here)).eq_fixed isFixed
      rw [here] at fails
      dsimp only at fails
      cases kind : t.kind <;> rw [kind] at fails
      case identifier =>
        exact after (s := .name t.text) (by rw [Token.terminal, kind]; rfl)
          (pure (Derivation.isType (.name t.text))) fails
      case leftBracket =>
        exact after (fixed kind rfl) (name fun _ n => expect rfl fun _ =>
          spanFrom (Derivation.isType (.matrix n))) fails
      case arrayTypeWord =>
        exact after (fixed kind rfl) (expect rfl fun _ => type_bind type fun _ d =>
          length_bind fun _ n => expect rfl fun _ =>
            spanFrom (Derivation.isType (.sized d n))) fails
      case leftBrace =>
        exact after (fixed kind rfl) (braced type (fields _ _ rfl rfl)) fails
      case unionOpen =>
        exact after (fixed kind rfl) (unlessClosed_bind rfl rfl (fields _ _ rfl rfl)
          fun _ ds => spanFrom (by rw [List.append_nil]; exact Derivation.isType (.union ds))) fails
      case leftParen =>
        exact after (fixed kind rfl) (expect rfl fun _ => expect rfl fun _ =>
          unlessClosed_bind rfl rfl (fields _ _ rfl rfl) fun _ ds => type_bind type fun _ d =>
            expect rfl fun _ => spanFrom
              (by simpa [Derivation.terminals] using Derivation.isType (.function ds d))) fails
      case objectWord =>
        exact after (fixed kind rfl) (taken rfl (taken rfl
          (spanFrom (Derivation.isType (.objectOf [])))
          (path_bind (path n) fun _ name names => expect rfl fun _ =>
            spanFrom (Derivation.isType (.objectOf (name :: names)))))
          (pure (Derivation.isType .object))) fails
      all_goals
        obtain rfl := fails_throw_iff.1 fails
        exact absurd (isEnd.symm.trans (not_isEnd_unexpected here)) (by decide)

/-- Where reading a type or a list of fields reports the end, the tokens so far can be
completed. -/
theorem types_and_fields (n : Nat) :
    EndsIn (type n) IsType ∧
      ∀ separator close, separator.isFixed = true → close.isFixed = true →
        EndsIn (fields separator close n) (IsFields separator close) := by
  induction n with
  | zero =>
      refine ⟨unexpected (fun _ => rfl) (by simp) Terminal.spelled_name.single
        (Derivation.isType (.name "x")), fun separator close fixed fixed' => ?_⟩
      have spelled : ∀ s ∈ [Terminal.name "x", .fixed separator, .name "x", .fixed close],
          s.Spelled := by
        simp [Terminal.spelled_name, Terminal.spelled_fixed fixed, Terminal.spelled_fixed fixed']
      exact unexpected (fun _ => rfl) (List.cons_ne_nil _ _) spelled
        (isFields_cons separator close ⟨.identifier, "x", rfl⟩ (.name "x") [])
  | succ n ih =>
      exact ⟨type_succ ih.1 ih.2, fun separator close fixed fixed' =>
        fields_succ ih.1 (ih.2 separator close fixed fixed') fixed fixed'⟩

end EndsIn

end DataflowTypes
