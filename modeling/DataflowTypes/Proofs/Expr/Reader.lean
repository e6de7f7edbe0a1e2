import DataflowTypes.Proofs.Expr.Grammar

/-!
# Steps of the reader

`Reads m c a c'` says that the reader `m` goes from the cursor `c` to `c'` with the result
`a`.  Main statements: `reads_type_iff` and `reads_fields_iff` say once what one production
reads, so that nothing else has to open the readers of types and fields.
-/

namespace DataflowTypes

namespace Cursor

def Takes (c : Cursor) (t : Token) (c' : Cursor) : Prop :=
  c.current = some t ∧ c.advance = .ok c'

/-- The tokens between two cursors are the given terminals. -/
def Passes : Cursor → List Terminal → Cursor → Prop
  | c, [], c' => c' = c
  | c, s :: ss, c' => ∃ t next, c.Takes t next ∧ t.terminal = s ∧ next.Passes ss c'

def Spelled (c : Cursor) : Prop :=
  ∀ t, c.current = some t ∨ .token t ∈ c.rest → t.terminal.Spelled

def Follows (c : Cursor) (ss : List Terminal) (c' : Cursor) : Prop :=
  c.Spelled → c.Passes ss c'

variable {c m c' : Cursor} {t : Token} {ss ss' : List Terminal}

theorem isAt_eq_true_iff {kind : TokenKind} :
    c.isAt kind = true ↔ ∃ t, c.current = some t ∧ t.kind = kind := by
  cases here : c.current <;> simp [isAt, here]

theorem passes_append_iff :
    c.Passes (ss ++ ss') c' ↔ ∃ m, c.Passes ss m ∧ m.Passes ss' c' := by
  induction ss generalizing c with
  | nil => simp [Passes]
  | cons s ss ih => simp only [List.cons_append, Passes, ih]; grind

theorem Passes.takes {s : Terminal} (h : c.Passes (s :: ss) c') :
    ∃ t m, c.Takes t m ∧ t.kind = s.kind ∧ t.text = s.text ∧ m.Passes ss c' := by
  obtain ⟨t, m, take, rfl, h⟩ := h
  exact ⟨t, m, take, rfl, rfl, h⟩

theorem Passes.takesFixed {kind : TokenKind} (h : c.Passes (.fixed kind :: ss) c') :
    ∃ t m, c.Takes t m ∧ t.kind = kind ∧ m.Passes ss c' := by
  obtain ⟨t, m, take, kind, -, h⟩ := h.takes
  exact ⟨t, m, take, kind, h⟩

theorem Passes.isAt {s : Terminal} (h : c.Passes (s :: ss) c') (kind : TokenKind) :
    c.isAt kind = (s.kind == kind) := by
  obtain ⟨t, m, ⟨here, -⟩, rfl, -⟩ := h
  simp [Cursor.isAt, here, Token.terminal]

theorem Passes.isAt_closing {kind close : TokenKind} (h : c.Passes (.fixed close :: ss) c')
    (closes : close.closesFields = true) (other : kind.closesFields = false) :
    c.isAt kind = false := by
  rw [h.isAt, beq_eq_false_iff_ne]
  rintro rfl
  exact absurd (closes.symm.trans other) (by decide)

theorem Passes.isAt_field {separator close : TokenKind} {field : FieldDerivation}
    {ds : List FieldDerivation}
    (h : c.Passes (fieldsTerminals separator (field :: ds) ++ ss) c')
    (closes : close.closesFields = true) : c.isAt close = false := by
  obtain ⟨label, d⟩ := field
  rw [fieldsTerminals_cons] at h
  rw [Passes.isAt h, beq_eq_false_iff_ne]
  rintro rfl
  exact absurd label.isLabel (Bool.eq_false_iff.1 (TokenKind.isLabel_eq_false closes))

theorem Passes.isAt_length {n : Option Numeral}
    (h : c.Passes (lengthTerminals n ++ .fixed .rightParen :: ss) c') :
    c.isAt .leftParen = false := by
  cases n with
  | none => exact Passes.isAt h _
  | some n => exact Passes.isAt h _

theorem Takes.nextIs (h : c.Takes t m) (kind : TokenKind) :
    c.nextIs kind = .ok (m.isAt kind) := by
  obtain ⟨-, moved⟩ := h
  unfold advance at moved
  unfold Cursor.nextIs
  split at moved
  case h_1 =>
    obtain rfl := Except.ok.inj moved
    rfl
  case h_2 =>
    obtain rfl := Except.ok.inj moved
    rfl
  case h_3 => cases moved

theorem Takes.startsField (h : c.Takes t m) :
    c.startsField = .ok (t.kind.isLabel && m.isAt .equals) := by
  have isAtLabel : c.isAtLabel = t.kind.isLabel := by rw [Cursor.isAtLabel, h.1]; rfl
  rw [Cursor.startsField, isAtLabel, h.nextIs]
  cases t.kind.isLabel with
  | true => rfl
  | false => rfl

theorem Passes.startsField_field {field : FieldDerivation} {ds : List FieldDerivation}
    (h : c.Passes (fieldsTerminals .equals (field :: ds) ++ ss) c') :
    c.startsField = .ok true := by
  obtain ⟨label, d⟩ := field
  rw [fieldsTerminals_cons] at h
  obtain ⟨t, m, take, kind, -, h⟩ := h.takes
  rw [take.startsField, h.isAt, kind, show label.terminal.kind.isLabel = true from label.isLabel]
  rfl

/-- After `{`, two terminals tell a type from fields. -/
theorem Passes.startsType {d : Derivation}
    (h : c.Passes (d.terminals ++ [.fixed .rightBrace]) c') :
    c.isAt .rightBrace = false ∧ c.startsField = .ok false := by
  obtain ⟨s, more, same, notClosing, notField⟩ := d.starts (.fixed .rightBrace) [] (by simp)
  rw [same] at h
  refine ⟨?_, ?_⟩
  · rw [h.isAt, beq_eq_false_iff_ne]
    intro same
    rw [same] at notClosing
    cases notClosing
  · obtain ⟨t, m, take, kind, -, h⟩ := h.takes
    rw [take.startsField, kind]
    cases isLabel : s.kind.isLabel with
    | false => rfl
    | true =>
        obtain ⟨s', ss, rfl, notEquals⟩ := notField isLabel
        rw [h.isAt]
        exact congrArg _ (by simpa using notEquals)

theorem Takes.spelled (h : c.Takes t c') (spelled : c.Spelled) : c'.Spelled := by
  obtain ⟨-, moved⟩ := h
  unfold advance at moved
  split at moved
  case h_1 rest =>
    obtain rfl := Except.ok.inj moved
    intro s present
    simp [rest] at present
  case h_2 next rest here =>
    obtain rfl := Except.ok.inj moved
    intro s present
    exact spelled s (.inr (by rw [here]; simpa [eq_comm] using present))
  case h_3 => cases moved

theorem Passes.spelled (h : c.Passes ss c') (spelled : c.Spelled) : c'.Spelled := by
  induction ss generalizing c with
  | nil =>
      obtain rfl := h
      exact spelled
  | cons s ss ih =>
      obtain ⟨t, next, take, -, h⟩ := h
      exact ih h (take.spelled spelled)

theorem Follows.trans (h : c.Follows ss m) (h' : m.Follows ss' c') :
    c.Follows (ss ++ ss') c' := by
  intro spelled
  have first := h spelled
  exact passes_append_iff.2 ⟨m, first, h' (first.spelled spelled)⟩

theorem Follows.nil : c.Follows [] c := fun _ => rfl

theorem Takes.cons (h : c.Takes t m) (after : m.Follows ss c') :
    c.Follows (t.terminal :: ss) c' :=
  fun spelled => ⟨t, m, h, rfl, after (h.spelled spelled)⟩

theorem Takes.fixed {kind : TokenKind} (h : c.Takes t m) (same : t.kind = kind)
    (isFixed : kind.isFixed = true) (after : m.Follows ss c') :
    c.Follows (.fixed kind :: ss) c' := by
  intro spelled
  subst same
  have text : t.terminal.Spelled := spelled t (.inl h.1)
  exact (text.eq_fixed isFixed) ▸ h.cons after spelled

theorem Takes.name (h : c.Takes t m) (isName : t.kind = .identifier) (after : m.Follows ss c') :
    c.Follows (.name t.text :: ss) c' := by
  have same : t.terminal = .name t.text := by rw [Token.terminal, isName]; rfl
  exact same ▸ h.cons after

end Cursor

def Reads {α : Type} (m : Reader α) (c : Cursor) (a : α) (c' : Cursor) : Prop :=
  m.run c = .ok (a, c')

namespace Reader

variable {α β : Type} {c c' : Cursor}

theorem reads_bind_iff {m : Reader α} {f : α → Reader β} {b : β} :
    Reads (m >>= f) c b c' ↔ ∃ a next, Reads m c a next ∧ Reads (f a) next b c' := by
  change (m.run c >>= fun p => (f p.1).run p.2) = .ok (b, c') ↔ _
  unfold Reads
  cases m.run c with
  | error e => simp [bind, Except.bind]
  | ok p =>
      obtain ⟨a, next⟩ := p
      exact ⟨fun h => ⟨a, next, rfl, h⟩, fun ⟨_, _, same, h⟩ => by cases same; exact h⟩

theorem reads_pure_iff {a b : α} : Reads (pure a) c b c' ↔ b = a ∧ c' = c := by
  change Except.ok (a, c) = .ok (b, c') ↔ _
  simp [eq_comm]

theorem not_reads_throw {e : ParseError} {a : α} : ¬ Reads (throw e) c a c' := by
  change Except.error e ≠ .ok (a, c')
  simp

theorem reads_get_bind_iff {f : Cursor → Reader β} {b : β} :
    Reads (get >>= f) c b c' ↔ Reads (f c) c b c' := Iff.rfl

theorem reads_lift_bind_iff {x : Except ParseError α} {f : α → Reader β} {b : β} :
    Reads ((liftM x : Reader α) >>= f) c b c' ↔ ∃ a, x = .ok a ∧ Reads (f a) c b c' := by
  cases x with
  | error e => exact ⟨fun h => (by cases h), fun ⟨_, h, _⟩ => (by cases h)⟩
  | ok a => exact ⟨fun h => ⟨a, rfl, h⟩, fun ⟨_, same, h⟩ => by cases same; exact h⟩

theorem reads_skip_iff {u : Unit} : Reads skip c u c' ↔ c.advance = .ok c' := by
  unfold skip
  rw [reads_get_bind_iff, reads_lift_bind_iff]
  constructor
  · rintro ⟨next, moved, same⟩
    cases same
    exact moved
  · intro moved
    exact ⟨c', moved, rfl⟩

theorem reads_spanFrom_iff {first span : Span} :
    Reads (spanFrom first) c span c' ↔ span = first.merge c.previous ∧ c' = c :=
  reads_pure_iff

theorem reads_takeIf_iff {accepts : TokenKind → Bool} {expected : String} {t : Token} :
    Reads (takeIf accepts expected) c t c' ↔ c.Takes t c' ∧ accepts t.kind = true := by
  unfold takeIf Cursor.Takes
  rw [reads_get_bind_iff]
  split
  case h_1 s here =>
    split
    case isTrue same =>
      simp only [reads_bind_iff, reads_skip_iff, reads_pure_iff]
      grind
    case isFalse => grind [not_reads_throw]
  case h_2 here => simp [not_reads_throw, here]

theorem reads_expect_iff {kind : TokenKind} {t : Token} :
    Reads (expect kind) c t c' ↔ c.Takes t c' ∧ t.kind = kind := by
  rw [expect, reads_takeIf_iff, beq_iff_eq]

theorem reads_label_iff {t : Token} :
    Reads label c t c' ↔ c.Takes t c' ∧ t.kind.isLabel = true :=
  reads_takeIf_iff

theorem reads_taken_iff {kind : TokenKind} {yes no : Reader α} {a : α} :
    Reads (do if ← taken kind then yes else no) c a c' ↔
      (∃ t next, c.Takes t next ∧ t.kind = kind ∧ Reads yes next a c') ∨
      (c.isAt kind = false ∧ Reads no c a c') := by
  unfold taken
  rw [bind_assoc, reads_get_bind_iff]
  cases isAt : c.isAt kind with
  | true =>
      obtain ⟨t, here, same⟩ := Cursor.isAt_eq_true_iff.1 isAt
      simp only [↓reduceIte, bind_assoc, pure_bind, reads_bind_iff, reads_skip_iff]
      constructor
      · rintro ⟨-, next, moved, h⟩
        exact .inl ⟨t, next, ⟨here, moved⟩, same, h⟩
      · rintro (⟨-, next, ⟨-, moved⟩, -, h⟩ | ⟨isAt, -⟩)
        · exact ⟨(), next, moved, h⟩
        · cases isAt
  | false =>
      simp only [Bool.false_eq_true, ↓reduceIte, pure_bind, true_and]
      constructor
      · exact .inr
      · rintro (⟨t, next, ⟨here, -⟩, same, -⟩ | h)
        · simp [Cursor.isAt, here, same] at isAt
        · exact h

theorem reads_numeral_iff {n : Nat} :
    Reads numeral c n c' ↔ ∃ t, (c.Takes t c' ∧ t.kind = .integer) ∧
      decimalValue t.text.toList ≤ maxLength ∧ n = decimalValue t.text.toList := by
  rw [numeral, reads_bind_iff]
  constructor
  · rintro ⟨t, next, expected, h⟩
    dsimp only at h
    split at h
    case isTrue fits =>
      obtain ⟨rfl, rfl⟩ := reads_pure_iff.1 h
      exact ⟨t, reads_expect_iff.1 expected, fits, rfl⟩
    case isFalse => exact absurd h not_reads_throw
  · rintro ⟨t, take, fits, rfl⟩
    refine ⟨t, c', reads_expect_iff.2 take, ?_⟩
    dsimp only
    rw [if_pos fits]
    exact reads_pure_iff.2 ⟨rfl, rfl⟩

theorem reads_braced_iff {first : Span} {fields : Reader (List FieldExpr)} {type : Reader Expr}
    {e : Expr} :
    Reads (braced first fields type) c e c' ↔
      (∃ close, (c.Takes close c' ∧ close.kind = .rightBrace) ∧
        e = .record [] (first.merge c'.previous)) ∨
      (c.isAt .rightBrace = false ∧ c.startsField = .ok true ∧
        ∃ fs, Reads fields c fs c' ∧ e = .record fs (first.merge c'.previous)) ∨
      (c.isAt .rightBrace = false ∧ c.startsField = .ok false ∧
        ∃ element next close, Reads type c element next ∧
          (next.Takes close c' ∧ close.kind = .rightBrace) ∧
          e = .array element none (first.merge c'.previous)) := by
  rw [braced, reads_taken_iff, reads_get_bind_iff, reads_lift_bind_iff, Bool.exists_bool]
  simp only [Bool.false_eq_true, ↓reduceIte, reads_bind_iff, reads_expect_iff,
    reads_spanFrom_iff, reads_pure_iff]
  grind

/-! ## Productions -/

/-- What reading the rest of a type gives after its first token `t`, of the given kind. -/
def ReadsAfter (fuel : Nat) (t : Token) (kind : TokenKind) (c : Cursor) (e : Expr)
    (c' : Cursor) : Prop :=
  let span := t.span.merge c'.previous
  match kind with
  | .identifier => e = .named t.text t.span ∧ c' = c
  | .leftBracket =>
      ∃ name next close, (c.Takes name next ∧ name.kind = .identifier) ∧
        (next.Takes close c' ∧ close.kind = .rightBracket) ∧ e = .matrix name.text span
  | .arrayTypeWord =>
      ∃ opening c₁ element c₂ length c₃ close, (c.Takes opening c₁ ∧ opening.kind = .leftParen) ∧
        Reads (type fuel) c₁ element c₂ ∧ Reads lengthAfterComma c₂ length c₃ ∧
        (c₃.Takes close c' ∧ close.kind = .rightParen) ∧ e = .array element length span
  | .leftBrace =>
      (∃ close, (c.Takes close c' ∧ close.kind = .rightBrace) ∧ e = .record [] span) ∨
      (c.isAt .rightBrace = false ∧ c.startsField = .ok true ∧
        ∃ fs, Reads (fields .equals .rightBrace fuel) c fs c' ∧ e = .record fs span) ∨
      (c.isAt .rightBrace = false ∧ c.startsField = .ok false ∧
        ∃ element next close, Reads (type fuel) c element next ∧
          (next.Takes close c' ∧ close.kind = .rightBrace) ∧ e = .array element none span)
  | .unionOpen =>
      ∃ fs, Reads (unlessClosed .unionClose (fields .equals .unionClose fuel)) c fs c' ∧
        e = .union fs span
  | .leftParen =>
      ∃ word c₁ opening c₂ params c₃ result c₄ close,
        (c.Takes word c₁ ∧ word.kind = .functionWord) ∧
        (c₁.Takes opening c₂ ∧ opening.kind = .leftParen) ∧
        Reads (unlessClosed .rightParen (fields .colon .rightParen fuel)) c₂ params c₃ ∧
        Reads (type fuel) c₃ result c₄ ∧
        (c₄.Takes close c' ∧ close.kind = .rightParen) ∧ e = .function params result span
  | .objectWord =>
      (c.isAt .leftParen = false ∧ e = .object .unconstrained t.span ∧ c' = c) ∨
      (∃ opening next close, (c.Takes opening next ∧ opening.kind = .leftParen) ∧
        (next.Takes close c' ∧ close.kind = .rightParen) ∧ e = .object .impossible span) ∨
      (∃ opening c₁ names c₂ close, (c.Takes opening c₁ ∧ opening.kind = .leftParen) ∧
        c₁.isAt .rightParen = false ∧ Reads (path fuel) c₁ names c₂ ∧
        (c₂.Takes close c' ∧ close.kind = .rightParen) ∧ e = .object (.named names) span)
  | _ => False

theorem reads_skip_bind_iff {m : Reader β} {b : β} {P : Cursor → Prop}
    (h : ∀ next, Reads m next b c' ↔ P next) :
    Reads (do skip; m) c b c' ↔ ∃ next, c.advance = .ok next ∧ P next := by
  simp only [reads_bind_iff, reads_skip_iff, h]
  exact ⟨fun ⟨_, h⟩ => h, fun h => ⟨(), h⟩⟩

theorem reads_type_iff {fuel : Nat} {e : Expr} :
    Reads (type (fuel + 1)) c e c' ↔
      ∃ t kind next, (c.Takes t next ∧ t.kind = kind) ∧ ReadsAfter fuel t kind next e c' := by
  rw [type, reads_get_bind_iff]
  cases here : c.current with
  | none => simp [Cursor.Takes, here, not_reads_throw]
  | some t =>
      have first :
          (∃ s kind next, (c.Takes s next ∧ s.kind = kind) ∧ ReadsAfter fuel s kind next e c') ↔
            ∃ next, c.advance = .ok next ∧ ReadsAfter fuel t t.kind next e c' := by
        grind [Cursor.Takes]
      rw [first]
      unfold ReadsAfter
      dsimp only
      cases t.kind
      case identifier => exact reads_skip_bind_iff fun next => reads_pure_iff
      case leftBracket | arrayTypeWord | unionOpen | leftParen =>
        refine reads_skip_bind_iff fun next => ?_
        simp only [reads_bind_iff, reads_expect_iff, reads_spanFrom_iff, reads_pure_iff]
        grind
      case leftBrace => exact reads_skip_bind_iff fun next => reads_braced_iff
      case objectWord =>
        refine reads_skip_bind_iff fun next => ?_
        simp only [reads_taken_iff]
        simp only [reads_bind_iff, reads_expect_iff, reads_spanFrom_iff, reads_pure_iff]
        grind
      all_goals simp [not_reads_throw]

theorem reads_fields_iff {separator close : TokenKind} {fuel : Nat} {es : List FieldExpr} :
    Reads (fields separator close (fuel + 1)) c es c' ↔
      ∃ name c₁ t c₂ content c₃, (c.Takes name c₁ ∧ name.kind.isLabel = true) ∧
        (c₁.Takes t c₂ ∧ t.kind = separator) ∧ Reads (type fuel) c₂ content c₃ ∧
        let field := FieldExpr.mk name.text content (name.span.merge content.span)
        ((∃ comma next more, (c₃.Takes comma next ∧ comma.kind = .comma) ∧
          Reads (fields separator close fuel) next more c' ∧ es = field :: more) ∨
        (c₃.isAt .comma = false ∧
          ∃ last, (c₃.Takes last c' ∧ last.kind = close) ∧ es = [field])) := by
  rw [fields]
  constructor
  · intro h
    obtain ⟨name, c₁, hLabel, h⟩ := reads_bind_iff.1 h
    obtain ⟨t, c₂, hSeparator, h⟩ := reads_bind_iff.1 h
    obtain ⟨content, c₃, hType, h⟩ := reads_bind_iff.1 h
    refine ⟨name, c₁, t, c₂, content, c₃, reads_label_iff.1 hLabel,
      reads_expect_iff.1 hSeparator, hType, ?_⟩
    rcases reads_taken_iff.1 h with ⟨comma, next, takeComma, isComma, h⟩ | ⟨notAt, h⟩
    · obtain ⟨more, _, reads, h⟩ := reads_bind_iff.1 h
      obtain ⟨rfl, rfl⟩ := reads_pure_iff.1 h
      exact .inl ⟨comma, next, more, ⟨takeComma, isComma⟩, reads, rfl⟩
    · obtain ⟨last, _, hClose, h⟩ := reads_bind_iff.1 h
      obtain ⟨rfl, rfl⟩ := reads_pure_iff.1 h
      exact .inr ⟨notAt, last, reads_expect_iff.1 hClose, rfl⟩
  · rintro ⟨name, c₁, t, c₂, content, c₃, hLabel, hSeparator, hType, h⟩
    refine reads_bind_iff.2 ⟨name, c₁, reads_label_iff.2 hLabel, reads_bind_iff.2
      ⟨t, c₂, reads_expect_iff.2 hSeparator, reads_bind_iff.2 ⟨content, c₃, hType,
        reads_taken_iff.2 ?_⟩⟩⟩
    rcases h with ⟨comma, next, more, ⟨takeComma, isComma⟩, reads, rfl⟩ | ⟨notAt, last, hClose, rfl⟩
    · exact .inl ⟨comma, next, takeComma, isComma,
        reads_bind_iff.2 ⟨more, c', reads, reads_pure_iff.2 ⟨rfl, rfl⟩⟩⟩
    · exact .inr ⟨notAt,
        reads_bind_iff.2 ⟨last, c', reads_expect_iff.2 hClose, reads_pure_iff.2 ⟨rfl, rfl⟩⟩⟩

end Reader

end DataflowTypes
