import DataflowTypes.Proofs.Expr.Reader

/-!
# The parser and the grammar

By induction on the fuel, what is read follows a derivation, and what can be derived is
read.  Main statement: a source is read exactly if its tokens have a derivation, and what
is read is what the derivation denotes.
-/

namespace DataflowTypes

namespace Reader

variable {c c' : Cursor}

/-! ## What is read can be derived -/

theorem follows_lengthAfterComma {n : Option Nat} (h : Reads lengthAfterComma c n c') :
    ∃ numeral : Option Numeral,
      c.Follows (lengthTerminals numeral) c' ∧ n = numeral.map Numeral.value := by
  rcases reads_taken_iff.1 h with ⟨t, next, take, kind, h⟩ | ⟨-, h⟩
  · obtain ⟨_, _, read, h⟩ := reads_bind_iff.1 h
    obtain ⟨rfl, rfl⟩ := reads_pure_iff.1 h
    obtain ⟨literal, ⟨takeLiteral, isInteger⟩, fits, rfl⟩ := reads_numeral_iff.1 read
    have same : literal.terminal = Numeral.terminal ⟨literal.text, fits⟩ := by
      rw [Token.terminal, isInteger]
      rfl
    exact ⟨some ⟨literal.text, fits⟩,
      take.fixed kind rfl (same ▸ takeLiteral.cons .nil), rfl⟩
  · obtain ⟨rfl, rfl⟩ := reads_pure_iff.1 h
    exact ⟨none, .nil, rfl⟩

theorem follows_path {fuel : Nat} {names : List String} (h : Reads (path fuel) c names c') :
    names ≠ [] ∧ c.Follows (pathTerminals names) c' := by
  induction fuel generalizing c names with
  | zero => exact absurd (reads_get_bind_iff.1 h) not_reads_throw
  | succ fuel ih =>
      obtain ⟨name, next, expected, h⟩ := reads_bind_iff.1 h
      obtain ⟨take, isName⟩ := reads_expect_iff.1 expected
      rcases reads_taken_iff.1 h with ⟨slash, next, takeSlash, isSlash, h⟩ | ⟨-, h⟩
      · obtain ⟨names, last, h, result⟩ := reads_bind_iff.1 h
        obtain ⟨rfl, rfl⟩ := reads_pure_iff.1 result
        obtain ⟨notNil, more⟩ := ih h
        obtain ⟨name', names, rfl⟩ := List.exists_cons_of_ne_nil notNil
        exact ⟨by simp, take.name isName (takeSlash.fixed isSlash rfl more)⟩
      · obtain ⟨rfl, rfl⟩ := reads_pure_iff.1 h
        exact ⟨by simp, take.name isName .nil⟩

/-- What reading a type with `fuel` gives is denoted by a derivation of the tokens read. -/
def TypeFollows (fuel : Nat) : Prop :=
  ∀ ⦃c c' : Cursor⦄ ⦃e : Expr⦄, Reads (type fuel) c e c' →
    ∃ d : Derivation, c.Follows d.terminals c' ∧ e.bare = d.expr

def FieldsFollow (fuel : Nat) : Prop :=
  ∀ ⦃separator close : TokenKind⦄ ⦃c c' : Cursor⦄ ⦃es : List FieldExpr⦄,
    separator.isFixed = true → close.isFixed = true →
    Reads (fields separator close fuel) c es c' →
      ∃ field ds, c.Follows (fieldsTerminals separator (field :: ds) ++ [.fixed close]) c' ∧
        bareFields es = fieldExprs (field :: ds)

theorem FieldsFollow.unlessClosed {fuel : Nat} (ih : FieldsFollow fuel)
    {separator close : TokenKind} {es : List FieldExpr} (fixed : separator.isFixed = true)
    (fixed' : close.isFixed = true)
    (h : Reads (unlessClosed close (fields separator close fuel)) c es c') :
    ∃ ds, c.Follows (fieldsTerminals separator ds ++ [.fixed close]) c' ∧
      bareFields es = fieldExprs ds := by
  rcases reads_taken_iff.1 h with ⟨t, next, take, kind, h⟩ | ⟨-, h⟩
  · obtain ⟨rfl, rfl⟩ := reads_pure_iff.1 h
    exact ⟨[], take.fixed kind fixed' .nil, rfl⟩
  · obtain ⟨field, ds, followed⟩ := ih fixed fixed' h
    exact ⟨field :: ds, followed⟩

private theorem fieldsFollow_succ {fuel : Nat} (ih : TypeFollows fuel) (ih' : FieldsFollow fuel) :
    FieldsFollow (fuel + 1) := by
  intro separator close c c' es fixed fixed' h
  obtain ⟨name, c₁, t, c₂, content, c₃, ⟨takeName, isLabel⟩, ⟨take, kind⟩, hType, h⟩ :=
    reads_fields_iff.1 h
  obtain ⟨d, followed, denoted⟩ := ih hType
  let label := Label.mk name.kind name.text isLabel
  have first {ss : List Terminal} {c' : Cursor} (after : c₃.Follows ss c') :
      c.Follows (label.terminal :: .fixed separator :: (d.terminals ++ ss)) c' :=
    takeName.cons (take.fixed kind fixed (followed.trans after))
  rcases h with ⟨comma, c₄, more, ⟨takeComma, isComma⟩, hFields, rfl⟩ |
    ⟨-, last, ⟨takeClose, isClose⟩, rfl⟩
  · obtain ⟨next, ds, followed', denotes⟩ := ih' fixed fixed' hFields
    refine ⟨.mk label d, next :: ds, ?_, by rw [bareFields, denoted, denotes]; rfl⟩
    simpa [fieldsTerminals_cons, moreTerminals] using
      first (takeComma.fixed isComma rfl followed')
  · refine ⟨.mk label d, [], ?_, by rw [bareFields, denoted]; rfl⟩
    simpa [fieldsTerminals_cons, moreTerminals] using
      first (takeClose.fixed isClose fixed' .nil)

private theorem typeFollows_succ {fuel : Nat} (ih : TypeFollows fuel) (ih' : FieldsFollow fuel) :
    TypeFollows (fuel + 1) := by
  intro c c' e h
  obtain ⟨t, kind, c₁, ⟨take, isFirst⟩, h⟩ := reads_type_iff.1 h
  unfold ReadsAfter at h
  dsimp only at h
  split at h
  case h_1 =>
    obtain ⟨rfl, rfl⟩ := h
    exact ⟨.name t.text, take.name isFirst .nil, rfl⟩
  case h_2 =>
    obtain ⟨name, c₂, close, ⟨takeName, isName⟩, ⟨takeClose, isClose⟩, rfl⟩ := h
    exact ⟨.matrix name.text, take.fixed isFirst rfl
      (takeName.name isName (takeClose.fixed isClose rfl .nil)), rfl⟩
  case h_3 =>
    obtain ⟨opening, c₂, element, c₃, n, c₄, close, ⟨takeOpen, isOpen⟩, hElement, hLength,
      ⟨takeClose, isClose⟩, rfl⟩ := h
    obtain ⟨d, followed, denoted⟩ := ih hElement
    obtain ⟨numeral, length, rfl⟩ := follows_lengthAfterComma hLength
    exact ⟨.sized d numeral, take.fixed isFirst rfl (takeOpen.fixed isOpen rfl
      (followed.trans (length.trans (takeClose.fixed isClose rfl .nil)))),
      by rw [Expr.bare, denoted]; rfl⟩
  case h_4 =>
    rcases h with ⟨close, ⟨takeClose, isClose⟩, rfl⟩ | ⟨-, -, es, hFields, rfl⟩ |
      ⟨-, -, element, c₂, close, hElement, ⟨takeClose, isClose⟩, rfl⟩
    · exact ⟨.record [], take.fixed isFirst rfl (takeClose.fixed isClose rfl .nil), rfl⟩
    · obtain ⟨d, ds, followed, denotes⟩ := ih' rfl rfl hFields
      exact ⟨.record (d :: ds), take.fixed isFirst rfl followed, by rw [Expr.bare, denotes]; rfl⟩
    · obtain ⟨d, followed, denoted⟩ := ih hElement
      exact ⟨.braced d, take.fixed isFirst rfl (followed.trans (takeClose.fixed isClose rfl .nil)),
        by rw [Expr.bare, denoted]; rfl⟩
  case h_5 =>
    obtain ⟨es, hFields, rfl⟩ := h
    obtain ⟨ds, followed, denotes⟩ := ih'.unlessClosed rfl rfl hFields
    exact ⟨.union ds, take.fixed isFirst rfl followed, by rw [Expr.bare, denotes]; rfl⟩
  case h_6 =>
    obtain ⟨word, c₂, opening, c₃, params, c₄, result, c₅, close, ⟨takeWord, isWord⟩,
      ⟨takeOpen, isOpen⟩, hParams, hResult, ⟨takeClose, isClose⟩, rfl⟩ := h
    obtain ⟨ds, followed, denotes⟩ := ih'.unlessClosed rfl rfl hParams
    obtain ⟨d, followed', denoted⟩ := ih hResult
    refine ⟨.function ds d, ?_, by rw [Expr.bare, denotes, denoted]; rfl⟩
    refine take.fixed isFirst rfl (takeWord.fixed isWord rfl (takeOpen.fixed isOpen rfl ?_))
    simpa using followed.trans (followed'.trans (takeClose.fixed isClose rfl .nil))
  case h_7 =>
    rcases h with ⟨-, rfl, rfl⟩ |
      ⟨opening, c₂, close, ⟨takeOpen, isOpen⟩, ⟨takeClose, isClose⟩, rfl⟩ |
      ⟨opening, c₂, names, c₃, close, ⟨takeOpen, isOpen⟩, -, hPath, ⟨takeClose, isClose⟩, rfl⟩
    · exact ⟨.object, take.fixed isFirst rfl .nil, rfl⟩
    · exact ⟨.objectOf [], take.fixed isFirst rfl (takeOpen.fixed isOpen rfl
        (takeClose.fixed isClose rfl .nil)), rfl⟩
    · obtain ⟨notNil, followed⟩ := follows_path hPath
      exact ⟨.objectOf names, take.fixed isFirst rfl (takeOpen.fixed isOpen rfl
        (followed.trans (takeClose.fixed isClose rfl .nil))),
        by simp [Expr.bare, Derivation.expr, notNil]⟩
  case h_8 => exact absurd h not_false

theorem reads_follow (fuel : Nat) : TypeFollows fuel ∧ FieldsFollow fuel := by
  induction fuel with
  | zero =>
      exact ⟨fun _ _ _ h => absurd (reads_get_bind_iff.1 h) not_reads_throw,
        fun _ _ _ _ _ _ _ h => absurd (reads_get_bind_iff.1 h) not_reads_throw⟩
  | succ fuel ih => exact ⟨typeFollows_succ ih.1 ih.2, fieldsFollow_succ ih.1 ih.2⟩

/-! ## What can be derived is read -/

private theorem reads_lengthTerminals {n : Option Numeral} (h : c.Passes (lengthTerminals n) c')
    (stop : c'.isAt .comma = false) : Reads lengthAfterComma c (n.map Numeral.value) c' := by
  refine reads_taken_iff.2 ?_
  cases n with
  | none =>
      obtain rfl := h
      exact .inr ⟨stop, reads_pure_iff.2 ⟨rfl, rfl⟩⟩
  | some n =>
      obtain ⟨comma, c₁, takeComma, isComma, -, h⟩ := h.takes
      obtain ⟨literal, c₂, take, isInteger, text, rfl⟩ := h.takes
      have fits : decimalValue literal.text.toList ≤ maxLength := text ▸ n.fits
      have read := reads_numeral_iff.2 ⟨literal, ⟨take, isInteger⟩, fits, rfl⟩
      rw [text] at read
      exact .inl ⟨comma, c₁, takeComma, isComma,
        reads_bind_iff.2 ⟨_, _, read, reads_pure_iff.2 ⟨rfl, rfl⟩⟩⟩

private theorem reads_pathTerminals {names : List String} {fuel : Nat} (notNil : names ≠ [])
    (h : c.Passes (pathTerminals names) c') (stop : c'.isAt .slash = false)
    (enough : (pathTerminals names).length ≤ fuel) : Reads (path fuel) c names c' := by
  induction fuel generalizing c names with
  | zero =>
      obtain ⟨first, names, rfl⟩ := List.exists_cons_of_ne_nil notNil
      simp [pathTerminals] at enough
  | succ fuel ih =>
      obtain ⟨first, names, rfl⟩ := List.exists_cons_of_ne_nil notNil
      rw [path]
      cases names with
      | nil =>
          obtain ⟨name, c₁, take, isName, rfl, rfl⟩ := h.takes
          exact reads_bind_iff.2 ⟨name, _, reads_expect_iff.2 ⟨take, isName⟩,
            reads_taken_iff.2 (.inr ⟨stop, reads_pure_iff.2 ⟨rfl, rfl⟩⟩)⟩
      | cons next names =>
          rw [pathTerminals_cons_cons] at h enough
          simp only [List.length_cons] at enough
          obtain ⟨name, c₁, take, isName, rfl, more⟩ := h.takes
          obtain ⟨slash, c₂, takeSlash, isSlash, -, more⟩ := more.takes
          have read := ih (by simp) more (by omega)
          exact reads_bind_iff.2 ⟨name, c₁, reads_expect_iff.2 ⟨take, isName⟩,
            reads_taken_iff.2 (.inl ⟨slash, c₂, takeSlash, isSlash,
              reads_bind_iff.2 ⟨next :: names, _, read, reads_pure_iff.2 ⟨rfl, rfl⟩⟩⟩)⟩

/-- A type of at most `fuel` tokens is read where it ends. -/
def TypeReads (fuel : Nat) : Prop :=
  ∀ ⦃c c' : Cursor⦄ ⦃d : Derivation⦄, d.terminals.length ≤ fuel → c.Passes d.terminals c' →
    c'.isAt .leftParen = false → ∃ e, Reads (type fuel) c e c' ∧ e.bare = d.expr

def FieldsRead (fuel : Nat) : Prop :=
  ∀ ⦃separator close : TokenKind⦄ ⦃c c' : Cursor⦄ ⦃field : FieldDerivation⦄
      ⦃ds : List FieldDerivation⦄,
    (fieldsTerminals separator (field :: ds)).length ≤ fuel →
    c.Passes (fieldsTerminals separator (field :: ds) ++ [.fixed close]) c' →
    close.closesFields = true →
      ∃ es, Reads (fields separator close fuel) c es c' ∧ bareFields es = fieldExprs (field :: ds)

private theorem fieldsRead_succ {fuel : Nat} (ih : TypeReads fuel) (ih' : FieldsRead fuel) :
    FieldsRead (fuel + 1) := by
  intro separator close c c' field ds enough h closes
  obtain ⟨label, d⟩ := field
  rw [fieldsTerminals_cons] at h enough
  simp only [List.length_cons, List.length_append] at enough
  simp only [List.cons_append, List.append_assoc] at h
  obtain ⟨name, c₁, takeName, kind, text, h⟩ := h.takes
  obtain ⟨t, c₂, take, isSeparator, h⟩ := h.takesFixed
  obtain ⟨c₃, hType, h⟩ := Cursor.passes_append_iff.1 h
  have isLabel : name.kind.isLabel = true := by rw [kind]; exact label.isLabel
  simp only [reads_fields_iff]
  cases ds with
  | nil =>
      obtain ⟨e, read, denoted⟩ := ih (by omega) hType (h.isAt_closing closes rfl)
      have notAt : c₃.isAt .comma = false := h.isAt_closing closes rfl
      obtain ⟨last, c₄, takeClose, isClose, rfl⟩ := h.takesFixed
      refine ⟨_, ⟨name, c₁, t, c₂, e, c₃, ⟨takeName, isLabel⟩, ⟨take, isSeparator⟩, read,
        .inr ⟨notAt, last, ⟨takeClose, isClose⟩, rfl⟩⟩, ?_⟩
      rw [bareFields, denoted, text]
      rfl
  | cons next ds =>
      rw [moreTerminals, List.length_cons] at enough
      obtain ⟨e, read, denoted⟩ := ih (by omega) hType (Cursor.Passes.isAt h _)
      obtain ⟨comma, c₄, takeComma, isComma, h⟩ := h.takesFixed
      obtain ⟨es, reads, denotes⟩ := ih' (by omega) h closes
      refine ⟨_, ⟨name, c₁, t, c₂, e, c₃, ⟨takeName, isLabel⟩, ⟨take, isSeparator⟩, read,
        .inl ⟨comma, c₄, es, ⟨takeComma, isComma⟩, reads, rfl⟩⟩, ?_⟩
      rw [bareFields, denoted, denotes, text]
      rfl

theorem FieldsRead.unlessClosed {fuel : Nat} (ih : FieldsRead fuel)
    {separator close : TokenKind} {ds : List FieldDerivation}
    (enough : (fieldsTerminals separator ds).length ≤ fuel)
    (h : c.Passes (fieldsTerminals separator ds ++ [.fixed close]) c')
    (closes : close.closesFields = true) :
    ∃ es, Reads (unlessClosed close (fields separator close fuel)) c es c' ∧
      bareFields es = fieldExprs ds := by
  cases ds with
  | nil =>
      obtain ⟨t, c₁, take, isClose, -, rfl⟩ := h.takes
      exact ⟨[], reads_taken_iff.2 (.inl ⟨t, _, take, isClose, reads_pure_iff.2 ⟨rfl, rfl⟩⟩), rfl⟩
  | cons field ds =>
      obtain ⟨es, read, denotes⟩ := ih enough h closes
      exact ⟨es, reads_taken_iff.2 (.inr ⟨h.isAt_field closes, read⟩), denotes⟩

private theorem typeReads_succ {fuel : Nat} (ih : TypeReads fuel) (ih' : FieldsRead fuel) :
    TypeReads (fuel + 1) := by
  intro c c' d enough h stop
  simp only [reads_type_iff]
  cases d with
  | name n =>
      obtain ⟨t, c₁, take, kind, rfl, rfl⟩ := h.takes
      exact ⟨.named t.text t.span, ⟨t, _, _, ⟨take, kind⟩, rfl, rfl⟩, rfl⟩
  | matrix e =>
      obtain ⟨t, c₁, take, kind, h⟩ := h.takesFixed
      obtain ⟨name, c₂, takeName, isName, rfl, h₂⟩ := h.takes
      obtain ⟨close, c₃, takeClose, isClose, rfl⟩ := h₂.takesFixed
      exact ⟨.matrix name.text _, ⟨t, _, c₁, ⟨take, kind⟩, name, c₂, close, ⟨takeName, isName⟩,
        ⟨takeClose, isClose⟩, rfl⟩, rfl⟩
  | sized e n =>
      simp only [Derivation.terminals, List.length_cons, List.length_append] at enough
      obtain ⟨t, c₁, take, kind, h⟩ := h.takesFixed
      obtain ⟨opening, c₂, takeOpen, isOpen, h⟩ := h.takesFixed
      obtain ⟨c₃, hElement, h⟩ := Cursor.passes_append_iff.1 h
      obtain ⟨element, read, denoted⟩ := ih (by omega) hElement h.isAt_length
      obtain ⟨c₄, hLength, h⟩ := Cursor.passes_append_iff.1 h
      have readLength := reads_lengthTerminals hLength (h.isAt_closing rfl rfl)
      obtain ⟨close, c₅, takeClose, isClose, rfl⟩ := h.takesFixed
      exact ⟨.array element (n.map Numeral.value) _, ⟨t, _, c₁, ⟨take, kind⟩, opening, c₂, element,
        c₃, _, c₄, close, ⟨takeOpen, isOpen⟩, read, readLength, ⟨takeClose, isClose⟩, rfl⟩,
        by rw [Expr.bare, denoted]; rfl⟩
  | braced e =>
      simp only [Derivation.terminals, List.length_cons, List.length_append] at enough
      obtain ⟨t, c₁, take, kind, h⟩ := h.takesFixed
      obtain ⟨notEmpty, notField⟩ := h.startsType
      obtain ⟨c₂, hElement, h⟩ := Cursor.passes_append_iff.1 h
      obtain ⟨element, read, denoted⟩ := ih (by omega) hElement (h.isAt_closing rfl rfl)
      obtain ⟨close, c₃, takeClose, isClose, rfl⟩ := h.takesFixed
      exact ⟨.array element none _, ⟨t, _, c₁, ⟨take, kind⟩, .inr (.inr ⟨notEmpty, notField,
        element, c₂, close, read, ⟨takeClose, isClose⟩, rfl⟩)⟩, by rw [Expr.bare, denoted]; rfl⟩
  | record fields =>
      simp only [Derivation.terminals, List.length_cons, List.length_append] at enough
      obtain ⟨t, c₁, take, kind, h⟩ := h.takesFixed
      cases fields with
      | nil =>
          obtain ⟨close, c₂, takeClose, isClose, rfl⟩ := h.takesFixed
          exact ⟨.record [] _, ⟨t, _, c₁, ⟨take, kind⟩, .inl ⟨close, ⟨takeClose, isClose⟩, rfl⟩⟩,
            rfl⟩
      | cons field fields =>
          obtain ⟨es, read, denotes⟩ := ih' (by omega) h rfl
          exact ⟨.record es _, ⟨t, _, c₁, ⟨take, kind⟩, .inr (.inl ⟨h.isAt_field rfl,
            h.startsField_field, es, read, rfl⟩)⟩, by rw [Expr.bare, denotes]; rfl⟩
  | union fields =>
      simp only [Derivation.terminals, List.length_cons, List.length_append] at enough
      obtain ⟨t, c₁, take, kind, h⟩ := h.takesFixed
      obtain ⟨es, read, denotes⟩ := ih'.unlessClosed (by omega) h rfl
      exact ⟨.union es _, ⟨t, _, c₁, ⟨take, kind⟩, es, read, rfl⟩, by rw [Expr.bare, denotes]; rfl⟩
  | function params result =>
      simp only [Derivation.terminals, List.length_cons, List.length_append] at enough
      obtain ⟨t, c₁, take, kind, h⟩ := h.takesFixed
      obtain ⟨word, c₂, takeWord, isWord, h⟩ := h.takesFixed
      obtain ⟨opening, c₃, takeOpen, isOpen, h⟩ := h.takesFixed
      rw [List.append_cons] at h
      obtain ⟨c₄, hParams, h⟩ := Cursor.passes_append_iff.1 h
      obtain ⟨c₅, hResult, h⟩ := Cursor.passes_append_iff.1 h
      obtain ⟨es, reads, denotes⟩ := ih'.unlessClosed (by omega) hParams rfl
      obtain ⟨e, read, denoted⟩ := ih (by omega) hResult (h.isAt_closing rfl rfl)
      obtain ⟨close, c₆, takeClose, isClose, rfl⟩ := h.takesFixed
      exact ⟨.function es e _, ⟨t, _, c₁, ⟨take, kind⟩, word, c₂, opening, c₃, es, c₄, e, c₅, close,
        ⟨takeWord, isWord⟩, ⟨takeOpen, isOpen⟩, reads, read, ⟨takeClose, isClose⟩, rfl⟩,
        by rw [Expr.bare, denotes, denoted]; rfl⟩
  | object =>
      obtain ⟨t, c₁, take, kind, rfl⟩ := h.takesFixed
      exact ⟨.object .unconstrained t.span, ⟨t, _, _, ⟨take, kind⟩, .inl ⟨stop, rfl, rfl⟩⟩, rfl⟩
  | objectOf names =>
      simp only [Derivation.terminals, List.length_cons, List.length_append] at enough
      obtain ⟨t, c₁, take, kind, h⟩ := h.takesFixed
      obtain ⟨opening, c₂, takeOpen, isOpen, h⟩ := h.takesFixed
      cases names with
      | nil =>
          obtain ⟨close, c₃, takeClose, isClose, rfl⟩ := h.takesFixed
          exact ⟨.object .impossible _, ⟨t, _, c₁, ⟨take, kind⟩, .inr (.inl ⟨opening, c₂, close,
            ⟨takeOpen, isOpen⟩, ⟨takeClose, isClose⟩, rfl⟩)⟩, rfl⟩
      | cons name names =>
          have notEmpty : c₂.isAt .rightParen = false := Cursor.Passes.isAt h _
          obtain ⟨c₃, hPath, h⟩ := Cursor.passes_append_iff.1 h
          have read : Reads (path fuel) c₂ (name :: names) c₃ :=
            reads_pathTerminals (by simp) hPath (h.isAt_closing rfl rfl) (by omega)
          obtain ⟨close, c₄, takeClose, isClose, rfl⟩ := h.takesFixed
          exact ⟨.object (.named (name :: names)) _, ⟨t, _, c₁, ⟨take, kind⟩,
            .inr (.inr ⟨opening, c₂, _, c₃, close, ⟨takeOpen, isOpen⟩, notEmpty, read,
              ⟨takeClose, isClose⟩, rfl⟩)⟩, rfl⟩

theorem derived_reads (fuel : Nat) : TypeReads fuel ∧ FieldsRead fuel := by
  induction fuel with
  | zero =>
      refine ⟨fun _ _ d enough => ?_, fun _ _ _ _ field _ enough => ?_⟩
      · exact absurd (List.eq_nil_of_length_eq_zero (Nat.le_zero.1 enough)) d.terminals_ne_nil
      · obtain ⟨label, d⟩ := field
        rw [fieldsTerminals_cons] at enough
        simp at enough
  | succ fuel ih => exact ⟨typeReads_succ ih.1 ih.2, fieldsRead_succ ih.1 ih.2⟩

end Reader

/-! ## Whole sources -/

namespace Cursor

variable {c c' : Cursor} {ss : List Terminal}

def lexemes (c : Cursor) : List Lexeme := c.current.toList.map .token ++ c.rest

theorem length_lexemes_le (c : Cursor) : c.lexemes.length ≤ c.remaining := by
  cases here : c.current <;> simp [lexemes, here, remaining]

def Settled (c : Cursor) : Prop := c.current = none → c.rest = []

theorem lexemes_advance (h : c.advance = .ok c') : c'.lexemes = c.rest ∧ c'.Settled := by
  unfold advance at h
  split at h
  case h_1 rest =>
    obtain rfl := Except.ok.inj h
    exact ⟨by simp [lexemes, rest], fun _ => rest⟩
  case h_2 t rest here =>
    obtain rfl := Except.ok.inj h
    exact ⟨by simp [lexemes, here], by simp [Settled]⟩
  case h_3 => cases h

theorem exists_advance (h : c.rest.map Lexeme.terminal? = ss.map some) :
    ∃ c', c.advance = .ok c' := by
  unfold advance
  split
  case h_1 => exact ⟨_, rfl⟩
  case h_2 => exact ⟨_, rfl⟩
  case h_3 s rest here =>
    rw [here] at h
    cases ss <;> simp [Lexeme.terminal?] at h

theorem passes_to_end_iff (settled : c.Settled) :
    (∃ c', c.Passes ss c' ∧ c'.current = none) ↔
      c.lexemes.map Lexeme.terminal? = ss.map some := by
  induction ss generalizing c with
  | nil =>
      constructor
      · rintro ⟨_, rfl, atEnd⟩
        simp [lexemes, atEnd, settled atEnd]
      · intro h
        exact ⟨c, rfl, by simp_all [lexemes]⟩
  | cons s ss ih =>
      constructor
      · rintro ⟨c', ⟨t, next, ⟨here, moved⟩, rfl, h⟩, atEnd⟩
        obtain ⟨same, settled'⟩ := lexemes_advance moved
        have more := (ih settled').1 ⟨c', h, atEnd⟩
        rw [same] at more
        simp [lexemes, here, more, Lexeme.terminal?]
      · intro h
        cases here : c.current with
        | none => simp [lexemes, here, settled here] at h
        | some t =>
            simp only [lexemes, here, Option.toList_some, List.map_cons, List.map_nil,
              List.cons_append, List.nil_append, List.cons.injEq, Lexeme.terminal?,
              Option.some.injEq] at h
            obtain ⟨rfl, h⟩ := h
            obtain ⟨next, moved⟩ := exists_advance h
            obtain ⟨same, settled'⟩ := lexemes_advance moved
            obtain ⟨c', passes, atEnd⟩ := (ih settled').2 (by rw [same, h])
            exact ⟨c', ⟨t, next, ⟨here, moved⟩, rfl, passes⟩, atEnd⟩

end Cursor

theorem Reader.reads_wholeType_iff {c c' : Cursor} {e : Expr} :
    Reads wholeType c e c' ↔ Reads (type c.remaining) c e c' ∧ c'.current = none := by
  unfold wholeType
  rw [reads_get_bind_iff, reads_bind_iff]
  constructor
  · rintro ⟨e', m, read, h⟩
    rw [reads_get_bind_iff] at h
    split at h
    case h_1 atEnd =>
      obtain ⟨rfl, rfl⟩ := reads_pure_iff.1 h
      exact ⟨read, atEnd⟩
    case h_2 => exact absurd h not_reads_throw
  · rintro ⟨read, atEnd⟩
    refine ⟨e, c', read, ?_⟩
    rw [reads_get_bind_iff, atEnd]
    exact reads_pure_iff.2 ⟨rfl, rfl⟩

theorem Expr.parse_eq_ok_iff {source : String} {e : Expr} :
    Expr.parse source = .ok e ↔
      ∃ c c', Cursor.start source = .ok c ∧ Reads (Reader.type c.remaining) c e c' ∧
        c'.current = none := by
  unfold Expr.parse
  cases Cursor.start source with
  | error => simp [bind, Except.bind]
  | ok c =>
      change Prod.fst <$> Reader.wholeType.run c = .ok e ↔ _
      simp only [Except.ok.injEq, exists_and_left, exists_eq_left', ← Reader.reads_wholeType_iff]
      unfold Reads
      cases Reader.wholeType.run c with
      | error => simp [Functor.map, Except.map]
      | ok p =>
          obtain ⟨e', c'⟩ := p
          simp [Functor.map, Except.map]

theorem Cursor.start_eq_ok {source : String} {c : Cursor} (h : Cursor.start source = .ok c) :
    c.lexemes = tokenize source ∧ c.Settled ∧ c.Spelled := by
  obtain ⟨lexemes, settled⟩ := lexemes_advance h
  refine ⟨lexemes, settled, fun t present => ?_⟩
  have found : .token t ∈ c.lexemes := by
    rcases present with here | present
    · simp [Cursor.lexemes, here]
    · simp [Cursor.lexemes, present]
  rw [lexemes] at found
  exact spelled_of_mem_tokenize found

theorem Derivation.Derives.parse {d : Derivation} {source : String} (h : d.Derives source) :
    ∃ e, Expr.parse source = .ok e ∧ e.bare = d.expr := by
  obtain ⟨c, start⟩ : ∃ c, Cursor.start source = .ok c := Cursor.exists_advance h
  obtain ⟨lexemes, settled, -⟩ := Cursor.start_eq_ok start
  obtain ⟨c', passes, atEnd⟩ := (Cursor.passes_to_end_iff settled).2 (by rw [lexemes]; exact h)
  have enough : d.terminals.length ≤ c.remaining := by
    have same : (tokenize source).length = d.terminals.length := by
      simpa using congrArg List.length h
    rw [← same, ← lexemes]
    exact c.length_lexemes_le
  obtain ⟨e, read, denoted⟩ := (Reader.derived_reads c.remaining).1 enough passes
    (by rw [Cursor.isAt, atEnd]; rfl)
  exact ⟨e, Expr.parse_eq_ok_iff.2 ⟨c, c', start, read, atEnd⟩, denoted⟩

theorem Expr.exists_derives {source : String} {e : Expr} (h : Expr.parse source = .ok e) :
    ∃ d : Derivation, d.Derives source ∧ e.bare = d.expr := by
  obtain ⟨c, c', start, read, atEnd⟩ := Expr.parse_eq_ok_iff.1 h
  obtain ⟨lexemes, settled, spelled⟩ := Cursor.start_eq_ok start
  obtain ⟨d, followed, denoted⟩ := (Reader.reads_follow c.remaining).1 read
  refine ⟨d, ?_, denoted⟩
  rw [Derivation.Derives, ← lexemes]
  exact (Cursor.passes_to_end_iff settled).1 ⟨c', followed spelled, atEnd⟩

/-- A source is read exactly if its tokens can be derived.  The derivation is then the only
one, and what is read is, but for spans, what it denotes. -/
theorem Expr.parse_iff_derives (source : String) :
    ((∃ e, Expr.parse source = .ok e) ↔ ∃ d : Derivation, d.Derives source) ∧
    ∀ e, Expr.parse source = .ok e →
      ∃ d : Derivation, d.Derives source ∧ e.bare = d.expr ∧
        ∀ d' : Derivation, d'.Derives source → d' = d := by
  refine ⟨⟨?_, ?_⟩, ?_⟩
  · rintro ⟨e, h⟩
    obtain ⟨d, derives, -⟩ := Expr.exists_derives h
    exact ⟨d, derives⟩
  · rintro ⟨d, derives⟩
    obtain ⟨e, h, -⟩ := derives.parse
    exact ⟨e, h⟩
  · intro e h
    obtain ⟨d, derives, denoted⟩ := Expr.exists_derives h
    exact ⟨d, derives, denoted, fun d' h' => h'.unique derives⟩

theorem Expr.parse_iff_derives_object :
    (∃ e, Expr.parse "\x7bobject\x7d" = .ok e ∧
      e.bare = .array (.object .unconstrained {}) none {}) ∧
    ∃ e, Expr.parse "\x7bobject = int\x7d" = .ok e ∧
      e.bare = .record [.mk "object" (.named "int" {}) {}] {} := by
  have array : (Derivation.braced .object).Derives "\x7bobject\x7d" := by
    unfold Derivation.Derives
    decide +kernel
  have record : (Derivation.record [.mk ⟨.objectWord, "object", rfl⟩ (.name "int")]).Derives
      "\x7bobject = int\x7d" := by
    unfold Derivation.Derives
    decide +kernel
  constructor
  · obtain ⟨e, h⟩ := (Expr.parse_iff_derives _).1.2 ⟨_, array⟩
    obtain ⟨d, -, denoted, only⟩ := (Expr.parse_iff_derives _).2 e h
    exact ⟨e, h, by rw [denoted, ← only _ array]; rfl⟩
  · obtain ⟨e, h⟩ := (Expr.parse_iff_derives _).1.2 ⟨_, record⟩
    obtain ⟨d, -, denoted, only⟩ := (Expr.parse_iff_derives _).2 e h
    exact ⟨e, h, by rw [denoted, ← only _ record]; rfl⟩

end DataflowTypes
