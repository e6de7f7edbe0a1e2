import DataflowTypes.Proofs.Expr.Parser
import DataflowTypes.Proofs.Token.Tiling

/-!
# Spans of expressions

An expression is read between two cursors, and its parts one after another between the same two,
behind its first token.  Main statement: the span of each part of what is read holds a text that
reads as this part, the spans of its own parts lie in it in order, and line and column are those
at which it starts.
-/

namespace DataflowTypes

/-! ## Parts of an expression -/

namespace FieldExpr

def label : FieldExpr → String
  | mk l _ _ => l

def type : FieldExpr → Expr
  | mk _ t _ => t

def span : FieldExpr → Span
  | mk _ _ s => s

end FieldExpr

namespace Expr

def fields : Expr → List FieldExpr
  | record fs _ | union fs _ | function fs _ _ => fs
  | _ => []

def children : Expr → List Expr
  | array e _ _ => [e]
  | record fs _ | union fs _ => fs.map FieldExpr.type
  | function ps r _ => ps.map FieldExpr.type ++ [r]
  | _ => []

inductive Within : Expr → Expr → Prop
  | self (e : Expr) : Within e e
  | child {f k e : Expr} (direct : k ∈ e.children) (within : Within f k) : Within f e

end Expr

/-! ## Cursors in a source -/

namespace Cursor

variable {source : String} {c c' m : Cursor} {t : Token} {ts : List Token} {ss : List Terminal}

def Moves : Cursor → List Token → Cursor → Prop
  | c, [], c' => c' = c
  | c, t :: ts, c' => ∃ next, c.Takes t next ∧ next.Moves ts c'

theorem Passes.moves (h : c.Passes ss c') : ∃ ts, c.Moves ts c' ∧ ts.map Token.terminal = ss := by
  induction ss generalizing c with
  | nil => exact ⟨[], h, rfl⟩
  | cons s ss ih =>
      obtain ⟨t, next, take, rfl, h⟩ := h
      obtain ⟨ts, moves, rfl⟩ := ih h
      exact ⟨t :: ts, ⟨next, take, moves⟩, rfl⟩

/-- The cursor stands in the source, and what it has passed ends before all that is to come. -/
structure Placed (source : String) (c : Cursor) : Prop where
  spelled : c.Spelled
  ahead : ∃ xs, tokenize source = xs ++ c.lexemes
  behind : ∀ x ∈ c.lexemes, c.previous.stop ≤ x.span.start

private theorem placed_start (h : start source = .ok c) : c.Placed source := by
  obtain ⟨lexemes, -, spelled⟩ := start_eq_ok h
  refine ⟨spelled, ⟨[], by rw [lexemes]; rfl⟩, ?_⟩
  have origin : c.previous.stop = 0 := by
    unfold start advance at h
    split at h
    case h_1 | h_2 => obtain rfl := Except.ok.inj h; rfl
    case h_3 => cases h
  rw [origin]
  exact fun x _ => Nat.zero_le _

theorem Takes.eq_of_moves {t' : Token} (h : c.Takes t m) (h' : c.Moves (t' :: ts) c') :
    t = t' := by
  obtain ⟨_, take, -⟩ := h'
  exact Option.some.inj (h.1.symm.trans take.1)

theorem Takes.lexemes (h : c.Takes t c') :
    c.lexemes = .token t :: c'.lexemes ∧ c'.previous = t.span := by
  obtain ⟨here, moved⟩ := h
  obtain ⟨rest, -⟩ := lexemes_advance moved
  refine ⟨by rw [rest, Cursor.lexemes, here]; rfl, ?_⟩
  unfold advance at moved
  split at moved
  case h_1 | h_2 =>
    obtain rfl := Except.ok.inj moved
    simp [here]
  case h_3 => cases moved

namespace Placed

theorem pairwise (h : c.Placed source) :
    c.lexemes.Pairwise fun x y => x.span.stop ≤ y.span.start := by
  obtain ⟨xs, ahead⟩ := h.ahead
  have all := @Scan.pairwise_scan (.ofString source) 0 source.toList
  rw [← tokenize, ahead] at all
  exact (List.pairwise_append.1 all).2.1

theorem mem_tokenize (h : c.Placed source) {x : Lexeme} (hx : x ∈ c.lexemes) :
    x ∈ tokenize source := by
  obtain ⟨xs, ahead⟩ := h.ahead
  rw [ahead]
  exact List.mem_append_right _ hx

theorem start_lt_stop (h : c.Placed source) {x : Lexeme} (hx : x ∈ c.lexemes) :
    x.span.start < x.span.stop :=
  (Scan.start_le_of_mem_scan (h.mem_tokenize hx)).2

theorem takes (h : c.Placed source) (take : c.Takes t c') : c'.Placed source := by
  obtain ⟨lexemes, previous⟩ := take.lexemes
  obtain ⟨xs, ahead⟩ := h.ahead
  have ordered := h.pairwise
  rw [lexemes, List.pairwise_cons] at ordered
  refine ⟨take.spelled h.spelled, ⟨xs ++ [.token t], by simp [ahead, lexemes]⟩, ?_⟩
  rw [previous]
  exact ordered.1

theorem moves (h : c.Placed source) (moves : c.Moves ts c') :
    c'.Placed source ∧ c.lexemes = ts.map .token ++ c'.lexemes ∧
      c'.previous = (ts.getLast?.map Token.span).getD c.previous := by
  induction ts generalizing c with
  | nil =>
      obtain rfl := moves
      exact ⟨h, rfl, rfl⟩
  | cons t ts ih =>
      obtain ⟨next, take, moves⟩ := moves
      obtain ⟨lexemes, previous⟩ := take.lexemes
      obtain ⟨placed, rest, last⟩ := ih (h.takes take) moves
      refine ⟨placed, by rw [lexemes, rest]; rfl, ?_⟩
      rw [last, previous]
      cases ts with
      | nil => rfl
      | cons t' ts => simp [List.getLast?_cons]

theorem mem_of_getLast? (h : c.Placed source) (moves : c.Moves ts c') {z : Token}
    (last : ts.getLast? = some z) : .token z ∈ c.lexemes := by
  obtain ⟨-, lexemes, -⟩ := h.moves moves
  rw [lexemes]
  exact List.mem_append_left _ (List.mem_map_of_mem (List.mem_of_getLast? last))

theorem follows (h : c.Placed source) (follows : c.Follows ss c') :
    c'.Placed source ∧ c.previous.stop ≤ c'.previous.stop := by
  obtain ⟨ts, moves, -⟩ := (follows h.spelled).moves
  obtain ⟨placed, -, last⟩ := h.moves moves
  refine ⟨placed, ?_⟩
  rw [last]
  cases found : ts.getLast? with
  | none => exact Nat.le_refl _
  | some z =>
      have member := h.mem_of_getLast? moves found
      exact Nat.le_trans (h.behind _ member) (Nat.le_of_lt (h.start_lt_stop member))

end Placed

end Cursor

/-! ## Reading parts in turn -/

namespace Reader

variable {source : String} {β : Type} {R : Cursor → β → Cursor → Prop} {c c' m : Cursor}
  {ss : List Terminal} {e : Expr} {fuel : Nat}

def ReadsType (c : Cursor) (e : Expr) (c' : Cursor) : Prop := ∃ fuel, Reads (type fuel) c e c'

def ReadsField (c : Cursor) (field : FieldExpr) (c' : Cursor) : Prop :=
  ∃ name c₁ t c₂, (c.Takes name c₁ ∧ name.kind.isLabel = true) ∧ c₁.Takes t c₂ ∧
    ReadsType c₂ field.type c' ∧ field.label = name.text ∧
    field.span = name.span.merge field.type.span

inductive InTurn (R : Cursor → β → Cursor → Prop) : Cursor → List β → Cursor → Prop
  | done {c c' : Cursor} {ss : List Terminal} (gap : c.Follows ss c') : InTurn R c [] c'
  | next {c c₁ c₂ c' : Cursor} {ss : List Terminal} {b : β} {bs : List β}
      (gap : c.Follows ss c₁) (read : R c₁ b c₂) (rest : InTurn R c₂ bs c') :
      InTurn R c (b :: bs) c'

namespace InTurn

variable {bs bs' : List β}

theorem after (gap : c.Follows ss m) (h : InTurn R m bs c') : InTurn R c bs c' := by
  cases h with
  | done gap' => exact .done (gap.trans gap')
  | next gap' read rest => exact .next (gap.trans gap') read rest

private theorem append (h : InTurn R c bs m) (h' : InTurn R m bs' c') :
    InTurn R c (bs ++ bs') c' := by
  induction h with
  | done gap => exact h'.after gap
  | next gap read _ ih => exact .next gap read (ih h')

theorem types {fs : List FieldExpr} (h : InTurn ReadsField c fs c') :
    InTurn ReadsType c (fs.map FieldExpr.type) c' := by
  induction h with
  | done gap => exact .done gap
  | next gap read _ ih =>
      obtain ⟨name, c₁, t, c₂, ⟨takeName, -⟩, take, content, -⟩ := read
      exact .next (gap.trans (takeName.cons (take.cons .nil))) content ih

end InTurn

theorem inTurn_fields {separator close : TokenKind} {es : List FieldExpr}
    (h : Reads (fields separator close fuel) c es c') : InTurn ReadsField c es c' := by
  induction fuel generalizing c es with
  | zero => exact absurd (reads_get_bind_iff.1 h) not_reads_throw
  | succ fuel ih =>
      obtain ⟨name, c₁, t, c₂, content, c₃, label, ⟨take, -⟩, hType, h⟩ := reads_fields_iff.1 h
      have read : ReadsField c (.mk name.text content (name.span.merge content.span)) c₃ :=
        ⟨name, c₁, t, c₂, label, take, ⟨fuel, hType⟩, rfl, rfl⟩
      rcases h with ⟨comma, c₄, more, ⟨takeComma, -⟩, hFields, rfl⟩ | ⟨-, last, ⟨takeClose, -⟩, rfl⟩
      · exact .next .nil read ((ih hFields).after (takeComma.cons .nil))
      · exact .next .nil read (.done (takeClose.cons .nil))

theorem inTurn_unlessClosed {separator close : TokenKind} {es : List FieldExpr}
    (h : Reads (unlessClosed close (fields separator close fuel)) c es c') :
    InTurn ReadsField c es c' := by
  rcases reads_taken_iff.1 h with ⟨t, next, take, -, h⟩ | ⟨-, h⟩
  · obtain ⟨rfl, rfl⟩ := reads_pure_iff.1 h
    exact .done (take.cons .nil)
  · exact inTurn_fields h

/-- Behind the first token of an expression its parts are read in turn, and its span goes from
this token to the last one. -/
theorem parts_of_reads_type (h : Reads (type (fuel + 1)) c e c') :
    ∃ t next, c.Takes t next ∧ e.span = t.span.merge c'.previous ∧
      (∃ m, InTurn ReadsField next e.fields m) ∧ InTurn ReadsType next e.children c' := by
  obtain ⟨t, kind, c₁, ⟨take, -⟩, h⟩ := reads_type_iff.1 h
  refine ⟨t, c₁, take, ?_⟩
  have single : t.span = t.span.merge c₁.previous := by
    rw [take.lexemes.2]
    simp [Span.merge]
  have noFields : ∃ m, InTurn ReadsField c₁ [] m := ⟨c₁, .done .nil⟩
  -- The cases are those of the first token, in the order of `ReadsAfter`.
  unfold ReadsAfter at h
  dsimp only at h
  split at h
  case h_1 =>
    obtain ⟨rfl, rfl⟩ := h
    exact ⟨single, noFields, .done .nil⟩
  case h_2 =>
    obtain ⟨name, c₂, close, ⟨takeName, -⟩, ⟨takeClose, -⟩, rfl⟩ := h
    exact ⟨rfl, noFields, .done (takeName.cons (takeClose.cons .nil))⟩
  case h_3 =>
    obtain ⟨opening, c₂, element, c₃, n, c₄, close, ⟨takeOpen, -⟩, hElement, hLength,
      ⟨takeClose, -⟩, rfl⟩ := h
    obtain ⟨numeral, length, -⟩ := follows_lengthAfterComma hLength
    exact ⟨rfl, noFields, .next (takeOpen.cons .nil) ⟨fuel, hElement⟩
      (.done (length.trans (takeClose.cons .nil)))⟩
  case h_4 =>
    rcases h with ⟨close, ⟨takeClose, -⟩, rfl⟩ | ⟨-, -, es, hFields, rfl⟩ |
      ⟨-, -, element, c₂, close, hElement, ⟨takeClose, -⟩, rfl⟩
    · exact ⟨rfl, noFields, .done (takeClose.cons .nil)⟩
    · exact ⟨rfl, ⟨c', inTurn_fields hFields⟩, (inTurn_fields hFields).types⟩
    · exact ⟨rfl, noFields, .next .nil ⟨fuel, hElement⟩ (.done (takeClose.cons .nil))⟩
  case h_5 =>
    obtain ⟨es, hFields, rfl⟩ := h
    have read := inTurn_unlessClosed hFields
    exact ⟨rfl, ⟨c', read⟩, read.types⟩
  case h_6 =>
    obtain ⟨word, c₂, opening, c₃, params, c₄, result, c₅, close, ⟨takeWord, -⟩, ⟨takeOpen, -⟩,
      hParams, hResult, ⟨takeClose, -⟩, rfl⟩ := h
    have read := (inTurn_unlessClosed hParams).after (takeWord.cons (takeOpen.cons .nil))
    exact ⟨rfl, ⟨c₄, read⟩, read.types.append
      (.next .nil ⟨fuel, hResult⟩ (.done (takeClose.cons .nil)))⟩
  case h_7 =>
    rcases h with ⟨-, rfl, rfl⟩ | ⟨opening, c₂, close, ⟨takeOpen, -⟩, ⟨takeClose, -⟩, rfl⟩ |
      ⟨opening, c₂, names, c₃, close, ⟨takeOpen, -⟩, -, hPath, ⟨takeClose, -⟩, rfl⟩
    · exact ⟨single, noFields, .done .nil⟩
    · exact ⟨rfl, noFields, .done (takeOpen.cons (takeClose.cons .nil))⟩
    · obtain ⟨-, followed⟩ := follows_path hPath
      exact ⟨rfl, noFields, .done (takeOpen.cons (followed.trans (takeClose.cons .nil)))⟩
  case h_8 => exact absurd h not_false

theorem ReadsType.parts (h : ReadsType c e c') :
    ∃ t next, c.Takes t next ∧ e.span = t.span.merge c'.previous ∧
      (∃ m, InTurn ReadsField next e.fields m) ∧ InTurn ReadsType next e.children c' := by
  obtain ⟨fuel, h⟩ := h
  cases fuel with
  | zero => exact absurd (reads_get_bind_iff.1 h) not_reads_throw
  | succ fuel => exact parts_of_reads_type h

end Reader

/-! ## Where parts stand -/

namespace Cursor.Placed

open Reader

variable {source : String} {c c' : Cursor} {t : Token} {ts : List Token} {e f : Expr}

theorem last (placed : c.Placed source) (moves : c.Moves (t :: ts) c') :
    ∃ z, (t :: ts).getLast? = some z ∧ c'.previous = z.span ∧
      t.span.start ≤ z.span.start ∧ t.span.stop ≤ z.span.stop := by
  obtain ⟨-, lexemes, previous⟩ := placed.moves moves
  obtain ⟨z, found⟩ : ∃ z, (t :: ts).getLast? = some z := ⟨_, List.getLast?_cons⟩
  refine ⟨z, found, by rw [previous, found]; rfl, ?_⟩
  have ordered := placed.pairwise
  rw [lexemes, List.map_cons, List.cons_append, List.pairwise_cons] at ordered
  rcases List.mem_cons.1 (List.mem_of_getLast? found) with rfl | later
  · exact ⟨Nat.le_refl _, Nat.le_refl _⟩
  · have later : .token z ∈ ts.map .token ++ c'.lexemes :=
      List.mem_append_left _ (List.mem_map_of_mem later)
    have apart : t.span.stop ≤ z.span.start := ordered.1 (.token z) later
    have first : t.span.start < t.span.stop :=
      placed.start_lt_stop (x := .token t) (by simp [lexemes])
    have final : z.span.start < z.span.stop :=
      placed.start_lt_stop (placed.mem_of_getLast? moves found)
    omega

theorem reads (placed : c.Placed source) (h : ReadsType c e c') :
    ∃ t ts d, c.Moves (t :: ts) c' ∧ (t :: ts).map Token.terminal = Derivation.terminals d ∧
      e.bare = d.expr ∧ e.span = { t.span with stop := c'.previous.stop } := by
  obtain ⟨t, next, take, span, -, -⟩ := h.parts
  obtain ⟨fuel, h⟩ := h
  obtain ⟨d, followed, denoted⟩ := (reads_follow fuel).1 h
  obtain ⟨ts, moves, terminals⟩ := (followed placed.spelled).moves
  cases ts with
  | nil => exact absurd terminals.symm d.terminals_ne_nil
  | cons t' ts =>
      obtain rfl := take.eq_of_moves moves
      refine ⟨t, ts, d, moves, terminals, denoted, ?_⟩
      obtain ⟨z, -, previous, starts, stops⟩ := placed.last moves
      rw [span, previous, Span.merge, if_pos starts, Nat.min_eq_left starts,
        Nat.max_eq_right stops]

theorem readsType (placed : c.Placed source) (h : ReadsType c e c') :
    c'.Placed source ∧ c.previous.stop ≤ e.span.start ∧ e.span.start < e.span.stop ∧
      e.span.stop = c'.previous.stop := by
  obtain ⟨t, ts, d, moves, -, -, span⟩ := placed.reads h
  obtain ⟨placed', lexemes, -⟩ := placed.moves moves
  obtain ⟨z, -, previous, -, stops⟩ := placed.last moves
  have first : .token t ∈ c.lexemes := by simp [lexemes]
  have behind : c.previous.stop ≤ t.span.start := placed.behind _ first
  have size : t.span.start < t.span.stop := placed.start_lt_stop first
  rw [span, previous]
  exact ⟨placed', behind, Nat.lt_of_lt_of_le size stops, rfl⟩

end Cursor.Placed

namespace Reader.InTurn

variable {source : String} {c c' : Cursor} {es : List Expr}

private theorem spans (placed : c.Placed source) (h : InTurn ReadsType c es c') :
    (∀ e ∈ es, c.previous.stop ≤ e.span.start ∧ e.span.stop ≤ c'.previous.stop) ∧
      es.Pairwise (fun e e' => e.span.stop ≤ e'.span.start) ∧
      c.previous.stop ≤ c'.previous.stop := by
  induction h with
  | done gap => exact ⟨by simp, .nil, (placed.follows gap).2⟩
  | @next c c₁ c₂ c' _ e es gap read _ ih =>
      obtain ⟨placed₁, before⟩ := placed.follows gap
      obtain ⟨placed₂, behind, size, stop⟩ := placed₁.readsType read
      obtain ⟨inside, ordered, after⟩ := ih placed₂
      refine ⟨List.forall_mem_cons.2 ⟨by omega, fun e' he' => ?_⟩,
        List.pairwise_cons.2 ⟨fun e' he' => ?_, ordered⟩, by omega⟩
      · have := inside e' he'
        omega
      · have := inside e' he'
        omega

theorem exists_of_mem {β : Type} {R : Cursor → β → Cursor → Prop} {bs : List β} {b : β}
    (step : ∀ c b c', c.Placed source → R c b c' → c'.Placed source) (placed : c.Placed source)
    (h : InTurn R c bs c') (hb : b ∈ bs) : ∃ c₁ c₂, c₁.Placed source ∧ R c₁ b c₂ := by
  induction h with
  | done => simp at hb
  | @next c c₁ c₂ c' _ b' bs gap read _ ih =>
      have placed₁ := (placed.follows gap).1
      rcases List.mem_cons.1 hb with rfl | hb
      · exact ⟨c₁, c₂, placed₁, read⟩
      · exact ih (step c₁ b' c₂ placed₁ read) hb

end Reader.InTurn

/-- The span of a field goes from its label, a separator before its type, to the end of it. -/
def FieldExpr.Delimited (field : FieldExpr) (source : String) : Prop :=
  ∃ label separator first before after,
    tokenize source = before ++ .token label :: .token separator :: .token first :: after ∧
      label.kind.isLabel = true ∧ label.text = field.label ∧
      first.span.start = field.type.span.start ∧
      field.span.start = label.span.start ∧ field.span.stop = field.type.span.stop ∧
      field.span.Located source

namespace Cursor.Placed

open Reader

variable {source : String} {c c' : Cursor} {e f : Expr} {field : FieldExpr}

theorem located (placed : c.Placed source) {x : Lexeme} (hx : x ∈ c.lexemes) :
    x.span.Located source := by
  obtain ⟨front, text, rest, kind?, split, -, rfl⟩ :=
    Scan.exists_of_mem_tokenize (placed.mem_tokenize hx)
  rw [Scan.span_lexemeAt]
  exact LineIndex.located_span (split.trans (List.append_assoc ..)) _

private theorem slice (placed : c.Placed source) (h : ReadsType c e c') :
    ∃ before text after, e.span.Frames source before text after ∧
      ∃ e', Expr.parse text = .ok e' ∧ e'.bare = e.bare := by
  obtain ⟨t, ts, d, moves, terminals, denoted, span⟩ := placed.reads h
  obtain ⟨-, lexemes, -⟩ := placed.moves moves
  obtain ⟨z, last, previous, -⟩ := placed.last moves
  obtain ⟨xs, ahead⟩ := placed.ahead
  rw [lexemes, ← List.append_assoc] at ahead
  obtain ⟨front, text, rest, split, start, stop, same⟩ := Scan.exists_slice (x := .token t)
    (z := .token z) ahead rfl (by rw [List.getLast?_map, last]; rfl)
  have derives : d.Derives (String.ofList text) := by
    rw [Derivation.Derives, same, ← terminals, List.map_map, List.map_map]
    rfl
  obtain ⟨e', parsed, bare⟩ := derives.parse
  refine ⟨_, _, _, Span.frames_ofList split ?_ ?_, e', parsed, bare.trans denoted.symm⟩
  · rw [span]
    exact start
  · rw [span, previous]
    exact stop

theorem readsField (placed : c.Placed source) (h : ReadsField c field c') :
    c'.Placed source ∧ field.Delimited source := by
  obtain ⟨name, c₁, t, c₂, ⟨takeName, isLabel⟩, take, read, label, span⟩ := h
  have placed₁ := placed.takes takeName
  have placed₂ := placed₁.takes take
  obtain ⟨placed', behind, size, -⟩ := placed₂.readsType read
  obtain ⟨first, ts, -, moves, -, -, place⟩ := placed₂.reads read
  obtain ⟨-, lexemes₂, -⟩ := placed₂.moves moves
  obtain ⟨lexemes, previous⟩ := takeName.lexemes
  obtain ⟨lexemes₁, -⟩ := take.lexemes
  obtain ⟨xs, ahead⟩ := placed.ahead
  refine ⟨placed', name, t, first, xs, ts.map .token ++ c'.lexemes, ?_, isLabel, label.symm, ?_⟩
  · rw [ahead, lexemes, lexemes₁, lexemes₂]
    rfl
  have here : .token name ∈ c.lexemes := by simp [lexemes]
  have nameSize : name.span.start < name.span.stop := placed.start_lt_stop here
  -- Between the label and the type only the separator is passed.
  have gap : name.span.stop ≤ c₂.previous.stop := by
    rw [← previous]
    exact (placed₁.follows (take.cons .nil)).2
  have merged : field.span = { name.span with stop := field.type.span.stop } := by
    rw [span, Span.merge, if_pos (by omega), Nat.min_eq_left (by omega),
      Nat.max_eq_right (by omega)]
  rw [merged]
  exact ⟨by rw [place], rfl, rfl, placed.located here⟩

theorem within (placed : c.Placed source) (h : ReadsType c e c') (part : f.Within e) :
    ∃ c₁ c₂, c₁.Placed source ∧ ReadsType c₁ f c₂ := by
  induction part generalizing c c' with
  | self => exact ⟨c, c', placed, h⟩
  | child direct _ ih =>
      obtain ⟨t, next, take, -, -, parts⟩ := h.parts
      obtain ⟨c₁, c₂, placed₁, read⟩ := parts.exists_of_mem
        (fun _ _ _ p r => (p.readsType r).1) (placed.takes take) direct
      exact ih placed₁ read

end Cursor.Placed

/-- Spans delimit their expressions: the text of a span reads as the expression that has it, and
the parts of an expression stand in its span, in order and apart from each other. -/
theorem Expr.spans_delimit {source : String} {e f : Expr} (h : Expr.parse source = .ok e)
    (within : f.Within e) :
    (∃ before text after, f.span.Frames source before text after ∧
        ∃ e', Expr.parse text = .ok e' ∧ e'.bare = f.bare) ∧
      (∃ x ∈ tokenize source, x.span.start = f.span.start) ∧
      (∃ z ∈ tokenize source, z.span.stop = f.span.stop) ∧
      (∀ k ∈ f.children, f.span.start ≤ k.span.start ∧ k.span.stop ≤ f.span.stop) ∧
      f.children.Pairwise (fun k k' => k.span.stop ≤ k'.span.start) ∧
      (∀ field ∈ f.fields, field.Delimited source) ∧
      f.span.Located source := by
  obtain ⟨c, c', start, read, -⟩ := Expr.parse_eq_ok_iff.1 h
  obtain ⟨c, c', placed, read⟩ := (Cursor.placed_start start).within ⟨_, read⟩ within
  obtain ⟨t, next, take, -, ⟨m, fields⟩, parts⟩ := read.parts
  obtain ⟨t', ts, -, moves, -, -, span⟩ := placed.reads read
  obtain rfl := take.eq_of_moves moves
  obtain ⟨lexemes, previous⟩ := take.lexemes
  have here : .token t ∈ c.lexemes := by simp [lexemes]
  obtain ⟨inside, ordered, -⟩ := parts.spans (placed.takes take)
  refine ⟨placed.slice read, ⟨.token t, placed.mem_tokenize here, ?_⟩, ?_, fun k hk => ?_, ordered,
    fun field hf => ?_, ?_⟩
  · rw [span]
    rfl
  · obtain ⟨z, last, final, -⟩ := placed.last moves
    refine ⟨.token z, placed.mem_tokenize (placed.mem_of_getLast? moves last), ?_⟩
    rw [span, final]
    rfl
  · have size : t.span.start < t.span.stop := placed.start_lt_stop here
    obtain ⟨starts, stops⟩ := inside k hk
    rw [previous] at starts
    rw [span]
    exact ⟨Nat.le_trans (Nat.le_of_lt size) starts, stops⟩
  · obtain ⟨c₁, c₂, placed₁, readField⟩ := fields.exists_of_mem
      (fun _ _ _ p r => (p.readsField r).1) (placed.takes take) hf
    exact (placed₁.readsField readField).2
  · rw [span]
    exact placed.located here

theorem Expr.spans_delimit_nested :
    ∃ e, Expr.parse "\x7ba = \x7bint\x7d,\n b = double\x7d" = .ok e ∧
      e.bare = .record [.mk "a" (.array (.named "int" {}) none {}) {},
        .mk "b" (.named "double" {}) {}] {} ∧
      (∀ field ∈ e.fields, field.Delimited "\x7ba = \x7bint\x7d,\n b = double\x7d") ∧
      ∀ k ∈ e.children, e.span.start ≤ k.span.start ∧ k.span.stop ≤ e.span.stop ∧
        ∃ before text after,
          k.span.Frames "\x7ba = \x7bint\x7d,\n b = double\x7d" before text after ∧
          ∃ e', Expr.parse text = .ok e' ∧ e'.bare = k.bare := by
  have derives : (Derivation.record [.mk ⟨.identifier, "a", rfl⟩ (.braced (.name "int")),
      .mk ⟨.identifier, "b", rfl⟩ (.name "double")]).Derives
        "\x7ba = \x7bint\x7d,\n b = double\x7d" := by
    unfold Derivation.Derives
    decide +kernel
  obtain ⟨e, h, bare⟩ := derives.parse
  obtain ⟨-, -, -, inside, -, fields, -⟩ := Expr.spans_delimit h (.self e)
  refine ⟨e, h, bare, fields, fun k hk => ⟨(inside k hk).1, (inside k hk).2, ?_⟩⟩
  exact (Expr.spans_delimit h (.child hk (.self k))).1

end DataflowTypes
