import DataflowTypes.Expr.Parser
import DataflowTypes.Proofs.Token.Scan

/-!
# The grammar of type expressions

A derivation is a tree with one constructor for each production of the grammar.  It
has the terminals that it derives, from left to right, and denotes an expression
without spans.  Main statement: the grammar is unambiguous, so a list of terminals has
at most one derivation.  This needs no lookahead but for `{`, after which the first two
terminals tell a record from an array.
-/

namespace DataflowTypes

structure Label where
  kind : TokenKind
  text : String
  isLabel : kind.isLabel = true

def Label.terminal (l : Label) : Terminal := ⟨l.kind, l.text⟩

@[simp] theorem Label.terminal_inj {l l' : Label} : l.terminal = l'.terminal ↔ l = l' := by
  cases l
  cases l'
  simp [terminal]

structure Numeral where
  text : String
  fits : Reader.decimalValue text.toList ≤ Reader.maxLength

namespace Numeral

def terminal (n : Numeral) : Terminal := ⟨.integer, n.text⟩

def value (n : Numeral) : Nat := Reader.decimalValue n.text.toList

@[simp] theorem terminal_inj {n n' : Numeral} : n.terminal = n'.terminal ↔ n = n' := by
  cases n
  cases n'
  simp [terminal]

end Numeral

/-! ## Derivations -/

mutual

inductive Derivation where
  | name (name : String)
  | matrix (element : String)
  | sized (element : Derivation) (length : Option Numeral)
  | braced (element : Derivation)
  | record (fields : List FieldDerivation)
  | union (fields : List FieldDerivation)
  | function (params : List FieldDerivation) (result : Derivation)
  | object
  | objectOf (path : List String)

/-- A derivation from `field` or `param`, which differ in the separator only. -/
inductive FieldDerivation where
  | mk (label : Label) (type : Derivation)

end

def pathTerminals : List String → List Terminal
  | [] => []
  | name :: names =>
      .name name :: match names with
        | [] => []
        | _ :: _ => .fixed .slash :: pathTerminals names

@[simp] theorem pathTerminals_single (name : String) : pathTerminals [name] = [.name name] := rfl

@[simp] theorem pathTerminals_cons_cons (name next : String) (names : List String) :
    pathTerminals (name :: next :: names) =
      .name name :: .fixed .slash :: pathTerminals (next :: names) := rfl

def lengthTerminals : Option Numeral → List Terminal
  | none => []
  | some n => [.fixed .comma, n.terminal]

mutual

def Derivation.terminals : Derivation → List Terminal
  | .name n => [.name n]
  | .matrix e => [.fixed .leftBracket, .name e, .fixed .rightBracket]
  | .sized e n =>
      .fixed .arrayTypeWord :: .fixed .leftParen ::
        (e.terminals ++ (lengthTerminals n ++ [.fixed .rightParen]))
  | .braced e => .fixed .leftBrace :: (e.terminals ++ [.fixed .rightBrace])
  | .record fields =>
      .fixed .leftBrace :: (fieldsTerminals .equals fields ++ [.fixed .rightBrace])
  | .union fields =>
      .fixed .unionOpen :: (fieldsTerminals .equals fields ++ [.fixed .unionClose])
  | .function params result =>
      .fixed .leftParen :: .fixed .functionWord :: .fixed .leftParen ::
        (fieldsTerminals .colon params ++
          .fixed .rightParen :: (result.terminals ++ [.fixed .rightParen]))
  | .object => [.fixed .objectWord]
  | .objectOf path =>
      .fixed .objectWord :: .fixed .leftParen :: (pathTerminals path ++ [.fixed .rightParen])

def fieldsTerminals (separator : TokenKind) : List FieldDerivation → List Terminal
  | [] => []
  | .mk label type :: fields =>
      label.terminal :: .fixed separator :: (type.terminals ++
        match fields with
        | [] => []
        | _ :: _ => .fixed .comma :: fieldsTerminals separator fields)

end

def moreTerminals (separator : TokenKind) : List FieldDerivation → List Terminal
  | [] => []
  | field :: fields => .fixed .comma :: fieldsTerminals separator (field :: fields)

theorem fieldsTerminals_cons (separator : TokenKind) (label : Label) (type : Derivation)
    (fields : List FieldDerivation) :
    fieldsTerminals separator (.mk label type :: fields) =
      label.terminal :: .fixed separator ::
        (type.terminals ++ moreTerminals separator fields) := by
  cases fields <;> rfl

mutual

def Derivation.expr : Derivation → Expr
  | .name n => .named n {}
  | .matrix e => .matrix e {}
  | .sized e n => .array e.expr (n.map Numeral.value) {}
  | .braced e => .array e.expr none {}
  | .record fields => .record (fieldExprs fields) {}
  | .union fields => .union (fieldExprs fields) {}
  | .function params result => .function (fieldExprs params) result.expr {}
  | .object => .object .unconstrained {}
  | .objectOf path => .object (if path.isEmpty then .impossible else .named path) {}

def fieldExprs : List FieldDerivation → List FieldExpr
  | [] => []
  | .mk label type :: fields => .mk label.text type.expr {} :: fieldExprs fields

end

mutual

def Expr.bare : Expr → Expr
  | .named n _ => .named n {}
  | .matrix e _ => .matrix e {}
  | .array e n _ => .array e.bare n {}
  | .record fields _ => .record (bareFields fields) {}
  | .union fields _ => .union (bareFields fields) {}
  | .function params result _ => .function (bareFields params) result.bare {}
  | .object c _ => .object c {}

def bareFields : List FieldExpr → List FieldExpr
  | [] => []
  | .mk label type _ :: fields => .mk label type.bare {} :: bareFields fields

end

/-! ## Unambiguity -/

/-- A type can end here: an `object` does not go on. -/
def Stops (rest : List Terminal) : Prop := ∀ t ∈ rest.head?, t.kind ≠ .leftParen

def TokenKind.closesFields : TokenKind → Bool
  | .rightBrace | .unionClose | .rightParen => true
  | _ => false

theorem TokenKind.isLabel_eq_false {kind : TokenKind} (h : kind.closesFields = true) :
    kind.isLabel = false := by
  cases kind
  case rightBrace | unionClose | rightParen => rfl
  all_goals cases h

def Closes (rest : List Terminal) : Prop :=
  ∃ t more, rest = t :: more ∧ t.kind.closesFields = true

theorem stops_nil : Stops [] := by simp [Stops]

theorem stops_fixed {kind : TokenKind} (h : kind ≠ .leftParen) (rest : List Terminal) :
    Stops (.fixed kind :: rest) := by
  simpa [Stops] using h

theorem Stops.ne_leftParen {rest : List Terminal} (h : Stops rest) (more : List Terminal) :
    rest ≠ .fixed .leftParen :: more := by
  rintro rfl
  exact h _ rfl rfl

theorem stops_length (n : Option Numeral) (rest : List Terminal) :
    Stops (lengthTerminals n ++ .fixed .rightParen :: rest) := by
  cases n <;> exact stops_fixed (by decide) _

theorem Closes.stops {rest : List Terminal} (h : Closes rest) : Stops rest := by
  obtain ⟨t, more, rfl, closes⟩ := h
  intro s head kind
  obtain rfl : t = s := by simpa using head
  rw [kind] at closes
  cases closes

theorem closes_fixed {kind : TokenKind} (h : kind.closesFields = true) (rest : List Terminal) :
    Closes (.fixed kind :: rest) :=
  ⟨.fixed kind, rest, rfl, h⟩

theorem Closes.stops_more {rest : List Terminal} (h : Closes rest) (separator : TokenKind)
    (fields : List FieldDerivation) : Stops (moreTerminals separator fields ++ rest) := by
  cases fields with
  | nil => exact h.stops
  | cons => exact stops_fixed (by decide) _

theorem Closes.ne_label {rest : List Terminal} (h : Closes rest) (label : Label)
    (more : List Terminal) : rest ≠ label.terminal :: more := by
  rintro rfl
  obtain ⟨t, more, h, closes⟩ := h
  obtain ⟨rfl, -⟩ := List.cons.inj h
  exact absurd label.isLabel (Bool.eq_false_iff.1 (TokenKind.isLabel_eq_false closes))

theorem Closes.ne_comma {rest : List Terminal} (h : Closes rest) (more : List Terminal) :
    rest ≠ .fixed .comma :: more := by
  rintro rfl
  obtain ⟨t, more, h, closes⟩ := h
  obtain ⟨rfl, -⟩ := List.cons.inj h
  cases closes

private theorem lengthTerminals_unique {n n' : Option Numeral} {rest rest' : List Terminal}
    (h : lengthTerminals n ++ .fixed .rightParen :: rest =
      lengthTerminals n' ++ .fixed .rightParen :: rest') : n = n' ∧ rest = rest' := by
  cases n with
  | none =>
      cases n' with
      | none => simpa [lengthTerminals] using h
      | some n' => simp [lengthTerminals] at h
  | some n =>
      cases n' with
      | none => simp [lengthTerminals] at h
      | some n' => simpa [lengthTerminals] using h

private theorem pathTerminals_unique {path path' : List String} {rest rest' : List Terminal}
    (h : pathTerminals path ++ .fixed .rightParen :: rest =
      pathTerminals path' ++ .fixed .rightParen :: rest') : path = path' ∧ rest = rest' := by
  induction path generalizing path' with
  | nil =>
      cases path' with
      | nil => simpa [pathTerminals] using h
      | cons => simp [pathTerminals] at h
  | cons name names ih =>
      cases path' with
      | nil => simp [pathTerminals] at h
      | cons name' names' =>
          cases names with
          | nil =>
              cases names' with
              | nil => simpa using h
              | cons => simp at h
          | cons =>
              cases names' with
              | nil => simp at h
              | cons =>
                  simp only [pathTerminals_cons_cons, List.cons_append, List.cons.injEq,
                    Terminal.name_inj, true_and] at h
                  obtain ⟨rfl, h⟩ := h
                  obtain ⟨same, rfl⟩ := ih h
                  exact ⟨by rw [same], rfl⟩

namespace Derivation

theorem terminals_ne_nil (d : Derivation) : d.terminals ≠ [] := by
  cases d <;> simp [terminals]

/-- A type starts neither with a closing token nor, if `=` does not follow it, with a label
and `=`. -/
theorem starts (d : Derivation) (after : Terminal) (rest : List Terminal)
    (follow : after.kind ≠ .equals) :
    ∃ t more, d.terminals ++ after :: rest = t :: more ∧ t.kind.closesFields = false ∧
      (t.kind.isLabel = true → ∃ s ss, more = s :: ss ∧ s.kind ≠ .equals) := by
  cases d with
  | name => exact ⟨_, _, rfl, rfl, fun _ => ⟨_, _, rfl, follow⟩⟩
  | object => exact ⟨_, _, rfl, rfl, fun _ => ⟨_, _, rfl, follow⟩⟩
  | sized => exact ⟨_, _, rfl, rfl, fun _ => ⟨_, _, rfl, by simp⟩⟩
  | objectOf => exact ⟨_, _, rfl, rfl, fun _ => ⟨_, _, rfl, by simp⟩⟩
  | _ => exact ⟨_, _, rfl, rfl, by simp [TokenKind.isLabel, TokenKind.isKeyword]⟩

theorem not_fields (d : Derivation) (fields : List FieldDerivation) {rest rest' : List Terminal} :
    d.terminals ++ .fixed .rightBrace :: rest ≠
      fieldsTerminals .equals fields ++ .fixed .rightBrace :: rest' := by
  obtain ⟨t, more, h, notClosing, notField⟩ := d.starts (.fixed .rightBrace) rest (by simp)
  rw [h]
  intro same
  cases fields with
  | nil =>
      obtain ⟨rfl, -⟩ := List.cons.inj same
      cases notClosing
  | cons field fields =>
      obtain ⟨label, type⟩ := field
      obtain ⟨rfl, rfl⟩ := List.cons.inj same
      obtain ⟨s, ss, next, notEquals⟩ := notField label.isLabel
      obtain ⟨rfl, -⟩ := List.cons.inj next
      exact notEquals rfl

mutual

/-- Where types can end, a list of terminals starts with one type at most. -/
theorem unique (d d' : Derivation) {rest rest' : List Terminal}
    (h : d.terminals ++ rest = d'.terminals ++ rest') (stops : Stops rest)
    (stops' : Stops rest') : d = d' ∧ rest = rest' := by
  match d with
  | .name n =>
      cases d' with
      | name n' => simpa [terminals] using h
      | _ => simp [terminals] at h
  | .matrix e =>
      cases d' with
      | matrix e' => simpa [terminals] using h
      | _ => simp [terminals] at h
  | .sized e n =>
      cases d' with
      | sized e' n' =>
          simp only [terminals, List.cons_append, List.append_assoc, List.cons.injEq, true_and,
            List.nil_append] at h
          obtain ⟨rfl, after⟩ := unique e e' h (stops_length n rest) (stops_length n' rest')
          obtain ⟨rfl, rfl⟩ := lengthTerminals_unique after
          exact ⟨rfl, rfl⟩
      | _ => simp [terminals] at h
  | .braced e =>
      cases d' with
      | braced e' =>
          simp only [terminals, List.cons_append, List.append_assoc, List.cons.injEq, true_and,
            List.nil_append] at h
          obtain ⟨rfl, after⟩ := unique e e' h (stops_fixed (by decide) _)
            (stops_fixed (by decide) _)
          exact ⟨rfl, by simpa using after⟩
      | record fields => exact absurd (by simpa [terminals] using h) (not_fields e fields)
      | _ => simp [terminals] at h
  | .record fields =>
      cases d' with
      | braced e' => exact absurd (by simpa [terminals] using h.symm) (not_fields e' fields)
      | record fields' =>
          simp only [terminals, List.cons_append, List.append_assoc, List.cons.injEq, true_and,
            List.nil_append] at h
          obtain ⟨rfl, after⟩ := fields_unique .equals fields fields' h
            (closes_fixed rfl _) (closes_fixed rfl _)
          exact ⟨rfl, by simpa using after⟩
      | _ => simp [terminals] at h
  | .union fields =>
      cases d' with
      | union fields' =>
          simp only [terminals, List.cons_append, List.append_assoc, List.cons.injEq, true_and,
            List.nil_append] at h
          obtain ⟨rfl, after⟩ := fields_unique .equals fields fields' h
            (closes_fixed rfl _) (closes_fixed rfl _)
          exact ⟨rfl, by simpa using after⟩
      | _ => simp [terminals] at h
  | .function params result =>
      cases d' with
      | function params' result' =>
          simp only [terminals, List.cons_append, List.append_assoc, List.cons.injEq, true_and,
            List.nil_append] at h
          obtain ⟨rfl, after⟩ := fields_unique .colon params params' h
            (closes_fixed rfl _) (closes_fixed rfl _)
          obtain ⟨rfl, after⟩ := unique result result' (List.cons.inj after).2
            (stops_fixed (by decide) _) (stops_fixed (by decide) _)
          exact ⟨rfl, by simpa using after⟩
      | _ => simp [terminals] at h
  | .object =>
      cases d' with
      | object => simpa [terminals] using h
      | objectOf path => exact absurd (by simpa [terminals] using h) (stops.ne_leftParen _)
      | _ => simp [terminals] at h
  | .objectOf path =>
      cases d' with
      | object => exact absurd (by simpa [terminals] using h.symm) (stops'.ne_leftParen _)
      | objectOf path' =>
          obtain ⟨rfl, rfl⟩ := pathTerminals_unique (by simpa [terminals] using h)
          exact ⟨rfl, rfl⟩
      | _ => simp [terminals] at h

theorem fields_unique (separator : TokenKind) (fields fields' : List FieldDerivation)
    {rest rest' : List Terminal}
    (h : fieldsTerminals separator fields ++ rest = fieldsTerminals separator fields' ++ rest')
    (closes : Closes rest) (closes' : Closes rest') : fields = fields' ∧ rest = rest' := by
  match fields, fields' with
  | [], [] => exact ⟨rfl, h⟩
  | [], .mk label' type' :: fields' => exact absurd h (closes.ne_label label' _)
  | .mk label type :: fields, [] => exact absurd h.symm (closes'.ne_label label _)
  | .mk label type :: fields, .mk label' type' :: fields' =>
      simp only [fieldsTerminals_cons, List.cons_append, List.append_assoc, List.cons.injEq,
        Label.terminal_inj, true_and] at h
      obtain ⟨rfl, h⟩ := h
      obtain ⟨rfl, after⟩ := unique type type' h (closes.stops_more _ _) (closes'.stops_more _ _)
      match fields, fields' with
      | [], [] => exact ⟨rfl, after⟩
      | [], _ :: _ => exact absurd after (closes.ne_comma _)
      | _ :: _, [] => exact absurd after.symm (closes'.ne_comma _)
      | next :: fields, next' :: fields' =>
          obtain ⟨same, after⟩ := fields_unique separator (next :: fields) (next' :: fields')
            (List.cons.inj after).2 closes closes'
          exact ⟨by rw [same], after⟩

end

end Derivation

/-- The source has no stray character, and its tokens are those of the derivation. -/
def Derivation.Derives (d : Derivation) (source : String) : Prop :=
  (tokenize source).map Lexeme.terminal? = d.terminals.map some

theorem Derivation.Derives.unique {d d' : Derivation} {source : String} (h : d.Derives source)
    (h' : d'.Derives source) : d = d' := by
  have same : d.terminals = d'.terminals :=
    (List.map_inj_right fun _ _ => Option.some.inj).1 (h.symm.trans h')
  exact (Derivation.unique d d' (by rw [same]) stops_nil stops_nil).1

end DataflowTypes
