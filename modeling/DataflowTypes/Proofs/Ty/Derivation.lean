import DataflowTypes.Proofs.Expr.Grammar
import DataflowTypes.Ty.Text

/-!
# Derivations of the text of types

Main statement: the tokens of the text of a type are those of its derivation, provided
that its labels and classes are names and its lengths are words.
-/

namespace DataflowTypes

open Scan (isName wordKind Lexes Ends)

/-! ## Names and numbers -/

private theorem Scan.isLabel_wordKind (word : String) : (wordKind word).isLabel = true := by
  rcases wordKind_eq word with name | ⟨keyword, -⟩
  · rw [name]
    rfl
  · simp [TokenKind.isLabel, keyword]

def Label.ofName (name : String) : Label := ⟨wordKind name, name, Scan.isLabel_wordKind name⟩

theorem Reader.decimalValue_toString (n : Nat) : decimalValue (toString n).toList = n := by
  change Nat.ofDigitChars 10 n.repr.toList 0 = n
  rw [Nat.toList_repr, Nat.ofDigitChars_ten_toDigits]

theorem Scan.isNumber_toString (n : Nat) : isNumber (toString n) = true := by
  have digits : (toString n).toList = Nat.toDigits 10 n := Nat.toList_repr
  simp only [isNumber, digits, Bool.and_eq_true, List.all_eq_true]
  refine ⟨by simp, fun c mem => Nat.isDigit_of_mem_toDigits (by decide) (by decide) mem⟩

private theorem Scan.isName_param (i : Nat) : isName ("a" ++ toString i) = true := by
  obtain ⟨-, digits⟩ := Bool.and_eq_true_iff.1 (isNumber_toString i)
  have all : (toString i).toList.all isNameChar = true :=
    List.all_eq_true.2 fun c mem => isNameChar_of_isDigit (List.all_eq_true.1 digits c mem)
  simpa [isName, show isNameStart 'a' = true from rfl] using all

def Numeral.ofNat? (n : Nat) : Option Numeral :=
  if h : n ≤ Reader.maxLength then
    some ⟨toString n, by rwa [Reader.decimalValue_toString]⟩
  else none

theorem Scan.Ends.cons {c : Char} {rest : List Char} (h : isNameChar c = false) :
    Ends (c :: rest) := by
  rintro _ ⟨⟩
  exact h

private theorem Derivation.head_ne_unionClose (d : Derivation) (rest : List Terminal) :
    ∀ s ∈ (d.terminals ++ rest).head?, s.kind ≠ .unionClose := by
  cases d <;> simp [terminals]

private theorem fields_head_ne_unionClose (fields : List FieldDerivation) (rest : List Terminal) :
    ∀ s ∈ (fieldsTerminals .equals fields ++ .fixed .rightBrace :: rest).head?,
      s.kind ≠ .unionClose := by
  cases fields with
  | nil => simp [fieldsTerminals]
  | cons field fields =>
      obtain ⟨label, d⟩ := field
      rintro _ ⟨⟩ same
      exact absurd label.isLabel (by rw [show label.kind = _ from same]; decide)

namespace Ty

/-! ## The derivation of a text -/

/-- Only names stand where the text has labels and classes, and all lengths are words. -/
def Writable : Ty → Prop
  | base _ | matrix _ => True
  | array _ r _ l => r.Writable ∧ ∀ n ∈ l, n < wordLimit
  | record ls _ r | union ls _ r => (∀ m : ls.Member, isName m.1 = true) ∧ ∀ m, (r m).Writable
  | function _ _ r _ s => (∀ i, (r i).Writable) ∧ s.Writable
  | object (.named path) =>
      path ≠ [] ∧ ∀ name ∈ path, isName name = true ∧ wordKind name = .identifier
  | object _ => True

def derivation : Ty → Derivation
  | base b => .name b.name
  | matrix k =>
      match k.element? with
      | some b => .matrix b.name
      | none => .name "matrix"
  | array _ r _ none => .braced r.derivation
  | array _ r _ (some n) => .sized r.derivation (Numeral.ofNat? n)
  | record ls _ r => .record (ls.members.map fun m => .mk (.ofName m.1) (r m).derivation)
  | union ls _ r => .union (ls.members.map fun m => .mk (.ofName m.1) (r m).derivation)
  | function n _ r _ s =>
      .function
        ((List.finRange n).map fun i => .mk (.ofName ("a" ++ toString i.1)) (r i).derivation)
        s.derivation
  | object .unconstrained => .object
  | object .impossible => .objectOf []
  | object (.named path) => .objectOf path

def Written (text : String) (d : Derivation) : Prop :=
  ∀ ⦃rest : List Char⦄ ⦃ss : List Terminal⦄, Ends rest → Lexes rest ss →
    Lexes (text.toList ++ rest) (d.terminals ++ ss)

theorem written_base (b : BaseType) : Written b.name (.name b.name) := by
  intro rest ss ends h
  have lexed : Lexes (b.name.toList ++ rest) (⟨wordKind b.name, b.name⟩ :: ss) :=
    h.word (by cases b <;> decide) ends
  rwa [show wordKind b.name = .identifier by cases b <;> decide] at lexed

private theorem written_matrix (b : BaseType) :
    Written ("[" ++ b.name ++ "]") (.matrix b.name) := by
  intro rest ss ends h
  simp only [String.toList_append, List.append_assoc]
  exact (written_base b (.cons rfl) (h.mark .rightBracket rfl)).mark .leftBracket rfl

section

variable {rest : List Char} {ss : List Terminal}

theorem lexes_fields {α : Type} {label content : α → String} {d : α → Derivation}
    {separator : TokenKind} {mark : String}
    (marked : ∀ {rest ss}, Lexes rest ss → Lexes (mark.toList ++ rest) (.fixed separator :: ss))
    (markEnds : ∀ rest, Ends (mark.toList ++ rest)) (items : List α)
    (named : ∀ i ∈ items, isName (label i) = true)
    (written : ∀ i ∈ items, Written (content i) (d i)) (ends : Ends rest) (h : Lexes rest ss) :
    Lexes
      ((String.intercalate ", " (items.map fun i => label i ++ mark ++ content i)).toList ++ rest)
      (fieldsTerminals separator (items.map fun i => .mk (.ofName (label i)) (d i)) ++ ss) := by
  induction items with
  | nil => simpa [fieldsTerminals] using h
  | cons i items ih =>
      obtain ⟨isName, named⟩ := List.forall_mem_cons.1 named
      obtain ⟨first, written⟩ := List.forall_mem_cons.1 written
      cases items with
      | nil =>
          simp only [List.map_cons, List.map_nil, String.intercalate_singleton,
            String.toList_append, List.append_assoc, fieldsTerminals_cons, moreTerminals,
            List.cons_append, List.nil_append]
          exact (marked (first ends h)).word isName (markEnds _)
      | cons next items =>
          simp only [List.map_cons, String.intercalate_cons_cons, String.toList_append,
            List.append_assoc, fieldsTerminals_cons, moreTerminals, List.cons_append]
          have more := ih named written
          simp only [List.map_cons, fieldsTerminals_cons, List.cons_append,
            List.append_assoc] at more
          exact (marked (first (.cons rfl) (more.blank.mark .comma rfl))).word isName (markEnds _)

private theorem lexes_equals (h : Lexes rest ss) :
    Lexes (" = ".toList ++ rest) (.fixed .equals :: ss) :=
  (h.blank.mark .equals rfl).blank

private theorem lexes_path (path : List String)
    (names : ∀ name ∈ path, isName name = true ∧ wordKind name = .identifier) (ends : Ends rest)
    (h : Lexes rest ss) :
    Lexes ((String.intercalate "/" path).toList ++ rest) (pathTerminals path ++ ss) := by
  induction path with
  | nil => simpa [pathTerminals] using h
  | cons name path ih =>
      obtain ⟨⟨isName, isIdentifier⟩, names⟩ := List.forall_mem_cons.1 names
      have isTerminal : Terminal.name name = ⟨wordKind name, name⟩ := by rw [isIdentifier]; rfl
      cases path with
      | nil =>
          rw [String.intercalate_singleton, pathTerminals_single, isTerminal]
          exact h.word isName ends
      | cons next path =>
          simp only [String.intercalate_cons_cons, String.toList_append, List.append_assoc,
            pathTerminals_cons_cons, List.cons_append, isTerminal]
          exact ((ih names).mark .slash rfl).word isName (.cons rfl)

end

private theorem written_class (c : ObjectClass) (writable : (object c).Writable) :
    Written (classText c) (object c).derivation := by
  intro rest ss ends h
  cases c with
  | unconstrained => exact h.word (w := "object") rfl ends
  | impossible =>
      exact ((h.mark .rightParen rfl).mark .leftParen rfl).word (w := "object") rfl (.cons rfl)
  | named path =>
      simp only [classText, String.toList_append, List.append_assoc, derivation,
        Derivation.terminals, List.cons_append, List.nil_append]
      have names := lexes_path path writable.2 (.cons rfl) (h.mark .rightParen rfl)
      exact (names.mark .leftParen rfl).word (w := "object") rfl (.cons rfl)

theorem lexes_row {ls : NameSet} {r : ls.Member → Ty} {rest : List Char} {ss : List Terminal}
    (named : ∀ m : ls.Member, isName m.1 = true)
    (written : ∀ m, Written (r m).text (r m).derivation) (ends : Ends rest) (h : Lexes rest ss) :
    Lexes ((String.intercalate ", " (ls.members.map fun m => m.1 ++ " = " ++ (r m).text)).toList ++
        rest)
      (fieldsTerminals .equals (ls.members.map fun m => .mk (.ofName m.1) (r m).derivation) ++
        ss) :=
  lexes_fields lexes_equals (fun _ => .cons rfl) ls.members (fun m _ => named m)
    (fun m _ => written m) ends h

private theorem written_text (t : Ty) (writable : t.Writable) : Written t.text t.derivation := by
  induction t with
  | base b => exact written_base b
  | matrix k =>
      cases k
      case generic =>
        intro rest ss ends h
        exact h.word (w := "matrix") rfl ends
      all_goals exact written_matrix _
  | array d r dl l _ ih =>
      intro rest ss ends h
      cases l with
      | none =>
          simp only [text, String.toList_append, List.append_assoc, derivation,
            Derivation.terminals, List.cons_append, List.nil_append]
          have element := ih writable.1 (.cons rfl) (h.mark .rightBrace rfl)
          exact element.leftBrace (Derivation.head_ne_unionClose _ _)
      | some n =>
          have fits : n ≤ Reader.maxLength := Nat.le_sub_one_of_lt (writable.2 n rfl)
          simp only [text, String.toList_append, List.append_assoc, derivation,
            Derivation.terminals, List.cons_append, List.nil_append, Numeral.ofNat?,
            dif_pos fits, lengthTerminals]
          have length := (h.mark .rightParen rfl).number (Scan.isNumber_toString n) (.cons rfl)
          have element := ih writable.1 (.cons rfl) (length.mark .comma rfl)
          exact (element.mark .leftParen rfl).word (w := "arrayType") rfl (.cons rfl)
  | record ls d r _ ih =>
      intro rest ss ends h
      simp only [text, fieldsText, String.toList_append, List.append_assoc, derivation,
        Derivation.terminals, List.cons_append, List.nil_append, List.map_map]
      have fields := lexes_row writable.1 (fun m => ih m (writable.2 m)) (.cons rfl)
        (h.mark .rightBrace rfl)
      exact fields.leftBrace (fields_head_ne_unionClose _ _)
  | union ls d r _ ih =>
      intro rest ss ends h
      simp only [text, fieldsText, String.toList_append, List.append_assoc, derivation,
        Derivation.terminals, List.cons_append, List.nil_append, List.map_map]
      have fields := lexes_row writable.1 (fun m => ih m (writable.2 m)) (.cons rfl)
        (h.mark .unionClose rfl)
      exact fields.mark .unionOpen rfl
  | function n d r dr s _ ih _ ih' =>
      intro rest ss ends h
      simp only [text, String.toList_append, List.append_assoc, derivation,
        Derivation.terminals, List.cons_append, List.nil_append]
      have result := ih' writable.2 (.cons rfl) (h.mark .rightParen rfl)
      have params := lexes_fields (fun h => h.mark .colon rfl) (fun _ => .cons rfl)
        (List.finRange n) (fun i _ => Scan.isName_param i.1) (fun i _ => ih i (writable.1 i))
        (.cons rfl) (result.blank.mark .rightParen rfl)
      have name := (params.mark .leftParen rfl).word (w := "function") rfl (.cons rfl)
      exact name.mark .leftParen rfl
  | object c => exact written_class c writable

theorem derivation_derives (t : Ty) (writable : t.Writable) : t.derivation.Derives t.text := by
  have lexed : Lexes (t.text.toList ++ []) (t.derivation.terminals ++ []) :=
    written_text t writable (by simp [Ends]) .nil
  rw [List.append_nil, List.append_nil] at lexed
  exact lexed _ _

end Ty

end DataflowTypes
