import DataflowTypes.Token.Scan

/-!
# What scanning finds

A terminal is a token without its span.  Main statements: each token of a source is
spelled the way its kind asks, so that a token of a fixed kind is known by its kind, a
name is a word and no keyword, and a number has digits only.
-/

namespace DataflowTypes

structure Terminal where
  kind : TokenKind
  text : String
deriving DecidableEq

namespace Terminal

def fixed (kind : TokenKind) : Terminal := ⟨kind, kind.text⟩

def name (text : String) : Terminal := ⟨.identifier, text⟩

@[simp] theorem fixed_kind (kind : TokenKind) : (fixed kind).kind = kind := rfl

@[simp] theorem name_kind (text : String) : (name text).kind = .identifier := rfl

@[simp] theorem fixed_inj {kind kind' : TokenKind} : fixed kind = fixed kind' ↔ kind = kind' :=
  ⟨fun h => congrArg Terminal.kind h, fun h => h ▸ rfl⟩

@[simp] theorem name_inj {text text' : String} : name text = name text' ↔ text = text' := by
  simp [name]

@[simp] theorem name_eq_fixed {text : String} {kind : TokenKind} :
    name text = fixed kind ↔ kind = .identifier ∧ text = kind.text := by
  simp [name, fixed, eq_comm]

@[simp] theorem fixed_eq_name {text : String} {kind : TokenKind} :
    fixed kind = name text ↔ kind = .identifier ∧ text = kind.text := by
  rw [eq_comm, name_eq_fixed]

end Terminal

def Token.terminal (t : Token) : Terminal := ⟨t.kind, t.text⟩

def Lexeme.terminal? : Lexeme → Option Terminal
  | token t => some t.terminal
  | stray _ => none

namespace Scan

/-- A letter or underscore with letters, digits and underscores after it. -/
def isName (word : String) : Bool :=
  match word.toList with
  | [] => false
  | c :: cs => isNameStart c && cs.all isNameChar

def isNumber (text : String) : Bool := !text.toList.isEmpty && text.toList.all Char.isDigit

end Scan

def Terminal.Spelled (t : Terminal) : Prop :=
  match t.kind with
  | .identifier => Scan.isName t.text = true ∧ Scan.wordKind t.text = .identifier
  | .integer => Scan.isNumber t.text = true
  | kind => t.text = kind.text

def TokenKind.isFixed (kind : TokenKind) : Bool := kind != .identifier && kind != .integer

theorem Terminal.Spelled.eq_fixed {t : Terminal} (h : t.Spelled) (fixed : t.kind.isFixed = true) :
    t = .fixed t.kind := by
  obtain ⟨kind, text⟩ := t
  cases kind
  case identifier | integer => cases fixed
  all_goals exact congrArg _ h

namespace Scan

theorem take_takeWhile (p : Char → Bool) (cs : List Char) :
    cs.take (cs.takeWhile p).length = cs.takeWhile p :=
  (List.prefix_iff_eq_take.1 (List.takeWhile_prefix p)).symm

theorem wordKind_eq (word : String) :
    wordKind word = .identifier ∨
      (wordKind word).isKeyword = true ∧ word = (wordKind word).text := by
  unfold wordKind
  split
  · exact .inr ⟨rfl, ‹_›⟩
  · split
    · exact .inr ⟨rfl, ‹_›⟩
    · split
      · exact .inr ⟨rfl, ‹_›⟩
      · exact .inl rfl

private theorem spelled_word {word : String} (h : isName word = true) :
    (⟨wordKind word, word⟩ : Terminal).Spelled := by
  rcases wordKind_eq word with name | ⟨keyword, text⟩
  · rw [name]
    exact ⟨h, name⟩
  · generalize wordKind word = kind at keyword text ⊢
    cases kind
    case arrayTypeWord | functionWord | objectWord => exact text
    all_goals cases keyword

theorem spelled_of_longest {c : Char} {rest : List Char} {kind : TokenKind} {extra : Nat}
    (h : longest? c rest = some (kind, extra)) :
    (⟨kind, String.ofList (c :: rest.take extra)⟩ : Terminal).Spelled := by
  unfold longest? at h
  split at h
  case h_13 =>
    split at h
    case isTrue start =>
      obtain ⟨rfl, rfl⟩ := Prod.mk.inj (Option.some.inj h)
      rw [take_takeWhile]
      exact spelled_word (by simp [isName, start])
    case isFalse =>
      split at h
      case isTrue digit =>
        obtain ⟨rfl, rfl⟩ := Prod.mk.inj (Option.some.inj h)
        rw [take_takeWhile]
        simp [Terminal.Spelled, isNumber, digit]
      case isFalse => simp at h
  all_goals
    obtain ⟨rfl, rfl⟩ := Prod.mk.inj (Option.some.inj h)
    rfl

private theorem spelled_of_first? {index : LineIndex} {offset stop : Nat} {cs rest : List Char}
    {t : Token} (h : first? index offset cs = some (.token t, stop, rest)) :
    t.terminal.Spelled := by
  obtain ⟨_, _, _, -, ⟨_, stray, -⟩ | ⟨_, _, _, found, token, -⟩⟩ := exists_of_first? h
  · cases stray
  · obtain rfl := Lexeme.token.inj token
    exact spelled_of_longest found

private theorem spelled_of_mem_scan {index : LineIndex} {offset : Nat} {cs : List Char} {t : Token}
    (h : .token t ∈ scan index offset cs) : t.terminal.Spelled := by
  fun_induction scan index offset cs with
  | case1 => cases h
  | case2 offset cs x stop rest found ih =>
      rcases List.mem_cons.1 h with rfl | h
      · exact spelled_of_first? found
      · exact ih h

end Scan

theorem spelled_of_mem_tokenize {source : String} {t : Token}
    (h : .token t ∈ tokenize source) : t.terminal.Spelled :=
  Scan.spelled_of_mem_scan h

/-! ## Written text -/

/-- The tokens other than words and numbers that no longer token starts with. -/
def TokenKind.isMark : TokenKind → Bool
  | .arrayTypeWord | .functionWord | .objectWord | .leftBrace | .identifier | .integer => false
  | _ => true

namespace Scan

/-- The text has these tokens, and but for them only blanks. -/
def Lexes (cs : List Char) (ss : List Terminal) : Prop :=
  ∀ index offset, (scan index offset cs).map Lexeme.terminal? = ss.map some

def Ends (rest : List Char) : Prop := ∀ c ∈ rest.head?, isNameChar c = false

variable {c : Char} {rest : List Char} {ss : List Terminal}

theorem isNameChar_of_isNameStart (h : isNameStart c = true) : isNameChar c = true := by
  rcases Bool.or_eq_true_iff.1 h with letter | underscore
  · simp [isNameChar, Char.isAlphanum, letter]
  · simp [isNameChar, underscore]

theorem isNameChar_of_isDigit (h : c.isDigit = true) : isNameChar c = true := by
  simp [isNameChar, Char.isAlphanum, h]

theorem longest?_of_isNameStart (h : isNameStart c = true) :
    longest? c rest = some (wordKind (String.ofList (c :: rest.takeWhile isNameChar)),
      (rest.takeWhile isNameChar).length) := by
  rw [longest?_of_isNameChar (isNameChar_of_isNameStart h), if_pos h]

private theorem longest?_bar (rest : List Char) :
    longest? '|' rest = none ∨ longest? '|' rest = some (.unionClose, 1) := by
  unfold longest?
  split
  case h_13 => exact .inl rfl
  all_goals simp_all

private theorem not_isNameStart (h : c.isDigit = true) : isNameStart c = false := by
  have notUnderscore : c ≠ '_' := by
    rintro rfl
    exact absurd h (by decide)
  have letter : c.isAlpha = (decide ('A'.val ≤ c.val ∧ c.val ≤ 'Z'.val) ||
      (decide ('a'.val ≤ c.val) && decide (c.val ≤ 'z'.val))) := rfl
  simp only [isNameStart, letter, Char.isDigit] at *
  grind

theorem longest?_of_isDigit (h : c.isDigit = true) :
    longest? c rest = some (.integer, (rest.takeWhile Char.isDigit).length) := by
  rw [longest?_of_isNameChar (isNameChar_of_isDigit h), if_neg (by simp [not_isNameStart h]),
    if_pos h]

theorem isBlank_eq_false (h : isNameChar c = true) : isBlank c = false := by
  rw [Bool.eq_false_iff]
  intro blank
  simp only [isBlank, Bool.or_eq_true, beq_iff_eq, or_assoc] at blank
  rcases blank with rfl | rfl | rfl | rfl | rfl <;> exact absurd h (by decide)

theorem takeWhile_append {p : Char → Bool} {cs : List Char} (all : ∀ c ∈ cs, p c = true)
    (ends : ∀ c ∈ rest.head?, p c = false) : (cs ++ rest).takeWhile p = cs := by
  rw [List.takeWhile_append_of_pos all]
  cases rest with
  | nil => simp
  | cons c rest => simp [ends c rfl]

namespace Lexes

theorem nil : Lexes [] [] := fun _ _ => by rw [scan_nil]; rfl

theorem blank (h : Lexes rest ss) : Lexes (' ' :: rest) ss := by
  intro index offset
  rw [scan_blank rfl]
  exact h _ _

theorem token {kind : TokenKind} {extra : Nat} (h : Lexes (rest.drop extra) ss)
    (notBlank : isBlank c = false) (found : longest? c rest = some (kind, extra)) :
    Lexes (c :: rest) (⟨kind, String.ofList (c :: rest.take extra)⟩ :: ss) := by
  intro index offset
  rw [scan_token notBlank found]
  simp [h _ _, Lexeme.terminal?, Token.terminal]

theorem run {kind : TokenKind} {cs : List Char} (h : Lexes rest ss) (notBlank : isBlank c = false)
    (found : longest? c (cs ++ rest) = some (kind, cs.length)) :
    Lexes (c :: cs ++ rest) (⟨kind, String.ofList (c :: cs)⟩ :: ss) := by
  have after : Lexes ((cs ++ rest).drop cs.length) ss := by rwa [List.drop_left]
  have lexed := token after notBlank found
  rwa [List.take_left] at lexed

theorem mark (kind : TokenKind) (isMark : kind.isMark = true) (h : Lexes rest ss) :
    Lexes (kind.text.toList ++ rest) (.fixed kind :: ss) := by
  cases kind
  case arrayTypeWord | functionWord | objectWord | leftBrace | identifier | integer => cases isMark
  all_goals exact h.run rfl rfl

private theorem not_bar (h : Lexes ('|' :: rest) ss)
    (first : ∀ s ∈ ss.head?, s.kind ≠ .unionClose) : False := by
  have lexed := h (.ofString "") 0
  rcases longest?_bar rest with found | found
  · rw [scan_stray rfl found] at lexed
    cases ss <;> simp [Lexeme.terminal?] at lexed
  · rw [scan_token rfl found] at lexed
    cases ss with
    | nil => simp at lexed
    | cons s ss =>
        obtain ⟨rfl, -⟩ : Terminal.mk .unionClose _ = s ∧ _ := by
          simpa [Lexeme.terminal?, Token.terminal] using lexed
        exact first _ rfl rfl

/-- An opening brace stands for itself unless a bar comes next, and that is read only as part
of `|` and a closing brace. -/
theorem leftBrace (h : Lexes rest ss) (first : ∀ s ∈ ss.head?, s.kind ≠ .unionClose) :
    Lexes ('{' :: rest) (.fixed .leftBrace :: ss) := by
  have found : longest? '{' rest = some (.leftBrace, 0) := by
    cases rest with
    | nil => rfl
    | cons c rest =>
        have notBar : c ≠ '|' := by
          rintro rfl
          exact h.not_bar first
        unfold longest?
        split <;> simp_all
  exact @run _ _ _ _ [] h rfl found

theorem word {w : String} (h : Lexes rest ss) (name : isName w = true) (ends : Ends rest) :
    Lexes (w.toList ++ rest) (⟨wordKind w, w⟩ :: ss) := by
  unfold isName at name
  split at name
  case h_1 => cases name
  case h_2 c cs chars =>
    obtain ⟨start, all⟩ := Bool.and_eq_true_iff.1 name
    have tail : (cs ++ rest).takeWhile isNameChar = cs :=
      takeWhile_append (List.all_eq_true.1 all) ends
    have found : longest? c (cs ++ rest) = some (wordKind w, cs.length) := by
      rw [longest?_of_isNameStart start, tail, ← chars, String.ofList_toList]
    have lexed := h.run (isBlank_eq_false (isNameChar_of_isNameStart start)) found
    rwa [← chars, String.ofList_toList] at lexed

theorem number {text : String} (h : Lexes rest ss) (digits : isNumber text = true)
    (ends : Ends rest) : Lexes (text.toList ++ rest) (⟨.integer, text⟩ :: ss) := by
  obtain ⟨notEmpty, all⟩ := Bool.and_eq_true_iff.1 digits
  cases chars : text.toList with
  | nil => simp [chars] at notEmpty
  | cons c cs =>
      rw [chars, List.all_cons, Bool.and_eq_true] at all
      have tail : (cs ++ rest).takeWhile Char.isDigit = cs :=
        takeWhile_append (List.all_eq_true.1 all.2) fun c head => by
          simpa using mt isNameChar_of_isDigit (Bool.eq_false_iff.1 (ends c head))
      have found : longest? c (cs ++ rest) = some (.integer, cs.length) := by
        rw [longest?_of_isDigit all.1, tail]
      have lexed := h.run (isBlank_eq_false (isNameChar_of_isDigit all.1)) found
      rwa [← chars, String.ofList_toList, chars] at lexed

end Lexes

end Scan

end DataflowTypes
