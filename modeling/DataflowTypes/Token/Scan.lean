import DataflowTypes.Token.Basic

/-!
# Scanning

`scan` cuts a text into lexemes.  Blanks separate lexemes, the longest token
wins, and a character at which no token starts is a lexeme by itself.
-/

namespace DataflowTypes

namespace Scan

def isBlank (c : Char) : Bool :=
  c == ' ' || c == '\t' || c == '\r' || c == '\n' || c == '\x0c'

def isNameStart (c : Char) : Bool := c.isAlpha || c == '_'

def isNameChar (c : Char) : Bool := c.isAlphanum || c == '_'

def wordKind (word : String) : TokenKind :=
  if word = "arrayType" then .arrayTypeWord
  else if word = "function" then .functionWord
  else if word = "object" then .objectWord
  else .identifier

/-- The longest token that starts with the character `c` before `rest`: its kind
and how many characters of `rest` it takes. -/
def longest? (c : Char) (rest : List Char) : Option (TokenKind × Nat) :=
  match c, rest with
  | '{', '|' :: _ => some (.unionOpen, 1)
  | '|', '}' :: _ => some (.unionClose, 1)
  | '{', _ => some (.leftBrace, 0)
  | '}', _ => some (.rightBrace, 0)
  | '(', _ => some (.leftParen, 0)
  | ')', _ => some (.rightParen, 0)
  | '[', _ => some (.leftBracket, 0)
  | ']', _ => some (.rightBracket, 0)
  | ',', _ => some (.comma, 0)
  | '=', _ => some (.equals, 0)
  | ':', _ => some (.colon, 0)
  | '/', _ => some (.slash, 0)
  | c, rest =>
      if isNameStart c then
        let tail := rest.takeWhile isNameChar
        some (wordKind (String.ofList (c :: tail)), tail.length)
      else if c.isDigit then
        some (.integer, (rest.takeWhile Char.isDigit).length)
      else none

theorem longest?_of_isNameChar {c : Char} {rest : List Char} (h : isNameChar c = true) :
    longest? c rest =
      if isNameStart c then
        some (wordKind (String.ofList (c :: rest.takeWhile isNameChar)),
          (rest.takeWhile isNameChar).length)
      else if c.isDigit then some (.integer, (rest.takeWhile Char.isDigit).length)
      else none := by
  unfold longest?
  split
  case h_13 => rfl
  all_goals exact absurd h (by decide)

/-- The first lexeme of a text that starts at the byte `offset` of the source, with the
offset behind it and the text from there on. -/
def first? (index : LineIndex) (offset : Nat) : List Char → Option (Lexeme × Nat × List Char)
  | [] => none
  | c :: rest =>
      if isBlank c then first? index (offset + c.utf8Size) rest
      else
        match longest? c rest with
        | none =>
            let stop := offset + c.utf8Size
            some (.stray (index.span offset stop), stop, rest)
        | some (kind, extra) =>
            let text := c :: rest.take extra
            let stop := offset + byteLength text
            some (.token ⟨kind, String.ofList text, index.span offset stop⟩, stop,
              rest.drop extra)

theorem exists_of_first? {index : LineIndex} {offset stop : Nat} {cs rest : List Char}
    {x : Lexeme} (h : first? index offset cs = some (x, stop, rest)) :
    ∃ blanks c after, cs = blanks ++ c :: after ∧
      ((∃ span, x = .stray span ∧ rest = after) ∨
        ∃ kind extra span, longest? c after = some (kind, extra) ∧
          x = .token ⟨kind, String.ofList (c :: after.take extra), span⟩ ∧
          rest = after.drop extra) := by
  induction cs generalizing offset with
  | nil => cases h
  | cons c cs ih =>
      rw [first?] at h
      by_cases blank : isBlank c = true
      · rw [if_pos blank] at h
        obtain ⟨blanks, d, after, rfl, found⟩ := ih h
        exact ⟨c :: blanks, d, after, rfl, found⟩
      · rw [if_neg blank] at h
        refine ⟨[], c, cs, rfl, ?_⟩
        cases found : longest? c cs with
        | none =>
            rw [found] at h
            obtain ⟨rfl, rfl, rfl⟩ := h
            exact .inl ⟨_, rfl, rfl⟩
        | some =>
            rw [found] at h
            obtain ⟨rfl, rfl, rfl⟩ := h
            exact .inr ⟨_, _, _, rfl, rfl, rfl⟩

private theorem length_lt_of_first? {index : LineIndex} {offset stop : Nat} {cs rest : List Char}
    {x : Lexeme} (h : first? index offset cs = some (x, stop, rest)) :
    rest.length < cs.length := by
  obtain ⟨blanks, c, after, rfl, ⟨_, -, rfl⟩ | ⟨_, _, _, -, -, rfl⟩⟩ := exists_of_first? h
  · simp only [List.length_append, List.length_cons]
    omega
  · simp only [List.length_append, List.length_cons, List.length_drop]
    omega

def scan (index : LineIndex) (offset : Nat) (cs : List Char) : List Lexeme :=
  match _ : first? index offset cs with
  | none => []
  | some (x, stop, rest) => x :: scan index stop rest
termination_by cs.length
decreasing_by apply length_lt_of_first?; assumption

section

variable {index : LineIndex} {offset : Nat} {c : Char} {rest : List Char}

theorem scan_of_first?_eq_none {cs : List Char} (h : first? index offset cs = none) :
    scan index offset cs = [] := by
  rw [scan]
  split
  · rfl
  · simp_all

theorem scan_of_first?_eq_some {cs rest : List Char} {x : Lexeme} {stop : Nat}
    (h : first? index offset cs = some (x, stop, rest)) :
    scan index offset cs = x :: scan index stop rest := by
  rw [scan]
  split
  · simp_all
  · simp_all

private theorem scan_congr {cs cs' : List Char} {offset' : Nat}
    (h : first? index offset cs = first? index offset' cs') :
    scan index offset cs = scan index offset' cs' := by
  cases first : first? index offset' cs' with
  | none => rw [scan_of_first?_eq_none first, scan_of_first?_eq_none (h.trans first)]
  | some found =>
      rw [scan_of_first?_eq_some first, scan_of_first?_eq_some (h.trans first)]

theorem scan_nil : scan index offset [] = [] := scan_of_first?_eq_none rfl

theorem scan_blank (h : isBlank c = true) :
    scan index offset (c :: rest) = scan index (offset + c.utf8Size) rest :=
  scan_congr (if_pos h)

theorem scan_stray (notBlank : isBlank c = false) (none : longest? c rest = none) :
    scan index offset (c :: rest) =
      .stray (index.span offset (offset + c.utf8Size)) ::
        scan index (offset + c.utf8Size) rest := by
  apply scan_of_first?_eq_some
  simp [first?, notBlank, none]

theorem scan_token {kind : TokenKind} {extra : Nat} (notBlank : isBlank c = false)
    (found : longest? c rest = some (kind, extra)) :
    scan index offset (c :: rest) =
      let text := c :: rest.take extra
      let stop := offset + byteLength text
      .token ⟨kind, String.ofList text, index.span offset stop⟩ ::
        scan index stop (rest.drop extra) := by
  apply scan_of_first?_eq_some
  simp [first?, notBlank, found]

end

end Scan

def tokenize (source : String) : List Lexeme :=
  Scan.scan (LineIndex.ofString source) 0 source.toList

def endSpan (source : String) : Span :=
  (LineIndex.ofString source).span source.utf8ByteSize source.utf8ByteSize

end DataflowTypes
