import DataflowTypes.Proofs.Text.Position
import DataflowTypes.Proofs.Token.Scan

/-!
# Tokens tile the source

What is found at a place is the longest token that starts there, or else one character.  Scanning
goes from one such cut to the next one and passes over blanks between them.  Main statement: the
spans of the lexemes are disjoint and in order, they leave out exactly the blanks, and each of
them holds a token that cannot go on, or a character at which none starts.
-/

namespace DataflowTypes

namespace Scan

variable {c : Char} {text rest w : List Char} {kind : TokenKind} {n : Nat}

def IsToken (kind : TokenKind) (text : List Char) : Prop :=
  (⟨kind, String.ofList text⟩ : Terminal).Spelled

/-! ## The longest token -/

theorem isToken_fixed_iff (fixed : kind.isFixed = true) :
    IsToken kind text ↔ text = kind.text.toList := by
  have unfolded : IsToken kind text ↔ String.ofList text = kind.text := by
    cases kind
    case identifier | integer => cases fixed
    all_goals exact Iff.rfl
  rw [unfolded, ← String.toList_inj, String.toList_ofList]

theorem isName_cons_iff :
    isName (String.ofList (c :: w)) = true ↔
      isNameStart c = true ∧ ∀ d ∈ w, isNameChar d = true := by
  simp [isName]

theorem isToken_number_iff :
    IsToken .integer (c :: w) ↔ c.isDigit = true ∧ ∀ d ∈ w, d.isDigit = true := by
  simp [IsToken, Terminal.Spelled, isNumber]

private theorem longest?_brace (rest : List Char) :
    longest? '{' rest = some (.unionOpen, 1) ∨ longest? '{' rest = some (.leftBrace, 0) := by
  unfold longest?
  split
  case h_1 => exact .inl rfl
  case h_3 => exact .inr rfl
  all_goals simp_all

theorem longest?_of_word (name : isName (String.ofList (c :: w)) = true) (rest : List Char) :
    ∃ k n, longest? c (w ++ rest) = some (k, n) ∧ w.length ≤ n ∧
      (n = w.length → k = wordKind (String.ofList (c :: w))) := by
  obtain ⟨start, tail⟩ := isName_cons_iff.1 name
  refine ⟨_, _, longest?_of_isNameStart start, ?_, ?_⟩
  · rw [List.takeWhile_append_of_pos tail, List.length_append]
    exact Nat.le_add_right _ _
  · rw [List.takeWhile_append_of_pos tail, List.length_append]
    intro whole
    have none : rest.takeWhile isNameChar = [] := List.length_eq_zero_iff.1 (by omega)
    rw [none, List.append_nil]

/-- A token is taken at least whole, and if not more is taken then as the token that it is. -/
theorem longest?_of_isToken (h : IsToken kind (c :: w)) (rest : List Char) :
    ∃ k n, longest? c (w ++ rest) = some (k, n) ∧ w.length ≤ n ∧ (n = w.length → k = kind) := by
  cases kind
  case identifier =>
    obtain ⟨name, isWord⟩ := h
    rw [← isWord]
    exact longest?_of_word name rest
  case arrayTypeWord | functionWord | objectWord =>
    have spelled := (isToken_fixed_iff rfl).1 h
    rw [← String.toList_ofList (l := c :: w), String.toList_inj] at spelled
    have taken := @longest?_of_word c w (by rw [spelled]; decide) rest
    rwa [spelled] at taken
  case integer =>
    obtain ⟨digit, digits⟩ := isToken_number_iff.1 h
    refine ⟨_, _, longest?_of_isDigit digit, ?_, fun _ => rfl⟩
    rw [List.takeWhile_append_of_pos digits, List.length_append]
    exact Nat.le_add_right _ _
  case leftBrace =>
    obtain ⟨rfl, rfl⟩ := List.cons.inj ((isToken_fixed_iff rfl).1 h)
    rcases longest?_brace rest with found | found
    · exact ⟨_, _, found, by simp, by simp⟩
    · exact ⟨_, _, found, by simp, by simp⟩
  all_goals
    obtain ⟨rfl, rfl⟩ := List.cons.inj ((isToken_fixed_iff rfl).1 h)
    exact ⟨_, _, rfl, by simp, by simp⟩

theorem isToken_of_longest? (h : longest? c rest = some (kind, n)) :
    n ≤ rest.length ∧ IsToken kind (c :: rest.take n) := by
  refine ⟨?_, spelled_of_longest h⟩
  unfold longest? at h
  split at h
  case h_13 =>
    split at h
    case isTrue =>
      obtain ⟨-, rfl⟩ := Prod.mk.inj (Option.some.inj h)
      exact (List.takeWhile_prefix _).length_le
    case isFalse =>
      split at h
      case isTrue =>
        obtain ⟨-, rfl⟩ := Prod.mk.inj (Option.some.inj h)
        exact (List.takeWhile_prefix _).length_le
      case isFalse => cases h
  all_goals
    obtain ⟨-, rfl⟩ := Prod.mk.inj (Option.some.inj h)
    simp

theorem not_isToken_nil : ¬IsToken kind [] := by
  cases kind
  case identifier => exact fun h => absurd h.1 (by decide)
  case integer => exact fun h : isNumber "" = true => absurd h (by decide)
  all_goals exact fun h => absurd ((isToken_fixed_iff rfl).1 h) (by decide)

private theorem not_isBlank_text (kind : TokenKind) :
    ∀ d ∈ kind.text.toList, isBlank d = false := by
  have clear : kind.text.toList.all (fun d => !isBlank d) = true := by cases kind <;> rfl
  simpa using clear

theorem IsToken.not_isBlank (h : IsToken kind text) : ∀ c ∈ text, isBlank c = false := by
  cases text with
  | nil => exact absurd h not_isToken_nil
  | cons c w =>
      have named (name : isName (String.ofList (c :: w)) = true) :
          ∀ d ∈ c :: w, isBlank d = false := by
        obtain ⟨start, tail⟩ := isName_cons_iff.1 name
        exact List.forall_mem_cons.2 ⟨isBlank_eq_false (isNameChar_of_isNameStart start),
          fun d hd => isBlank_eq_false (tail d hd)⟩
      cases kind
      case identifier => exact named h.1
      case integer =>
        obtain ⟨digit, digits⟩ := isToken_number_iff.1 h
        exact List.forall_mem_cons.2 ⟨isBlank_eq_false (isNameChar_of_isDigit digit),
          fun d hd => isBlank_eq_false (isNameChar_of_isDigit (digits d hd))⟩
      all_goals
        rw [(isToken_fixed_iff rfl).1 h]
        exact not_isBlank_text _

/-! ## Cuts -/

/-- What stands at the front of a text: a token that does not go on in `rest`, or a character
at which no token starts. -/
inductive Cut : List Char → List Char → Option TokenKind → Prop
  | token {kind : TokenKind} {text rest : List Char} (isToken : IsToken kind text)
      (longest : ∀ more k, more <+: rest → more ≠ [] → ¬IsToken k (text ++ more)) :
      Cut text rest (some kind)
  | stray {c : Char} {rest : List Char} (notBlank : isBlank c = false)
      (absent : ∀ text k, text <+: c :: rest → ¬IsToken k text) : Cut [c] rest none

variable {kind? : Option TokenKind} {after : List Char}

theorem Cut.truncate (h : Cut text (rest ++ after) kind?) : Cut text rest kind? := by
  have shorter : rest <+: rest ++ after := List.prefix_append rest after
  cases h with
  | token isToken longest =>
      exact .token isToken fun more k start => longest more k (start.trans shorter)
  | stray notBlank absent =>
      exact .stray notBlank fun text k start =>
        absent text k (start.trans (List.cons_prefix_cons.2 ⟨rfl, shorter⟩))

theorem Cut.truncate_nil (h : Cut text after kind?) : Cut text [] kind? := truncate h

theorem Cut.exists_cons (h : Cut text rest kind?) :
    ∃ c w, text = c :: w ∧ ∀ d ∈ text, isBlank d = false := by
  cases h with
  | token isToken =>
      cases text with
      | nil => exact absurd isToken not_isToken_nil
      | cons c w => exact ⟨c, w, rfl, isToken.not_isBlank⟩
  | @stray c _ notBlank => exact ⟨c, [], rfl, by simpa using notBlank⟩

private theorem cut_of_longest? (h : longest? c rest = some (kind, n)) :
    Cut (c :: rest.take n) (rest.drop n) (some kind) := by
  obtain ⟨bound, isToken⟩ := isToken_of_longest? h
  refine .token isToken fun more k start notNil longer => ?_
  obtain ⟨after, split⟩ := start
  have whole : (rest.take n ++ more) ++ after = rest := by
    rw [List.append_assoc, split, List.take_append_drop]
  rw [List.cons_append] at longer
  obtain ⟨k', m, found, enough, -⟩ := longest?_of_isToken longer after
  rw [whole, h] at found
  obtain ⟨-, rfl⟩ := Prod.mk.inj (Option.some.inj found)
  rw [List.length_append, List.length_take_of_le bound] at enough
  have := List.length_pos_iff.2 notNil
  omega

private theorem cut_of_longest?_eq_none (notBlank : isBlank c = false)
    (h : longest? c rest = none) : Cut [c] rest none := by
  refine .stray notBlank fun text k start isToken => ?_
  cases text with
  | nil => exact not_isToken_nil isToken
  | cons d w =>
      obtain ⟨rfl, after, rfl⟩ := List.cons_prefix_cons.1 start
      obtain ⟨k', m, found, -⟩ := longest?_of_isToken isToken after
      rw [h] at found
      cases found

private theorem Cut.longest?_eq_some (h : Cut (c :: w) rest (some kind)) :
    longest? c (w ++ rest) = some (kind, w.length) := by
  cases h with
  | token isToken longest =>
      obtain ⟨k, n, found, enough, same⟩ := longest?_of_isToken isToken rest
      obtain ⟨bound, longer⟩ := isToken_of_longest? found
      rw [List.take_append, List.take_of_length_le enough, ← List.cons_append] at longer
      rcases Nat.eq_or_lt_of_le enough with whole | more
      · rw [found, same whole.symm, whole]
      -- Otherwise the token would go on in `rest`.
      · refine absurd longer (longest _ k (List.take_prefix _ _) ?_)
        intro empty
        rw [List.length_append] at bound
        rw [← List.length_eq_zero_iff, List.length_take] at empty
        omega

private theorem Cut.longest?_eq_none (h : Cut [c] rest none) : longest? c rest = none := by
  cases h with
  | stray notBlank absent =>
      cases found : longest? c rest with
      | none => rfl
      | some p =>
          obtain ⟨kind, n⟩ := p
          refine absurd (isToken_of_longest? found).2 (absent _ kind ?_)
          exact List.cons_prefix_cons.2 ⟨rfl, List.take_prefix _ _⟩

/-! ## Scanning from cut to cut -/

def lexemeAt (index : LineIndex) (offset : Nat) (text : List Char) (kind? : Option TokenKind) :
    Lexeme :=
  let span := index.span offset (offset + byteLength text)
  kind?.elim (.stray span) fun kind => .token ⟨kind, String.ofList text, span⟩

variable {index : LineIndex} {offset : Nat} {cs before : List Char} {xs ys : List Lexeme}
  {x : Lexeme}

theorem span_lexemeAt : (lexemeAt index offset text kind?).span =
    index.span offset (offset + byteLength text) := by
  cases kind? <;> rfl

private theorem Cut.byteLength_pos (h : Cut text rest kind?) : 0 < byteLength text := by
  obtain ⟨c, w, rfl, -⟩ := h.exists_cons
  have := c.utf8Size_pos
  simp only [byteLength]
  omega

theorem scan_cut (h : Cut text rest kind?) :
    scan index offset (text ++ rest) =
      lexemeAt index offset text kind? :: scan index (offset + byteLength text) rest := by
  obtain ⟨c, w, rfl, notBlank⟩ := h.exists_cons
  have first : isBlank c = false := notBlank c List.mem_cons_self
  cases kind? with
  | none =>
      obtain rfl : w = [] := by cases h; rfl
      rw [List.singleton_append, scan_stray first h.longest?_eq_none]
      simp [lexemeAt, byteLength]
  | some kind =>
      rw [List.cons_append, scan_token first h.longest?_eq_some]
      simp [lexemeAt]

theorem cut_induction {motive : List Char → Prop} (nil : motive [])
    (blank : ∀ c rest, isBlank c = true → motive rest → motive (c :: rest))
    (cut : ∀ text rest kind?, Cut text rest kind? → motive rest → motive (text ++ rest))
    (cs : List Char) : motive cs := by
  induction length : cs.length using Nat.strongRecOn generalizing cs with
  | _ n ih =>
      cases cs with
      | nil => exact nil
      | cons c rest =>
          subst length
          cases isBlank : isBlank c with
          | true => exact blank c rest isBlank (ih rest.length (Nat.lt_succ_self _) rest rfl)
          | false =>
              cases found : longest? c rest with
              | none =>
                  exact cut [c] rest none (cut_of_longest?_eq_none isBlank found)
                    (ih rest.length (Nat.lt_succ_self _) rest rfl)
              | some p =>
                  have smaller : (rest.drop p.2).length < (c :: rest).length := by
                    simp only [List.length_drop, List.length_cons]
                    omega
                  have whole := cut (c :: rest.take p.2) (rest.drop p.2) (some p.1)
                    (cut_of_longest? found) (ih _ smaller _ rfl)
                  rwa [List.cons_append, List.take_append_drop] at whole

theorem start_le_of_mem_scan (h : x ∈ scan index offset cs) :
    offset ≤ x.span.start ∧ x.span.start < x.span.stop := by
  induction cs using cut_induction generalizing offset with
  | nil => simp [scan_nil] at h
  | blank c rest isBlank ih =>
      rw [scan_blank isBlank] at h
      have := ih h
      omega
  | cut text rest kind? cut ih =>
      have := cut.byteLength_pos
      rw [scan_cut cut] at h
      rcases List.mem_cons.1 h with rfl | h
      · rw [span_lexemeAt]
        simp only [LineIndex.span]
        omega
      · have := ih h
        omega

theorem pairwise_scan (cs : List Char) :
    (scan index offset cs).Pairwise fun x y => x.span.stop ≤ y.span.start := by
  induction cs using cut_induction generalizing offset with
  | nil => simp [scan_nil]
  | blank c rest isBlank ih =>
      rw [scan_blank isBlank]
      exact ih
  | cut text rest kind? cut ih =>
      rw [scan_cut cut, List.pairwise_cons]
      refine ⟨fun y hy => ?_, ih⟩
      rw [span_lexemeAt]
      exact (start_le_of_mem_scan hy).1

private theorem covered_iff {i : Nat} (split : cs = before ++ c :: after)
    (first : offset + byteLength before ≤ i)
    (last : i < offset + byteLength before + c.utf8Size) :
    (∃ x ∈ scan index offset cs, x.span.start ≤ i ∧ i < x.span.stop) ↔ isBlank c = false := by
  induction cs using cut_induction generalizing offset before with
  | nil => simp at split
  | blank d rest isBlank ih =>
      rw [scan_blank isBlank]
      cases before with
      | nil =>
          obtain ⟨rfl, rfl⟩ := List.cons.inj split
          simp only [isBlank, byteLength] at *
          refine iff_of_false ?_ (by simp)
          rintro ⟨x, hx, covers, -⟩
          have := (start_le_of_mem_scan hx).1
          omega
      | cons d' before =>
          obtain ⟨rfl, rfl⟩ := List.cons.inj split
          simp only [byteLength] at first last
          exact ih rfl (by omega) (by omega)
  | cut text rest kind? cut ih =>
      -- The character stands behind the cut or in it.
      have place : (∃ more, before = text ++ more ∧ rest = more ++ c :: after) ∨
          ∃ more, text = before ++ c :: more := by
        rcases List.append_eq_append_iff.1 split with behind | ⟨more, inside, tail⟩
        · exact .inl behind
        · cases more with
          | nil => exact .inl ⟨[], by simpa using inside.symm, tail.symm⟩
          | cons d more =>
              obtain ⟨rfl, -⟩ := List.cons.inj tail
              exact .inr ⟨more, inside⟩
      rw [scan_cut cut]
      rcases place with ⟨more, rfl, tail⟩ | ⟨more, rfl⟩
      · rw [byteLength_append] at first last
        rw [← @ih (offset + byteLength text) more tail (by omega) (by omega)]
        simp only [List.mem_cons, exists_eq_or_imp, span_lexemeAt, LineIndex.span]
        refine or_iff_right fun covers => ?_
        omega
      · obtain ⟨-, -, -, notBlank⟩ := cut.exists_cons
        refine iff_of_true ⟨_, List.mem_cons_self, ?_⟩ (notBlank c (by simp))
        rw [span_lexemeAt]
        simp only [LineIndex.span, byteLength_append, byteLength]
        omega

/-- Each lexeme is cut out of the source.  The lexemes from it on are found from there on, and
those up to it without what follows. -/
theorem exists_of_scan_eq (h : scan index offset cs = xs ++ x :: ys) :
    ∃ front text rest kind?, cs = front ++ text ++ rest ∧ Cut text rest kind? ∧
      x = lexemeAt index (offset + byteLength front) text kind? ∧
      scan index (offset + byteLength front) (text ++ rest) = x :: ys ∧
      scan index offset (front ++ text) = xs ++ [x] := by
  induction cs using cut_induction generalizing offset xs with
  | nil => simp [scan_nil] at h
  | blank c rest isBlank ih =>
      rw [scan_blank isBlank] at h
      obtain ⟨front, text, after, kind?, rfl, cut, place, onward, upTo⟩ := ih h
      rw [Nat.add_assoc] at place onward
      refine ⟨c :: front, text, after, kind?, rfl, cut, place, onward, ?_⟩
      rw [List.cons_append, scan_blank isBlank, upTo]
  | cut text rest kind? cut ih =>
      cases xs with
      | nil =>
          have scanned := h
          rw [scan_cut cut] at h
          obtain ⟨rfl, -⟩ := List.cons.inj h
          refine ⟨[], text, rest, kind?, rfl, cut, rfl, scanned, ?_⟩
          -- What the lexeme is does not depend on the text behind it.
          simpa [scan_nil] using @scan_cut _ _ _ index offset cut.truncate_nil
      | cons x' xs =>
          rw [scan_cut cut] at h
          obtain ⟨rfl, tail⟩ := List.cons.inj h
          obtain ⟨front, text', after, kind', rfl, cut', place, onward, upTo⟩ := ih tail
          rw [Nat.add_assoc, ← byteLength_append] at place onward
          refine ⟨text ++ front, text', after, kind', by simp, cut', place, onward, ?_⟩
          rw [List.append_assoc, scan_cut cut.truncate, upTo]
          rfl

private theorem terminals_scan (cs : List Char) {index' : LineIndex} {offset' : Nat} :
    (scan index offset cs).map Lexeme.terminal? =
      (scan index' offset' cs).map Lexeme.terminal? := by
  induction cs using cut_induction generalizing offset offset' with
  | nil => simp [scan_nil]
  | blank c rest isBlank ih =>
      rw [scan_blank isBlank, scan_blank isBlank]
      exact ih
  | cut text rest kind? cut ih =>
      have same : (lexemeAt index offset text kind?).terminal? =
          (lexemeAt index' offset' text kind?).terminal? := by
        cases kind? <;> rfl
      rw [scan_cut cut, scan_cut cut, List.map_cons, List.map_cons, same, ih]

/-- The text from the start of one lexeme to the end of another one has the lexemes between
them, wherever it stands. -/
theorem exists_slice {source : String} {zs : List Lexeme} {z : Lexeme}
    (h : tokenize source = xs ++ zs ++ ys) (first : zs.head? = some x)
    (last : zs.getLast? = some z) :
    ∃ front text rest, source.toList = front ++ text ++ rest ∧
      x.span.start = byteLength front ∧ z.span.stop = byteLength front + byteLength text ∧
      (tokenize (String.ofList text)).map Lexeme.terminal? = zs.map Lexeme.terminal? := by
  obtain ⟨more, rfl⟩ := List.head?_eq_some_iff.1 first
  rw [List.append_assoc, List.cons_append] at h
  obtain ⟨front, text, rest, kind?, split, -, rfl, onward, -⟩ := exists_of_scan_eq h
  obtain ⟨init, whole⟩ := List.getLast?_eq_some_iff.1 last
  rw [← List.cons_append, whole, List.append_assoc] at onward
  obtain ⟨front', text', rest', kind', split', -, rfl, -, upTo⟩ := exists_of_scan_eq onward
  refine ⟨front, front' ++ text', rest', ?_, ?_, ?_, ?_⟩
  · rw [split, List.append_assoc, split']
    simp
  · rw [span_lexemeAt]
    simp [LineIndex.span]
  · rw [span_lexemeAt]
    simp [LineIndex.span, Nat.add_assoc]
  · rw [whole, ← upTo, tokenize, String.toList_ofList]
    exact terminals_scan _

theorem isBlank_eq_false_iff :
    isBlank c = false ↔ c ∉ [' ', '\t', '\r', '\n', '\x0c'] := by
  simp [isBlank, and_assoc]

theorem exists_of_mem_tokenize {source : String} (h : x ∈ tokenize source) :
    ∃ front text rest kind?, source.toList = front ++ text ++ rest ∧ Cut text rest kind? ∧
      x = lexemeAt (.ofString source) (byteLength front) text kind? := by
  obtain ⟨xs, ys, split⟩ := List.append_of_mem h
  obtain ⟨front, text, rest, kind?, whole, cut, place, -, -⟩ := exists_of_scan_eq split
  rw [Nat.zero_add] at place
  exact ⟨front, text, rest, kind?, whole, cut, place⟩

private theorem tokenize_of_cut (h : Cut text rest (some kind)) :
    tokenize (String.ofList text) =
      [.token ⟨kind, String.ofList text, ⟨0, byteLength text, 1, 1⟩⟩] := by
  have scanned := @scan_cut _ _ _ (.ofString (String.ofList text)) 0 h.truncate_nil
  have start : (LineIndex.ofString (String.ofList text)).position 0 = (1, 1) :=
    @LineIndex.position_ofString (String.ofList text) [] text (by simp)
  rw [tokenize, String.toList_ofList]
  simpa [scan_nil, lexemeAt, LineIndex.span, start] using scanned

end Scan

/-- The span holds `text`, with `before` in front of it and `after` behind it. -/
structure Span.Frames (s : Span) (source before text after : String) : Prop where
  split : source = before ++ text ++ after
  start : s.start = before.utf8ByteSize
  stop : s.stop = before.utf8ByteSize + text.utf8ByteSize

theorem Span.frames_ofList {source : String} {front text rest : List Char} {s : Span}
    (split : source.toList = front ++ text ++ rest) (start : s.start = byteLength front)
    (stop : s.stop = byteLength front + byteLength text) :
    s.Frames source (.ofList front) (.ofList text) (.ofList rest) where
  split := by rw [← String.ofList_append, ← String.ofList_append, ← split, String.ofList_toList]
  start := by rw [start, utf8ByteSize_ofList]
  stop := by rw [stop, utf8ByteSize_ofList, utf8ByteSize_ofList]

/-- Tokens tile the source: in order and apart from each other, with nothing but blanks between
them.  Each token can be read from its own text and does not go on; each other lexeme is one
character at which no token starts. -/
theorem tokens_tile (source : String) :
    (∀ x ∈ tokenize source, x.span.start < x.span.stop) ∧
      (tokenize source).Pairwise (fun x y => x.span.stop ≤ y.span.start) ∧
      (∀ before c after i, source.toList = before ++ c :: after →
        byteLength before ≤ i → i < byteLength before + c.utf8Size →
          ((∀ x ∈ tokenize source, ¬(x.span.start ≤ i ∧ i < x.span.stop)) ↔
            c ∈ [' ', '\t', '\r', '\n', '\x0c'])) ∧
      (∀ t, .token t ∈ tokenize source →
        t.terminal.Spelled ∧ ∃ before after, t.span.Frames source before t.text after ∧
          tokenize t.text = [.token ⟨t.kind, t.text, ⟨0, t.text.utf8ByteSize, 1, 1⟩⟩] ∧
          ∀ more rest kind, after = more ++ rest → more ≠ "" →
            ¬(⟨kind, t.text ++ more⟩ : Terminal).Spelled) ∧
      ∀ s, .stray s ∈ tokenize source →
        ∃ before c after, s.Frames source before (String.singleton c) after ∧
          ∀ text rest kind, String.singleton c ++ after = text ++ rest →
            ¬(⟨kind, text⟩ : Terminal).Spelled := by
  refine ⟨fun x h => (Scan.start_le_of_mem_scan h).2, Scan.pairwise_scan _, ?_, ?_, ?_⟩
  · intro before c after i split first last
    have covered := @Scan.covered_iff _ _ (.ofString source) 0 _ _ i split (by omega) (by omega)
    rw [Scan.isBlank_eq_false_iff] at covered
    have uncovered : (∀ x ∈ tokenize source, ¬(x.span.start ≤ i ∧ i < x.span.stop)) ↔
        ¬∃ x ∈ tokenize source, x.span.start ≤ i ∧ i < x.span.stop := by simp
    rw [uncovered, tokenize, covered, Decidable.not_not]
  · intro t h
    refine ⟨spelled_of_mem_tokenize h, ?_⟩
    obtain ⟨front, text, rest, kind?, split, cut, place⟩ := Scan.exists_of_mem_tokenize h
    cases cut with
    | stray => cases place
    | @token kind _ _ isToken longest =>
        obtain rfl := Lexeme.token.inj place
        refine ⟨.ofList front, .ofList rest, Span.frames_ofList split rfl rfl, ?_, ?_⟩
        · rw [utf8ByteSize_ofList]
          exact Scan.tokenize_of_cut (.token isToken longest)
        · intro more after k onward notEmpty spelled
          refine longest more.toList k ⟨after.toList, ?_⟩ (by simpa using notEmpty) ?_
          · rw [← String.toList_append, ← onward, String.toList_ofList]
          · rwa [Scan.IsToken, String.ofList_append, String.ofList_toList]
  · intro s h
    obtain ⟨front, text, rest, kind?, split, cut, place⟩ := Scan.exists_of_mem_tokenize h
    cases cut with
    | token => cases place
    | @stray c _ notBlank absent =>
        obtain rfl := Lexeme.stray.inj place
        refine ⟨.ofList front, c, .ofList rest, ?_, ?_⟩
        · rw [String.singleton_eq_ofList]
          exact Span.frames_ofList split rfl rfl
        · intro text after k onward spelled
          refine absent text.toList k ⟨after.toList, ?_⟩ ?_
          · rw [← String.toList_append, ← onward]
            simp
          · rwa [Scan.IsToken, String.ofList_toList]

theorem tokens_tile_glued :
    (∀ x ∈ tokenize "12ab |é", ¬(x.span.start ≤ 4 ∧ 4 < x.span.stop)) ∧
      (∃ before after, (⟨0, 2, 1, 1⟩ : Span).Frames "12ab |é" before "12" after ∧
        tokenize "12" = [.token ⟨.integer, "12", ⟨0, 2, 1, 1⟩⟩] ∧
        ∀ more rest kind, after = more ++ rest → more ≠ "" →
          ¬(⟨kind, "12" ++ more⟩ : Terminal).Spelled) ∧
      ∃ before c after, (⟨6, 8, 1, 7⟩ : Span).Frames "12ab |é" before (String.singleton c) after ∧
        ∀ text rest kind, String.singleton c ++ after = text ++ rest →
          ¬(⟨kind, text⟩ : Terminal).Spelled := by
  obtain ⟨-, -, blanks, tokens, strays⟩ := tokens_tile "12ab |é"
  refine ⟨?_, ?_, strays ⟨6, 8, 1, 7⟩ (by decide +kernel)⟩
  · exact (blanks ['1', '2', 'a', 'b'] ' ' ['|', 'é'] 4 (by decide) (by decide) (by decide)).2
      (by decide)
  · exact (tokens ⟨.integer, "12", ⟨0, 2, 1, 1⟩⟩ (by decide +kernel)).2

end DataflowTypes
