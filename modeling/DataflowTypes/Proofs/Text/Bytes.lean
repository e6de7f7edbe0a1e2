import DataflowTypes.Number.Word
import DataflowTypes.Proofs.Text.Lines

/-!
# Lines and columns of bytes

An offset may point into the middle of a character or beyond the end of its source.  Main
statement: line and column of every offset are those that counting the newline bytes before it
gives.
-/

namespace DataflowTypes

namespace Text

def bytes (source : String) : List UInt8 := source.toUTF8.data.toList

def newline : UInt8 := 10

/-- The last line of `read` starts at `start`: just after the last newline, or at the front if
there is none. -/
structure IsLastStart (read : List UInt8) (start : Nat) : Prop where
  within : start ≤ read.length
  opens : start = 0 ∨ read[start - 1]? = some newline
  clear : newline ∉ read.drop start

/-! ## Encoding -/

theorem newline_mem_utf8EncodeChar {c : Char} :
    newline ∈ String.utf8EncodeChar c ↔ c = '\n' := by
  have code : c = '\n' ↔ c.val.toNat = 10 := by
    rw [Char.ext_iff, ← UInt32.toNat_inj]
    rfl
  have same (n : Nat) : newline = UInt8.ofNat n ↔ n % 256 = 10 := by
    rw [← UInt8.toNat_inj, UInt8.toNat_ofNat', eq_comm]
    rfl
  simp only [code, String.utf8EncodeChar]
  generalize c.val.toNat = v
  -- A character of several bytes is written with bytes from 128 on.
  repeat' split
  all_goals
    simp only [List.mem_cons, List.not_mem_nil, or_false, same]
    omega

private theorem count_utf8EncodeChar (c : Char) :
    (String.utf8EncodeChar c).count newline = if c = '\n' then 1 else 0 := by
  split
  · next h =>
      subst h
      rfl
  · next h => exact List.count_eq_zero.2 (mt newline_mem_utf8EncodeChar.1 h)

private theorem bytes_eq (source : String) :
    bytes source = source.toList.flatMap String.utf8EncodeChar := by
  rw [bytes, String.toUTF8, ← String.utf8Encode_toList, List.utf8Encode, List.data_toByteArray]

theorem length_encoded (cs : List Char) :
    (cs.flatMap String.utf8EncodeChar).length = byteLength cs := by
  induction cs with
  | nil => rfl
  | cons c cs ih => simp [byteLength, ih]

private theorem count_encoded (cs : List Char) :
    (cs.flatMap String.utf8EncodeChar).count newline = cs.count '\n' := by
  induction cs with
  | nil => rfl
  | cons c cs ih =>
      rw [List.flatMap_cons, List.count_append, count_utf8EncodeChar, ih, List.count_cons]
      simp [Nat.add_comm]

private theorem newline_mem_encoded {cs : List Char} :
    newline ∈ cs.flatMap String.utf8EncodeChar ↔ '\n' ∈ cs := by
  simp [newline_mem_utf8EncodeChar]

/-! ## The bytes before an offset -/

open LineIndex

variable {source : String} {offset : Nat} {before after : List Char}

private theorem exists_cut (source : String) (offset : Nat) :
    ∃ before after, Cut source offset before after := by
  suffices split : ∀ cs : List Char, ∃ before after, cs = before ++ after ∧
      byteLength before ≤ offset ∧
        ∀ c rest, after = c :: rest → offset < byteLength before + c.utf8Size by
    obtain ⟨before, after, split, ended, ongoing⟩ := split source.toList
    exact ⟨before, after, split, ended, ongoing⟩
  intro cs
  induction cs generalizing offset with
  | nil => exact ⟨[], [], rfl, Nat.zero_le _, nofun⟩
  | cons c cs ih =>
      by_cases inside : offset < c.utf8Size
      · refine ⟨[], c :: cs, rfl, Nat.zero_le _, ?_⟩
        rintro _ _ ⟨⟩
        simpa [byteLength] using inside
      · obtain ⟨before, after, rfl, ended, ongoing⟩ := ih (offset - c.utf8Size)
        refine ⟨c :: before, after, rfl, ?_, fun d rest split => ?_⟩
        · rw [byteLength]
          omega
        · have := ongoing d rest split
          rw [byteLength]
          omega

/-- The bytes before an offset are those of the characters that end at most there and the first
ones of the next character, and none of these is a newline. -/
theorem take_bytes (cut : Cut source offset before after) :
    ∃ started, (bytes source).take offset = before.flatMap String.utf8EncodeChar ++ started ∧
      newline ∉ started := by
  have ended := cut.ended
  refine ⟨(after.flatMap String.utf8EncodeChar).take (offset - byteLength before), ?_, ?_⟩
  · rw [bytes_eq, cut.split, List.flatMap_append, List.take_append, length_encoded,
      List.take_of_length_le (by rwa [length_encoded])]
  · cases after with
    | nil => simp
    | cons c rest =>
        have ongoing := cut.ongoing c rest rfl
        have size := String.length_utf8EncodeChar c
        rw [List.flatMap_cons, List.take_append_of_le_length (by omega)]
        intro mem
        -- A newline is one byte, so that no offset falls into it.
        obtain rfl := newline_mem_utf8EncodeChar.1 (List.mem_of_mem_take mem)
        have none : offset - byteLength before = 0 := by
          have : ('\n' : Char).utf8Size = 1 := rfl
          omega
        simp [none] at mem

private theorem isLastStart_append {front rest : List Char} {started : List UInt8}
    (atStart : AtLineStart front) (clear : '\n' ∉ rest) (notStarted : newline ∉ started) :
    IsLastStart ((front ++ rest).flatMap String.utf8EncodeChar ++ started) (byteLength front) where
  within := by
    simp only [List.length_append, length_encoded, byteLength_append]
    omega
  opens := by
    rcases atLineStart_iff.1 atStart with rfl | ⟨front, rfl⟩
    · exact .inl rfl
    · right
      have size : byteLength (front ++ ['\n']) - 1 =
          (front.flatMap String.utf8EncodeChar).length := by
        rw [length_encoded, byteLength_append]
        exact Nat.add_sub_cancel _ 1
      rw [size, List.append_assoc, List.flatMap_append, List.append_assoc,
        List.getElem?_append_right (Nat.le_refl _), Nat.sub_self]
      rfl
  clear := by
    rw [List.flatMap_append, List.append_assoc, ← length_encoded, List.drop_left, List.mem_append,
      newline_mem_encoded]
    exact not_or.2 ⟨clear, notStarted⟩

end Text

namespace LineIndex

open Text

/-- Lookup is exact at every offset, be it in a line, at its end, inside a character or beyond the
source.  The start that is taken from the offset never lies after it, and below the greatest
number of 64 bits line and column fit into 64 bits as well. -/
theorem position_exact (source : String) (offset : Nat) :
    IsLastStart ((bytes source).take offset) ((ofString source).lineStart offset) ∧
      (ofString source).lineStart offset ≤ offset ∧
      (ofString source).position offset =
        (1 + ((bytes source).take offset).count newline,
          1 + (offset - (ofString source).lineStart offset)) ∧
      (offset < wordLimit - 1 →
        ((ofString source).position offset).1 < wordLimit ∧
          ((ofString source).position offset).2 < wordLimit) := by
  obtain ⟨before, after, cut⟩ := exists_cut source offset
  obtain ⟨line, length⟩ := cut.line_and_lineStart
  obtain ⟨started, read, notStarted⟩ := take_bytes cut
  obtain ⟨front, whole, clear, atStart⟩ := exists_front before
  have start : (ofString source).lineStart offset = byteLength front := by
    have := congrArg byteLength whole
    rw [byteLength_append] at this
    omega
  have last : IsLastStart ((bytes source).take offset) ((ofString source).lineStart offset) := by
    rw [read, start, whole]
    exact isLastStart_append atStart clear notStarted
  have count : ((bytes source).take offset).count newline = before.count '\n' := by
    rw [read, List.count_append, count_encoded, List.count_eq_zero.2 notStarted, Nat.add_zero]
  have few : ((bytes source).take offset).count newline ≤ offset :=
    Nat.le_trans List.count_le_length (List.length_take_le _ _)
  have begun : (ofString source).lineStart offset ≤ offset :=
    Nat.le_trans last.within (List.length_take_le _ _)
  have answer : (ofString source).position offset =
      (1 + ((bytes source).take offset).count newline,
        1 + (offset - (ofString source).lineStart offset)) := by
    rw [position, line, count, Nat.add_comm 1, Nat.add_comm 1]
  refine ⟨last, begun, answer, fun fits => ?_⟩
  rw [answer]
  constructor
  · change 1 + ((bytes source).take offset).count newline < wordLimit
    omega
  · change 1 + (offset - (ofString source).lineStart offset) < wordLimit
    omega

theorem position_exact_insideLetter :
    IsLastStart ((bytes "é\r\n\nλ").take 6) 5 ∧ 5 ≤ 6 ∧
      (ofString "é\r\n\nλ").position 6 = (1 + 2, 1 + (6 - 5)) ∧ 6 < wordLimit - 1 ∧
      3 < wordLimit ∧ 2 < wordLimit := by
  have start : (ofString "é\r\n\nλ").lineStart 6 = 5 := by decide +kernel
  have count : ((bytes "é\r\n\nλ").take 6).count newline = 2 := by decide +kernel
  have fits : 6 < wordLimit - 1 := by decide
  obtain ⟨last, begun, answer, words⟩ := position_exact "é\r\n\nλ" 6
  rw [start] at last begun answer
  rw [count] at answer
  rw [answer] at words
  exact ⟨last, begun, answer, fits, words fits⟩

end LineIndex

end DataflowTypes
