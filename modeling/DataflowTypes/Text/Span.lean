/-!
# Source locations

A span is a range of bytes of a source text together with the line and column
of its first byte.  Lines are found through the offsets at which they start.
All offsets, columns and lengths count UTF-8 bytes; lines and columns start
at one.
-/

namespace DataflowTypes

structure Span where
  start : Nat := 0
  stop : Nat := 0
  line : Nat := 0
  column : Nat := 0
deriving DecidableEq, Repr, Inhabited

namespace Span

/-- The smallest span that covers both.  Line and column come from the one that
starts first, from the left one if both start together. -/
def merge (a b : Span) : Span :=
  let first := if a.start ≤ b.start then a else b
  { start := min a.start b.start
    stop := max a.stop b.stop
    line := first.line
    column := first.column }

def length (s : Span) : Nat := s.stop - s.start

def isEmpty (s : Span) : Bool := s.stop ≤ s.start

end Span

def byteLength : List Char → Nat
  | [] => 0
  | c :: cs => c.utf8Size + byteLength cs

@[simp] theorem byteLength_append (cs ds : List Char) :
    byteLength (cs ++ ds) = byteLength cs + byteLength ds := by
  induction cs with
  | nil => simp [byteLength]
  | cons c cs ih => simp [byteLength, ih, Nat.add_assoc]

theorem utf8ByteSize_ofList (cs : List Char) :
    (String.ofList cs).utf8ByteSize = byteLength cs := by
  induction cs with
  | nil => rfl
  | cons c cs ih =>
      rw [String.ofList_cons, String.utf8ByteSize_append, String.utf8ByteSize_singleton, ih]
      rfl

/-! ## Search -/

inductive Place where
  | found (i : Nat)
  /-- The number is missing and would have to be put at this index. -/
  | missing (i : Nat)
deriving DecidableEq, Repr

namespace Place

/-- Looks for `x` from index `low` on and before index `high` by halving that part. -/
def searchIn (xs : Array Nat) (x low high : Nat) (bound : high ≤ xs.size) : Place :=
  if inside : low < high then
    let middle := low + (high - low) / 2
    have isIndex : middle < xs.size := by omega
    if xs[middle] = x then found middle
    else if xs[middle] < x then searchIn xs x (middle + 1) high bound
    else searchIn xs x low middle (Nat.le_of_lt isIndex)
  else missing low
termination_by high - low

def search (xs : Array Nat) (x : Nat) : Place := searchIn xs x 0 xs.size (Nat.le_refl _)

end Place

/-! ## Lines -/

structure LineIndex where
  starts : Array Nat
deriving DecidableEq, Repr

namespace LineIndex

def afterNewlines (offset : Nat) : List Char → List Nat
  | [] => []
  | c :: cs =>
      let next := offset + c.utf8Size
      if c = '\n' then next :: afterNewlines next cs else afterNewlines next cs

def ofString (source : String) : LineIndex :=
  ⟨(0 :: afterNewlines 0 source.toList).toArray⟩

/-- The number of the line of a byte offset, counted from zero.  An offset that starts no line is
in the line before the place it would take among the starts. -/
def line (index : LineIndex) (offset : Nat) : Nat :=
  match Place.search index.starts offset with
  | .found i => i
  | .missing i => i - 1

def lineStart (index : LineIndex) (offset : Nat) : Nat :=
  index.starts.getD (index.line offset) 0

/-- Line and column of a byte offset, which may lie beyond the text. -/
def position (index : LineIndex) (offset : Nat) : Nat × Nat :=
  (index.line offset + 1, offset - index.lineStart offset + 1)

def span (index : LineIndex) (start stop : Nat) : Span :=
  let (line, column) := index.position start
  { start, stop, line, column }

end LineIndex

end DataflowTypes
