import DataflowTypes.Text.Scanner
import DataflowTypes.Toml.Scalar

/-!
# TOML documents

A reader for the whole format.  A document is lines of keys with values and of
headers; anything that is not well formed makes the whole document unreadable.
-/

namespace DataflowTypes.Toml

open Text (Scanner)
open Text.Scanner

namespace Document

/-! ## Blanks, comments and line ends -/

def isSpace (c : Char) : Bool := c == ' ' || c == '\t'

/-- Characters that may stand in comments and strings: all but controls, and the tab. -/
def isPlain (c : Char) : Bool := c == '\t' || (0x20 ≤ c.toNat && c.toNat != 0x7f)

def spaces : Scanner Unit := discard (takeWhile isSpace)

def newline? : Scanner Bool := do
  if ← accept ['\n'] then return true else accept ['\r', '\n']

def comment : Scanner Unit := do
  if ← sees ['#'] then discard (takeWhile isPlain)

def lineEnd : Scanner Unit := do
  spaces
  comment
  unless ← newline? do
    unless (← get).isEmpty do failure

/-- Blanks, comments and line ends; `fuel` bounds the number of lines. -/
def filler : (fuel : Nat) → Scanner Unit
  | 0 => spaces
  | fuel + 1 => do
      spaces
      comment
      if ← newline? then filler fuel

def fillers : Scanner Unit := do filler (← get).length

/-! ## Strings -/

def codePoint (count : Nat) : Scanner Char := do
  let n ← hexNumber count
  if n < 0xd800 ∨ 0xdfff < n ∧ n < 0x110000 then return Char.ofNat n else failure

def escaped : Scanner Char := do
  match ← next with
  | 'b' => return '\x08'
  | 't' => return '\t'
  | 'n' => return '\n'
  | 'f' => return '\x0c'
  | 'r' => return '\r'
  | 'e' => return '\x1b'
  | '\x22' => return '\x22'
  | '\\' => return '\\'
  | 'x' => codePoint 2
  | 'u' => codePoint 4
  | 'U' => codePoint 8
  | _ => failure

def basicRest : (fuel : Nat) → Scanner (List Char)
  | 0 => failure
  | fuel + 1 => do
      let c ← next
      if c = '\x22' then return []
      else if c = '\\' then
        let e ← escaped
        return e :: (← basicRest fuel)
      else if isPlain c then return c :: (← basicRest fuel)
      else failure

def literalRest : (fuel : Nat) → Scanner (List Char)
  | 0 => failure
  | fuel + 1 => do
      let c ← next
      if c = '\x27' then return []
      else if isPlain c then return c :: (← literalRest fuel)
      else failure

/-- Closes a string of several lines at three quotes; up to two more quotes just before
them belong to it. -/
def closing (quote : Char) : Scanner (List Char) := do
  if ← accept (List.replicate 5 quote) then return [quote, quote]
  else if ← accept (List.replicate 4 quote) then return [quote]
  else
    expect (List.replicate 3 quote)
    return []

def foldedLine : Scanner Unit := do
  spaces
  unless ← newline? do failure
  let cs ← get
  let rest := cs.dropWhile fun c => isSpace c || c == '\n' || c == '\r'
  let skipped := cs.take (cs.length - rest.length)
  if (skipped.zip (skipped.drop 1 ++ [' '])).all fun (c, d) => c != '\r' || d == '\n' then set rest
  else failure

def linesRest (quote : Char) : (fuel : Nat) → Scanner (List Char)
  | 0 => failure
  | fuel + 1 => do
      if ← sees (List.replicate 3 quote) then closing quote
      else if ← newline? then return '\n' :: (← linesRest quote fuel)
      else
        let c ← next
        if c = '\\' ∧ quote = '\x22' then
          let follows := ((← get).dropWhile isSpace).head?
          if follows = some '\n' ∨ follows = some '\r' then
            foldedLine
            linesRest quote fuel
          else
            let e ← escaped
            return e :: (← linesRest quote fuel)
        else if isPlain c then return c :: (← linesRest quote fuel)
        else failure

/-- A string of several lines; a line end just after the opening quotes is not part of it. -/
def linesString (quote : Char) : Scanner String := do
  expect (List.replicate 3 quote)
  discard newline?
  return String.ofList (← linesRest quote ((← get).length + 1))

def lineString : Scanner String := do
  let fuel := (← get).length
  if ← accept ['\x22'] then return String.ofList (← basicRest fuel)
  else
    expect ['\x27']
    return String.ofList (← literalRest fuel)

def string : Scanner String := do
  if ← sees (List.replicate 3 '\x22') then linesString '\x22'
  else if ← sees (List.replicate 3 '\x27') then linesString '\x27'
  else lineString

/-! ## Keys -/

def isBareKeyChar (c : Char) : Bool := c.isAlphanum || c == '_' || c == '-'

def simpleKey : Scanner String := do
  match (← get).head? with
  | some '\x22' | some '\x27' => lineString
  | _ =>
      let cs ← takeWhile isBareKeyChar
      if cs.isEmpty then failure else return String.ofList cs

/-- How many brackets and braces may be open at a time, and how many parts a key may have. -/
def nestingLimit : Nat := 80

/-- At most `room` keys with dots between them; blanks may stand around the dots. -/
def dottedKey : (room : Nat) → Scanner (List String × String)
  | 0 => failure
  | room + 1 => do
      let key ← simpleKey
      spaces
      if ← accept ['.'] then
        spaces
        let (path, last) ← dottedKey room
        return (key :: path, last)
      else
        return ([], key)

def key : Scanner (List String × String) := dottedKey nestingLimit

/-! ## Values -/

def endsScalar (c : Char) : Bool :=
  isSpace c || c == '\n' || c == '\r' || c == ',' || c == ']' || c == '}' || c == '#' || c == '='

/-- A value without quotes.  A date may be separated from its time by one blank. -/
def scalar : Scanner Value := do
  let word ← takeWhile fun c => !endsScalar c
  let rest ← get
  let withTime := date? word == some [] && rest.head? == some ' ' &&
    ((rest.drop 1).head?).any Char.isDigit
  if withTime then
    set (rest.drop 1)
    let time ← takeWhile fun c => !endsScalar c
    liftM (scalar? (word ++ ' ' :: time))
  else
    liftM (scalar? word)

mutual

/-- A value; `fuel` bounds the number of values and brackets in it, and `room` is how many
more of them may be open at a time. -/
def value : (fuel room : Nat) → Scanner Value
  | 0, _ => failure
  | fuel + 1, room => do
      match (← get).head?, room with
      | some '\x22', _ | some '\x27', _ => return .string (← string)
      | some '[', room + 1 =>
          expect ['[']
          return .array (← items fuel room)
      | some '{', room + 1 =>
          expect ['{']
          let t ← members fuel room ⟨.inline, []⟩
          return .table .inline t.entries
      | _, _ => scalar

def items : (fuel room : Nat) → Scanner (List Value)
  | 0, _ => failure
  | fuel + 1, room => do
      fillers
      if ← accept [']'] then return []
      else
        let v ← value fuel room
        fillers
        if ← accept [','] then return v :: (← items fuel room)
        else
          expect [']']
          return [v]

/-- Adds the members of a table in braces up to its closing brace.  The lines of a member
may end before and after its equals sign, but not inside its key. -/
def members : (fuel room : Nat) → Table → Scanner Table
  | 0, _, _ => failure
  | fuel + 1, room, t => do
      fillers
      if ← accept ['}'] then return t
      else
        let (path, last) ← key
        fillers
        expect ['=']
        fillers
        let v ← value fuel room
        let t ← liftM (t.addValue path last v)
        fillers
        if ← accept [','] then members fuel room t
        else
          expect ['}']
          return t

end

/-! ## Lines -/

/-- A document under construction: the table of everything, and the path to the table
that the last header opened. -/
structure Progress where
  root : Table := ⟨.header, []⟩
  current : List String := []

def headerLine (p : Progress) : Scanner Progress := do
  expect ['[']
  let double ← accept ['[']
  spaces
  let (path, last) ← key
  expect [']']
  if double then expect [']']
  lineEnd
  let root ← liftM (if double then p.root.openElement path last else p.root.openTable path last)
  return { root, current := path ++ [last] }

def valueLine (p : Progress) : Scanner Progress := do
  let (path, last) ← key
  expect ['=']
  spaces
  let v ← value ((← get).length + 1) nestingLimit
  lineEnd
  let root ← liftM (p.root.atPath .implied (Table.addValue path last v) p.current)
  return { p with root }

def lines : (fuel : Nat) → Progress → Scanner Table
  | 0, _ => failure
  | fuel + 1, p => do
      spaces
      match ← get with
      | [] => return p.root
      | '[' :: _ => lines fuel (← headerLine p)
      | c :: _ =>
          if c = '#' ∨ c = '\n' ∨ c = '\r' then
            lineEnd
            lines fuel p
          else lines fuel (← valueLine p)

end Document

/-- The entries of a document, if it is well formed.  A byte order mark in front is skipped. -/
def read? (source : String) : Option (List (String × Value)) := do
  let cs := match source.toList with
    | '\ufeff' :: cs => cs
    | cs => cs
  let t ← (Document.lines (cs.length + 1) {}).run' cs
  return t.entries

end DataflowTypes.Toml
