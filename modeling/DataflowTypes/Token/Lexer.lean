import DataflowTypes.Text.Quoted
import DataflowTypes.Token.Scan

/-!
# A stream of lexemes with one of lookahead

Lexemes are cut off the text one at a time, when they are asked for.
-/

namespace DataflowTypes

/-- `ahead` is the lexeme that was looked at and not yet taken; `rest` is the text behind it,
from the byte `offset` on. -/
structure Lexer where
  source : String
  index : LineIndex
  ahead : Option Lexeme := none
  offset : Nat := 0
  rest : List Char
deriving Repr

namespace Lexer

def ofString (source : String) : Lexer :=
  { source, index := .ofString source, rest := source.toList }

def scanOne (l : Lexer) : Option Lexeme × Lexer :=
  match Scan.first? l.index l.offset l.rest with
  | none => (none, l)
  | some (x, offset, rest) => (some x, { l with offset, rest })

def peek (l : Lexer) : Option Lexeme × Lexer :=
  match l.ahead with
  | some x => (some x, l)
  | none =>
      let (ahead, l) := l.scanOne
      (ahead, { l with ahead })

def next (l : Lexer) : Option Lexeme × Lexer :=
  match l.ahead with
  | some x => (some x, { l with ahead := none })
  | none => l.scanOne

def endSpan (l : Lexer) : Span := DataflowTypes.endSpan l.source

end Lexer

/-! ## Listings -/

def Span.listing (s : Span) : String :=
  Text.structured "Span" [("start", toString s.start), ("end", toString s.stop),
    ("line", toString s.line), ("column", toString s.column)] false

def Lexeme.listing : Lexeme → String
  | token t =>
      "Ok(" ++ Text.structured "SpannedToken" [("token", t.kind.tag), ("span", t.span.listing),
        ("text", Text.quote t.text)] false ++ ")"
  | stray s => "Err(" ++ Text.structured "LexerError" [("span", s.listing)] false ++ ")"

def Lexer.listing (l : Lexer) : String :=
  let ahead := match l.ahead with
    | none => "None"
    | some x => "Some(" ++ x.listing ++ ")"
  Text.structured "Lexer" [("source", Text.quote l.source), ("peeked", ahead)] true

end DataflowTypes
