import DataflowTypes.Expr.Basic
import DataflowTypes.Expr.Error
import DataflowTypes.Token.Scan
import DataflowTypes.Number.Word

/-!
# Reading type expressions

The grammar, with `NAME` an identifier, `LABEL` an identifier or a keyword and
`INT` a number below 2^64:

    type  := NAME | '[' NAME ']' | 'arrayType' '(' type [ ',' INT ] ')' | '{' type '}'
           | '{' [ field { ',' field } ] '}' | '{|' [ field { ',' field } ] '|}'
           | '(' 'function' '(' [ param { ',' param } ] ')' type ')'
           | 'object' [ '(' [ NAME { '/' NAME } ] ')' ]
    field := LABEL '=' type
    param := LABEL ':' type

After `{` a label with `=` behind it starts a record, anything else an array.
The reader looks one lexeme ahead of the token it is at, so that a stray
character is reported as soon as the token before it is taken.
-/

namespace DataflowTypes

/-- A place in the lexemes of a source: the token there, what follows it, the
span of the token before it, and the span of the end of the source. -/
structure Cursor where
  current : Option Token
  rest : List Lexeme
  previous : Span
  finish : Span
deriving Repr

namespace Cursor

def isAt (c : Cursor) (kind : TokenKind) : Bool := c.current.any (·.kind == kind)

def isAtLabel (c : Cursor) : Bool := c.current.any (·.kind.isLabel)

def unexpected (c : Cursor) (expected : String) : ParseError :=
  match c.current with
  | some t => .unexpectedToken t.text expected t.span
  | none => .unexpectedEnd expected c.finish

def advance (c : Cursor) : Except ParseError Cursor :=
  let previous := (c.current.map (·.span)).getD c.previous
  match c.rest with
  | [] => .ok { c with current := none, previous }
  | .token t :: rest => .ok { c with current := some t, rest, previous }
  | .stray s :: _ => .error (.strayCharacter s)

def nextIs (c : Cursor) (kind : TokenKind) : Except ParseError Bool :=
  match c.rest with
  | [] => .ok false
  | .token t :: _ => .ok (t.kind == kind)
  | .stray s :: _ => .error (.strayCharacter s)

def startsField (c : Cursor) : Except ParseError Bool :=
  if c.isAtLabel then c.nextIs .equals else .ok false

def start (source : String) : Except ParseError Cursor :=
  advance { current := none, rest := tokenize source, previous := {}, finish := endSpan source }

def remaining (c : Cursor) : Nat := c.rest.length + 1

end Cursor

abbrev Reader := StateT Cursor (Except ParseError)

namespace Reader

def skip : Reader Unit := do set (← (← get).advance)

def takeIf (accepts : TokenKind → Bool) (expected : String) : Reader Token := do
  let c ← get
  match c.current with
  | some t => if accepts t.kind then skip; return t else throw (c.unexpected expected)
  | none => throw (c.unexpected expected)

def expect (kind : TokenKind) : Reader Token := takeIf (· == kind) s!"'{kind.text}'"

def label : Reader Token := takeIf TokenKind.isLabel "a label"

def taken (kind : TokenKind) : Reader Bool := do
  if (← get).isAt kind then
    skip
    return true
  else
    return false

def spanFrom (first : Span) : Reader Span := return first.merge (← get).previous

def maxLength : Nat := wordLimit - 1

def decimalValue (digits : List Char) : Nat :=
  digits.foldl (fun n d => 10 * n + (d.toNat - '0'.toNat)) 0

def numeral : Reader Nat := do
  let literal ← expect .integer
  let n := decimalValue literal.text.toList
  if n ≤ maxLength then return n
  else throw (.invalidLength literal.text literal.span)

def lengthAfterComma : Reader (Option Nat) := do
  if ← taken .comma then return some (← numeral) else return none

/-- Names with slashes between them; `fuel` bounds their number. -/
def path : (fuel : Nat) → Reader (List String)
  | 0 => do throw ((← get).unexpected s!"'{TokenKind.identifier.text}'")
  | fuel + 1 => do
      let name ← expect .identifier
      if ← taken .slash then return name.text :: (← path fuel)
      else return [name.text]

def unlessClosed (close : TokenKind) (items : Reader (List FieldExpr)) :
    Reader (List FieldExpr) := do
  if ← taken close then return [] else items

/-- What is behind an opening brace: a record if it closes at once or a field starts, else the
element of an array. -/
def braced (first : Span) (fields : Reader (List FieldExpr)) (type : Reader Expr) :
    Reader Expr := do
  if ← taken .rightBrace then return .record [] (← spanFrom first)
  if ← (← get).startsField then return .record (← fields) (← spanFrom first)
  let element ← type
  let _ ← expect .rightBrace
  return .array element none (← spanFrom first)

mutual

/-- A type; `fuel` bounds the number of tokens in front of its innermost part. -/
def type : (fuel : Nat) → Reader Expr
  | 0 => do throw ((← get).unexpected "a type")
  | fuel + 1 => do
      let c ← get
      match c.current with
      | none => throw (c.unexpected "a type")
      | some t =>
          match t.kind with
          | .identifier =>
              skip
              return .named t.text t.span
          | .leftBracket =>
              skip
              let name ← expect .identifier
              let _ ← expect .rightBracket
              return .matrix name.text (← spanFrom t.span)
          | .arrayTypeWord =>
              skip
              let _ ← expect .leftParen
              let element ← type fuel
              let length ← lengthAfterComma
              let _ ← expect .rightParen
              return .array element length (← spanFrom t.span)
          | .leftBrace =>
              skip
              braced t.span (fields .equals .rightBrace fuel) (type fuel)
          | .unionOpen =>
              skip
              let fields ← unlessClosed .unionClose (fields .equals .unionClose fuel)
              return .union fields (← spanFrom t.span)
          | .leftParen =>
              skip
              let _ ← expect .functionWord
              let _ ← expect .leftParen
              let params ← unlessClosed .rightParen (fields .colon .rightParen fuel)
              let result ← type fuel
              let _ ← expect .rightParen
              return .function params result (← spanFrom t.span)
          | .objectWord =>
              skip
              if ← taken .leftParen then
                if ← taken .rightParen then
                  return .object .impossible (← spanFrom t.span)
                let names ← path fuel
                let _ ← expect .rightParen
                return .object (.named names) (← spanFrom t.span)
              else
                return .object .unconstrained t.span
          | _ => throw (c.unexpected "a type")

/-- At least one labelled type, with commas between them, and the token that
closes the list. -/
def fields (separator close : TokenKind) : (fuel : Nat) → Reader (List FieldExpr)
  | 0 => do throw ((← get).unexpected "a label")
  | fuel + 1 => do
      let name ← label
      let _ ← expect separator
      let content ← type fuel
      let field := FieldExpr.mk name.text content (name.span.merge content.span)
      if ← taken .comma then return field :: (← fields separator close fuel)
      else
        let _ ← expect close
        return [field]

end

def wholeType : Reader Expr := do
  let expr ← type (← get).remaining
  let c ← get
  match c.current with
  | none => return expr
  | some t => throw (.unexpectedToken t.text "end of input" t.span)

end Reader

def Expr.parse (source : String) : Except ParseError Expr := do
  let c ← Cursor.start source
  Reader.wholeType.run' c

end DataflowTypes
