import DataflowTypes.Text.Span

/-!
# Tokens of type expressions
-/

namespace DataflowTypes

inductive TokenKind where
  | arrayTypeWord
  | functionWord
  | objectWord
  | unionOpen
  | unionClose
  | leftBrace
  | rightBrace
  | leftParen
  | rightParen
  | leftBracket
  | rightBracket
  | comma
  | equals
  | colon
  | slash
  | identifier
  | integer
deriving DecidableEq, Repr

namespace TokenKind

/-- The text of a fixed token, the name of the class for the two open ones. -/
def text : TokenKind → String
  | arrayTypeWord => "arrayType"
  | functionWord => "function"
  | objectWord => "object"
  | unionOpen => "\x7b|"
  | unionClose => "|\x7d"
  | leftBrace => "\x7b"
  | rightBrace => "\x7d"
  | leftParen => "("
  | rightParen => ")"
  | leftBracket => "["
  | rightBracket => "]"
  | comma => ","
  | equals => "="
  | colon => ":"
  | slash => "/"
  | identifier => "identifier"
  | integer => "integer"

def tag : TokenKind → String
  | arrayTypeWord => "KwArrayType"
  | functionWord => "KwFunction"
  | objectWord => "KwObject"
  | unionOpen => "UnionOpen"
  | unionClose => "UnionClose"
  | leftBrace => "LBrace"
  | rightBrace => "RBrace"
  | leftParen => "LParen"
  | rightParen => "RParen"
  | leftBracket => "LBracket"
  | rightBracket => "RBracket"
  | comma => "Comma"
  | equals => "Equals"
  | colon => "Colon"
  | slash => "Slash"
  | identifier => "Identifier"
  | integer => "Integer"

def isKeyword : TokenKind → Bool
  | arrayTypeWord | functionWord | objectWord => true
  | _ => false

/-- Keywords are reserved where a type is expected and are labels elsewhere. -/
def isLabel (kind : TokenKind) : Bool := kind == identifier || kind.isKeyword

end TokenKind

structure Token where
  kind : TokenKind
  text : String
  span : Span
deriving DecidableEq, Repr

/-- What the scanner finds: a token, or a character at which none starts. -/
inductive Lexeme where
  | token (t : Token)
  | stray (span : Span)
deriving DecidableEq, Repr

def Lexeme.span : Lexeme → Span
  | token t => t.span
  | stray s => s

end DataflowTypes
