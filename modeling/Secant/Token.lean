import Secant.Op

/-!
Tokens: what the text of an expression is made of, with the place where each piece stands. Places
count characters from zero, and `stop` is the place behind the last character.
-/

namespace Secant

inductive Lexeme
  | number (text : String)
  | name (text : String)
  | op (sign : Op)
  | leftParen
  | rightParen
  | comma
  | eof
deriving DecidableEq, Repr

/-- A lexeme as it is shown; but for the end this is also how it is typed. -/
def Lexeme.text : Lexeme → String
  | number text => text
  | name text => text
  | op sign => String.singleton sign.symbol
  | leftParen => "("
  | rightParen => ")"
  | comma => ","
  | eof => "EOF"

structure Token where
  lexeme : Lexeme
  start : Nat
  stop : Nat
deriving DecidableEq, Repr

namespace Token

def text (token : Token) : String :=
  token.lexeme.text

def isEof (token : Token) : Bool :=
  token.lexeme == .eof

def eofAt (place : Nat) : Token :=
  ⟨.eof, place, place⟩

end Token

end Secant
