import SimpleTypes.Term.Basic

/-!
# Tokens

A token, the place it stands at, and its printed form. Places count characters
from the start of the text.
-/

namespace SimpleTypes

inductive Token where
  /-- The token before any text has been read. -/
  | start
  | var (name : Name)
  | lambda
  | dot
  | leftParen
  | rightParen
  | endOfInput
  deriving DecidableEq, Repr, Inhabited

def Token.render : Token → String
  | .start => "START"
  | .var name => "VAR(" ++ name ++ ")"
  | .lambda => "LAMBDA"
  | .dot => "DOT"
  | .leftParen => "LPAREN"
  | .rightParen => "RPAREN"
  | .endOfInput => "END"

/-- The token a single character stands for. -/
def Token.ofSymbol? (c : Char) : Option Token :=
  if c = '\\' then some .lambda
  else if c = '.' then some .dot
  else if c = '(' then some .leftParen
  else if c = ')' then some .rightParen
  else none

structure Placed where
  token : Token
  position : Nat
  deriving DecidableEq, Repr, Inhabited

end SimpleTypes
