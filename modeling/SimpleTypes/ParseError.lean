import SimpleTypes.Token.Basic

/-!
# Syntax errors

What can be wrong with a text, where, and how it is worded.
-/

namespace SimpleTypes

/-- The parts of the grammar, as an error names them. -/
inductive Production where
  | expression
  | abstraction
  | application
  | atom
  deriving DecidableEq, Repr, Inhabited

def Production.render : Production → String
  | .expression => "expression"
  | .abstraction => "abstraction"
  | .application => "application"
  | .atom => "atom"

inductive ParseError where
  | illegalCharacter (character : Char) (position : Nat)
  | unexpectedToken (token : Token) (position : Nat) (production : Production)
  | unmatchedParenthesis (position : Nat)
  | trailingInput (token : Token) (position : Nat)
  deriving DecidableEq, Repr, Inhabited

namespace ParseError

def position : ParseError → Nat
  | .illegalCharacter _ position => position
  | .unexpectedToken _ position _ => position
  | .unmatchedParenthesis position => position
  | .trailingInput _ position => position

/-- The one character an error points at, as a half-open interval. -/
def span (error : ParseError) : Nat × Nat := (error.position, error.position + 1)

def message : ParseError → String
  | .illegalCharacter c position =>
    "Illegal character '" ++ c.toString ++ "' at " ++ position.repr
  | .unexpectedToken token position production =>
    "Unexpected token " ++ token.render ++ " at " ++ position.repr ++ " in " ++
      production.render ++ "()"
  | .unmatchedParenthesis position => "No right parenthesis at " ++ position.repr
  | .trailingInput token position =>
    "Unexpected trailing token " ++ token.render ++ " at " ++ position.repr

/-- The remark that goes with the marked character. -/
def label : ParseError → String
  | .illegalCharacter c _ => "'" ++ c.toString ++ "' is not part of the grammar"
  | .unexpectedToken token _ production =>
    token.render ++ " cannot appear here (" ++ production.render ++ ")"
  | .unmatchedParenthesis _ => "expected ')'"
  | .trailingInput token _ => token.render ++ " follows a complete expression"

end ParseError

end SimpleTypes
