import SimpleTypes.Token.Basic

/-!
# The grammar of terms

Token lists and the terms they stand for:

    expression ::= abstraction | spine | spine abstraction
    abstraction ::= LAMBDA VAR DOT expression
    spine ::= atom | spine atom
    atom ::= VAR | LPAREN expression RPAREN

A spine applies its atoms from the left, and an abstraction behind it is its
last argument. An abstraction reaches as far to the right as it can.
-/

namespace SimpleTypes.Grammar

mutual

inductive Expression : List Token → Term → Prop
  | abstraction {x tokens body} : Expression tokens body →
      Expression (.lambda :: .var x :: .dot :: tokens) (.abs x body)
  | spine {tokens term} : Spine tokens term → Expression tokens term
  | applied {front fn x tokens body} : Spine front fn → Expression tokens body →
      Expression (front ++ .lambda :: .var x :: .dot :: tokens) (.app fn (.abs x body))

inductive Spine : List Token → Term → Prop
  | atom {tokens term} : Atom tokens term → Spine tokens term
  | app {front back fn arg} : Spine front fn → Atom back arg →
      Spine (front ++ back) (.app fn arg)

inductive Atom : List Token → Term → Prop
  | var (x : Name) : Atom [.var x] (.var x)
  | group {tokens term} : Expression tokens term →
      Atom (.leftParen :: tokens ++ [.rightParen]) term

end

/-- A complete text, as its tokens. -/
def Sentence (tokens : List Token) : Prop := ∃ term, Expression tokens term

/-- The tokens can be continued to a complete text. -/
def Viable (tokens : List Token) : Prop := ∃ rest, Sentence (tokens ++ rest)

end SimpleTypes.Grammar
