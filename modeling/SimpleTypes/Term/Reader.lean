import SimpleTypes.Token.Lexer

/-!
# Reading terms

A reader takes one token at a time. Its mode says what it has read of the
innermost expression, its stack what encloses that expression. It never looks
ahead: a token is refused as soon as no continuation could accept it, so the
error stands at the first offending place.
-/

namespace SimpleTypes

/-- What encloses the expression being read, innermost first. -/
inductive Reader.Frame where
  /-- An open parenthesis, behind `fn?` if that has been read. -/
  | group (fn? : Option Term)
  /-- An abstraction that is the last argument of `fn`. -/
  | argument (fn : Term)
  /-- The body of an abstraction. -/
  | body (binder : Name)
  deriving DecidableEq, Repr, Inhabited

inductive Reader.Mode where
  /-- Nothing of the expression has been read. -/
  | expression
  /-- A lambda has been read and needs a name. -/
  | binder
  /-- The name of an abstraction has been read and needs a dot. -/
  | dot (binder : Name)
  /-- A term that further atoms may be applied to. -/
  | spine (term : Term)
  deriving DecidableEq, Repr, Inhabited

structure Reader where
  mode : Reader.Mode := .expression
  stack : List Reader.Frame := []
  deriving DecidableEq, Repr, Inhabited

namespace Reader

/-- Closes the abstractions that end where `term` ends. What is left of the
stack is empty or begins at an open parenthesis. -/
def unwind : Term → List Frame → Term × List Frame
  | term, .body binder :: stack => unwind (.abs binder term) stack
  | term, .argument fn :: stack => unwind (.app fn term) stack
  | term, stack => (term, stack)

/-- Applies what stood before a parenthesis to what stood in it. -/
def applyTo : Option Term → Term → Term
  | none, term => term
  | some fn, term => .app fn term

def readExpression (stack : List Frame) (token : Token) (position : Nat) :
    Except ParseError Reader :=
  match token with
  | .lambda => .ok ⟨.binder, stack⟩
  | .var x => .ok ⟨.spine (.var x), stack⟩
  | .leftParen => .ok ⟨.expression, .group none :: stack⟩
  | token => .error (.unexpectedToken token position .expression)

def readBinder (stack : List Frame) (token : Token) (position : Nat) :
    Except ParseError Reader :=
  match token with
  | .var x => .ok ⟨.dot x, stack⟩
  | token => .error (.unexpectedToken token position .abstraction)

def readDot (binder : Name) (stack : List Frame) (token : Token) (position : Nat) :
    Except ParseError Reader :=
  match token with
  | .dot => .ok ⟨.expression, .body binder :: stack⟩
  | token => .error (.unexpectedToken token position .abstraction)

/-- A right parenthesis closes the nearest open one. -/
def close (term : Term) (stack : List Frame) (position : Nat) : Except ParseError Reader :=
  match unwind term stack with
  | (inner, .group fn? :: outer) => .ok ⟨.spine (applyTo fn? inner), outer⟩
  | _ => .error (.trailingInput .rightParen position)

def readSpine (term : Term) (stack : List Frame) (token : Token) (position : Nat) :
    Except ParseError Reader :=
  match token with
  | .var x => .ok ⟨.spine (.app term (.var x)), stack⟩
  | .leftParen => .ok ⟨.expression, .group (some term) :: stack⟩
  | .lambda => .ok ⟨.binder, .argument term :: stack⟩
  | .rightParen => close term stack position
  | token => .error (.unexpectedToken token position .application)

def read (reader : Reader) (token : Token) (position : Nat) : Except ParseError Reader :=
  match reader.mode with
  | .expression => readExpression reader.stack token position
  | .binder => readBinder reader.stack token position
  | .dot binder => readDot binder reader.stack token position
  | .spine term => readSpine term reader.stack token position

/-- Reads in order and stops at the first error. -/
def readAll (reader : Reader) : List Reading → Except ParseError Reader
  | [] => .ok reader
  | .token token position :: rest => do (← reader.read token position).readAll rest
  | .illegal c position :: _ => .error (.illegalCharacter c position)

/-- The term read, if the text may end here. -/
def finish (reader : Reader) (position : Nat) : Except ParseError Term :=
  match reader.mode with
  | .expression => .error (.unexpectedToken .endOfInput position .expression)
  | .binder | .dot _ => .error (.unexpectedToken .endOfInput position .abstraction)
  | .spine term =>
    match unwind term reader.stack with
    | (whole, []) => .ok whole
    | _ => .error (.unmatchedParenthesis position)

end Reader

/-- Reads the term a text spells, or the first error in it. -/
def parse (text : String) : Except ParseError Term := do
  let reader ← Reader.readAll {} (Lexer.ofString text).readings
  reader.finish text.length

end SimpleTypes
