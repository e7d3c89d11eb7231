import SimpleTypes.Token.Lexer

/-!
# Recursive descent

A descent reads an expression by one function for each production, and looks
one token ahead:

    expression ::= '\' name '.' expression | application
    application ::= atom+ | atom+ expression, if that begins with '\'
    atom ::= name | '(' expression ')'

Each function refuses whatever token it cannot go on with, also one that none of
its callers leaves it.

The functions end because every token that is taken makes what is left smaller
(`Descent.size`). A result carries the proof that it does, so a caller can go on
behind it.
-/

namespace SimpleTypes

/-- The terms as one application, from the left. -/
def Term.applied? : List Term → Option Term
  | [] => none
  | fn :: arguments => some (arguments.foldl .app fn)

/-- The token that is looked at, and the text behind it. -/
structure Descent where
  lexer : Lexer
  current : Placed
  deriving DecidableEq, Repr, Inhabited

namespace Descent

/-- No token has been looked at yet. -/
def ofString (text : String) : Descent := ⟨.ofString text, ⟨.start, 0⟩⟩

/-- How much is still to be read, the token that is looked at included. -/
def size (d : Descent) : Nat :=
  d.lexer.rest.length + if d.current.token = .endOfInput then 0 else 1

abbrev Rest (d : Descent) := { next : Descent // next.size ≤ d.size }

abbrev Later (d : Descent) := { next : Descent // next.size < d.size }

/-- Looks at the next token. -/
def next (d : Descent) : Except ParseError Descent :=
  d.lexer.next.1.toExcept.map fun placed => ⟨d.lexer.next.2, placed⟩

theorem size_of_next {d after : Descent} (hend : d.current.token ≠ .endOfInput)
    (h : d.next = .ok after) : after.size < d.size := by
  unfold next at h
  cases hrest : d.lexer.skipBlanks.rest with
  | nil =>
    simp only [Lexer.next, hrest, Reading.toExcept, Except.map] at h
    cases h
    simp [size, hend, hrest]
  | cons c rest =>
    have hlength := Lexer.length_next_lt hrest
    cases hplaced : d.lexer.next.1.toExcept with
    | error e => simp [hplaced, Except.map] at h
    | ok placed =>
      simp only [hplaced, Except.map] at h
      cases h
      simp only [size, hend, if_false]
      split <;> omega

def advance (d : Descent) (hend : d.current.token ≠ .endOfInput) : Except ParseError d.Later :=
  match h : d.next with
  | .ok after => .ok ⟨after, size_of_next hend h⟩
  | .error e => .error e

def unexpected (d : Descent) (production : Production) : ParseError :=
  .unexpectedToken d.current.token d.current.position production

-- With as much left, an application comes before the terms in it, and an
-- expression before both, unless it is an abstraction.
mutual

def expression (d : Descent) : Except ParseError (Term × d.Rest) :=
  match h : d.current.token with
  | .lambda => d.abstraction (by simp [h])
  | .var _ | .leftParen => d.application
  | _ => throw (d.unexpected .expression)
termination_by (d.size, if d.current.token = .lambda then 1 else 4)
decreasing_by all_goals exact Prod.Lex.right _ (by simp [h])

def abstraction (d : Descent) (hend : d.current.token ≠ .endOfInput) :
    Except ParseError (Term × d.Rest) := do
  let ⟨d₁, h₁⟩ ← d.advance hend
  match hname : d₁.current.token with
  | .var binder =>
    let ⟨d₂, h₂⟩ ← d₁.advance (by simp [hname])
    match hdot : d₂.current.token with
    | .dot =>
      let ⟨d₃, h₃⟩ ← d₂.advance (by simp [hdot])
      let (body, ⟨d₄, h₄⟩) ← d₃.expression
      return (.abs binder body, ⟨d₄, by omega⟩)
    | _ => throw (d₂.unexpected .abstraction)
  | _ => throw (d₁.unexpected .abstraction)
termination_by (d.size, 0)

def application (d : Descent) : Except ParseError (Term × d.Rest) := do
  let (terms, d₁) ← d.applicants []
  match Term.applied? terms with
  | some term => return (term, d₁)
  | none => throw (d₁.val.unexpected .application)
termination_by (d.size, 3)

/-- Goes on behind the terms that have been read already. An abstraction is
the last one. -/
def applicants (d : Descent) (read : List Term) : Except ParseError (List Term × d.Rest) :=
  match h : d.current.token with
  | .var _ | .leftParen => do
    let (term, ⟨d₁, h₁⟩) ← d.atom
    let (terms, ⟨d₂, h₂⟩) ← d₁.applicants (read ++ [term])
    return (terms, ⟨d₂, by omega⟩)
  | .lambda => do
    let (term, d₁) ← d.expression
    return (read ++ [term], d₁)
  | .endOfInput | .rightParen => return (read, ⟨d, Nat.le_refl _⟩)
  | _ => throw (d.unexpected .application)
termination_by (d.size, 2)
decreasing_by
  · exact Prod.Lex.right _ (by decide)
  · exact Prod.Lex.left _ _ h₁
  · exact Prod.Lex.right _ (by decide)
  · exact Prod.Lex.left _ _ h₁
  · exact Prod.Lex.right _ (by simp [h])

def atom (d : Descent) : Except ParseError (Term × d.Later) :=
  match h : d.current.token with
  | .leftParen => do
    let ⟨d₁, h₁⟩ ← d.advance (by simp [h])
    let (term, ⟨d₂, h₂⟩) ← d₁.expression
    match hright : d₂.current.token with
    | .rightParen =>
      let ⟨d₃, h₃⟩ ← d₂.advance (by simp [hright])
      return (term, ⟨d₃, by omega⟩)
    | _ => throw (.unmatchedParenthesis d₂.current.position)
  | .var x => do
    let d₁ ← d.advance (by simp [h])
    return (.var x, d₁)
  | _ => throw (d.unexpected .atom)
termination_by (d.size, 0)

end

/-- Reads the term a text spells, or the first error in it. -/
def run (text : String) : Except ParseError Term := do
  let ⟨d₁, _⟩ ← (ofString text).advance (by simp [ofString])
  let (term, ⟨d₂, _⟩) ← d₁.expression
  match d₂.current.token with
  | .endOfInput => return term
  | token => throw (.trailingInput token d₂.current.position)

end Descent

end SimpleTypes
