import SimpleTypes.Builder
import SimpleTypes.Problem.Solve
import SimpleTypes.Term.Reader

/-!
# Type inference

Drafts the derivation of a term, solves the equations, and resolves the draft.
A session may be used for one term after another; it shows the equations and
the substitution of the last one.
-/

namespace SimpleTypes

structure Session where
  builder : Builder := {}
  equations : Problem := []
  substitution : Substitution := Table.empty

namespace Session

/-- Nothing of an earlier term stays. -/
def reset (s : Session) : Session := ⟨s.builder.reset, [], Table.empty⟩

/-- Starts over and drafts the derivation of a term. -/
def constrain (s : Session) (term : Term) : Derivation × Session :=
  let s := s.reset
  let (draft, builder) := s.builder.build term
  let (equations, builder) := builder.takeEquations
  (draft, { s with builder, equations })

/-- Solves the equations. After an error they are those the solver stopped at,
and the substitution is as it was. -/
def solve (s : Session) : Except TypeError Unit × Session :=
  let solution := Problem.solve s.equations
  match solution.result with
  | .ok σ => (.ok (), { s with equations := solution.problem, substitution := σ })
  | .error error => (.error error, { s with equations := solution.problem })

def infer (s : Session) (term : Term) : Except TypeError Derivation × Session :=
  let (draft, s) := s.constrain term
  let (result, s) := s.solve
  (result.map fun _ => draft.resolve s.substitution, s)

/-- The equations in play are canonical and hold. -/
def isSolved (s : Session) : Bool := s.substitution.solves s.equations

end Session

namespace Term

/-- The equations of a term before they are solved. -/
def equations (term : Term) : List Equation := (Builder.build {} term).2.equations

def derive (term : Term) : Except TypeError Derivation := (Session.infer {} term).1

def inferType (term : Term) : Except TypeError Ty := term.derive.map Derivation.ty

end Term

inductive Outcome where
  | typed (derivation : Derivation)
  | noType (cause : TypeError)

def noTypeText : String := "Expression has no type"

def Outcome.derivation? : Outcome → Option Derivation
  | .typed derivation => some derivation
  | .noType _ => none

def Outcome.render : Outcome → String
  | .typed derivation => derivation.render
  | .noType _ => noTypeText ++ "\n"

def Outcome.ofTerm (term : Term) : Outcome :=
  match term.derive with
  | .ok derivation => .typed derivation
  | .error cause => .noType cause

/-- Types the term that a text spells. -/
def check (text : String) : Except ParseError Outcome := (parse text).map Outcome.ofTerm

end SimpleTypes
