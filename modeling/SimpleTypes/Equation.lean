import SimpleTypes.Ty.Basic

/-!
# Equations between types

An equation carries two marks. One that is `used` has been applied to all
others; one that is `deleted` is out of play, and is kept only as a record.
-/

namespace SimpleTypes

structure Equation where
  left : Ty
  right : Ty
  used : Bool := false
  deleted : Bool := false
  deriving DecidableEq, Repr, Inhabited

namespace Equation

def swap (e : Equation) : Equation := { e with left := e.right, right := e.left }

def sidesEqual (e : Equation) : Bool := e.left == e.right

/-- A variable on the left that does not occur on the right. -/
def isCanonical (e : Equation) : Bool :=
  match e.left with
  | .var v => !e.right.occurs v
  | .arrow .. => false

/-- Replaces a variable on both sides, unless the equation is out of play. -/
def replace (e : Equation) (v : TyVar) (replacement : Ty) : Equation :=
  if e.deleted then e
  else { e with left := e.left.replace v replacement, right := e.right.replace v replacement }

def render (e : Equation) : String := e.left.render ++ " = " ++ e.right.render

/-- The two sides become one type. -/
def Holds (θ : TyVar → Ty) (e : Equation) : Prop := e.left.instantiate θ = e.right.instantiate θ

end Equation

/-- The map makes every equation in play hold. -/
def Unifies (θ : TyVar → Ty) (equations : List Equation) : Prop :=
  ∀ e ∈ equations, e.deleted = false → e.Holds θ

end SimpleTypes
