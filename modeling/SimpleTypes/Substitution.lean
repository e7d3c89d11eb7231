import SimpleTypes.Equation
import SimpleTypes.Typing

/-!
# Finite substitutions

A substitution binds finitely many type variables. A bound type may mention
bound variables again, so applying one takes rounds: `applyOnce` looks every
variable up once, `apply` repeats that until nothing changes, but no more than
`size + 1` times, because a substitution may be cyclic.
-/

namespace SimpleTypes

abbrev Substitution := Table TyVar Ty

namespace Substitution

/-- The type a variable is sent to in one round. -/
def lookup (σ : Substitution) (v : TyVar) : Ty := (σ.get? v).getD (.var v)

def applyOnce (σ : Substitution) (ty : Ty) : Ty := ty.instantiate σ.lookup

/-- At most `rounds` rounds; none after the first that changes nothing. -/
def applyRounds (σ : Substitution) : Nat → Ty → Ty
  | 0, ty => ty
  | rounds + 1, ty =>
    let next := σ.applyOnce ty
    if next = ty then ty else σ.applyRounds rounds next

def apply (σ : Substitution) (ty : Ty) : Ty := σ.applyRounds (σ.size + 1) ty

def applyContext (σ : Substitution) (ctx : Context) : Context := ctx.mapValues σ.apply

/-- Binds the left variable of every equation in play that has one. Of two
equations for one variable the later counts. -/
def ofEquations (equations : List Equation) : Substitution :=
  Table.ofList (equations.filterMap fun e =>
    if e.deleted then none else e.left.asVar?.map fun v => (v, e.right))

/-- Every equation in play is canonical, and its sides agree under `σ`. -/
def solves (σ : Substitution) (equations : List Equation) : Bool :=
  equations.all fun e => e.deleted || (e.isCanonical && σ.apply e.left == σ.apply e.right)

def renderEntry (entry : TyVar × Ty) : String :=
  TyVar.render entry.1 ++ " := " ++ entry.2.render

def render (σ : Substitution) : String :=
  "\x7b" ++ ", ".intercalate (σ.entries.map renderEntry) ++ "\x7d"

end Substitution

end SimpleTypes
