import SimpleTypes.Ty.Basic

/-!
# Types with letters for variables

The variables of a type are named by letters in the order in which they first
appear, so the text does not depend on how the variables were numbered.
-/

namespace SimpleTypes

/-- `a` to `z`, then `a1` to `z1`, `a2` to `z2`, and so on. -/
def letterName (index : Nat) : String :=
  let letter := (Char.ofNat ('a'.toNat + index % 26)).toString
  if index / 26 = 0 then letter else letter ++ (index / 26).repr

/-- The name of a variable among `vars`, by its place there. -/
def letterIn (vars : List TyVar) (v : TyVar) : String := letterName (vars.idxOf v)

def Ty.normalized (ty : Ty) : String := ty.renderWith (letterIn ty.vars)

end SimpleTypes
