import SimpleTypes.Ty.Basic

/-!
# Typing errors
-/

namespace SimpleTypes

inductive TypeError where
  /-- A variable would have to equal a type it occurs in. -/
  | infiniteType (v : TyVar) (ty : Ty)
  /-- No rule applies, and this equation is not in solved form. -/
  | unsolvable (left right : Ty)
  deriving DecidableEq, Repr, Inhabited

def TypeError.message : TypeError → String
  | .infiniteType v ty =>
    "Occurs check failed: variable '" ++ TyVar.render v ++ "' occurs in type " ++ ty.render
  | .unsolvable left right =>
    "Constraint system has no solved form: " ++ left.render ++ " = " ++ right.render

end SimpleTypes
