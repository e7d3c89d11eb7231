import SimpleTypes.Term.Basic
import SimpleTypes.Ty.Basic

/-!
# The simply typed lambda calculus

Typing in the style of Curry: terms carry no types, contexts assign types to
names, and an inner binder hides an outer one of the same name.
-/

namespace SimpleTypes

abbrev Context := Table Name Ty

def Context.instantiate (θ : TyVar → Ty) (ctx : Context) : Context :=
  ctx.mapValues (·.instantiate θ)

theorem Context.instantiate_insert (θ : TyVar → Ty) (ctx : Context) (x : Name) (ty : Ty) :
    Context.instantiate θ (ctx.insert x ty) =
      (Context.instantiate θ ctx).insert x (ty.instantiate θ) := by
  apply Table.ext_get?
  intro y
  by_cases h : y = x <;> simp [Context.instantiate, h]

inductive HasType : Context → Term → Ty → Prop
  | var {ctx : Context} {x ty} : ctx.get? x = some ty → HasType ctx (.var x) ty
  | abs {ctx : Context} {x a body b} : HasType (ctx.insert x a) body b →
      HasType ctx (.abs x body) (.arrow a b)
  | app {ctx fn arg a b} : HasType ctx fn (.arrow a b) → HasType ctx arg a →
      HasType ctx (.app fn arg) b

/-- Some context gives the term some type. -/
def Typable (term : Term) : Prop := ∃ ctx ty, HasType ctx term ty

/-- Only the types of the free names matter. -/
theorem HasType.of_agrees {ctx ctx' : Context} {term : Term} {ty : Ty} (h : HasType ctx term ty)
    (hagree : ∀ x, Term.FreeIn x term → ctx'.get? x = ctx.get? x) : HasType ctx' term ty := by
  induction h generalizing ctx' with
  | var h => exact .var ((hagree _ .var).trans h)
  | @abs ctx x a body b _ ih =>
    refine .abs (ih ?_)
    intro y hy
    by_cases hyx : y = x
    · simp [hyx]
    · simpa [hyx] using hagree y (.abs hyx hy)
  | app _ _ ihf iha =>
    exact .app (ihf fun x hx => hagree x (.fn hx)) (iha fun x hx => hagree x (.arg hx))

end SimpleTypes
