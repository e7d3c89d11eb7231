import SimpleTypes.Proofs.Builder
import SimpleTypes.Proofs.Problem.Renaming

/-!
# A builder's past does not matter

A builder never looks at the equations that it holds, and the counter only
numbers what it hands out next. So builders whose counters differ by an amount
draft a term alike, with the numbers of all type variables differing by this
amount (`shifted`). In particular every builder does what a new one does, with
the numbers moved up by its counter (`build_shifted`).

The parts of a draft and of its equations may be renamed before they are put
together or after. Only the comparison of the types that a name has on both
sides of an application asks for an injective renaming (`clashes_rename`).
-/

namespace SimpleTypes

variable {f : TyVar → TyVar}

-- ---------------------------------------------------------------------------
-- Renaming a draft
-- ---------------------------------------------------------------------------

def Context.rename (f : TyVar → TyVar) (ctx : Context) : Context :=
  ctx.instantiate fun v => .var (f v)

def Judgement.rename (f : TyVar → TyVar) (j : Judgement) : Judgement :=
  ⟨j.context.rename f, j.ty.rename f⟩

def Derivation.rename (f : TyVar → TyVar) : Derivation → Derivation
  | .var c x => .var (c.rename f) x
  | .app c fn arg => .app (c.rename f) (fn.rename f) (arg.rename f)
  | .abs c x body => .abs (c.rename f) x (body.rename f)

namespace Context

@[simp] theorem get?_rename (f : TyVar → TyVar) (ctx : Context) (x : Name) :
    (ctx.rename f).get? x = (ctx.get? x).map (Ty.rename f) :=
  ctx.get?_instantiate x

theorem rename_insert (ctx : Context) (x : Name) (ty : Ty) :
    Context.rename f (ctx.insert x ty) = (ctx.rename f).insert x (ty.rename f) :=
  ctx.instantiate_insert _ x ty

theorem rename_erase (ctx : Context) (x : Name) :
    Context.rename f (ctx.erase x) = (ctx.rename f).erase x := by
  apply Table.ext_get?
  intro y
  by_cases h : y = x <;> simp [h]

theorem rename_override (lower upper : Context) :
    Context.rename f (lower.override upper) = (lower.rename f).override (upper.rename f) := by
  apply Table.ext_get?
  intro x
  simp [Option.map_or]

theorem clashes_rename (hf : Function.Injective f) (first second : Context) :
    clashes (first.rename f) (second.rename f) =
      (clashes first second).map (Equation.rename f) := by
  have hentries : (second.rename f).entries =
      second.entries.map fun entry => (entry.1, entry.2.rename f) := rfl
  rw [clashes, hentries, List.filterMap_map, clashes, List.map_filterMap]
  refine List.filterMap_congr ?_
  rintro ⟨x, t'⟩ -
  cases h : first.get? x with
  | none => simp [h]
  | some t =>
    by_cases heq : t = t'
    · simp [h, heq]
    · have hne : t.rename f ≠ t'.rename f := (Ty.rename_injective hf).ne heq
      simp [h, heq, hne, Equation.rename]

end Context

namespace Derivation

@[simp] theorem context_rename (d : Derivation) : (d.rename f).context = d.context.rename f := by
  cases d <;> rfl

@[simp] theorem ty_rename (d : Derivation) : (d.rename f).ty = d.ty.rename f := by
  cases d <;> rfl

theorem rename_bind (x : Name) (ty : Ty) (d : Derivation) :
    (d.bind x ty).rename f = (d.rename f).bind x (ty.rename f) := by
  cases d <;> simp [bind, rename, Judgement.rename, Context.rename_insert]

end Derivation

namespace Builder

theorem rename_varConclusion (x : Name) (ty : Ty) :
    (varConclusion x ty).rename f = varConclusion x (ty.rename f) :=
  congrArg (Judgement.mk · (ty.rename f)) (Context.rename_insert Table.empty x ty)

theorem rename_appConclusion (fn arg : Derivation) (ty : Ty) :
    (appConclusion fn arg ty).rename f =
      appConclusion (fn.rename f) (arg.rename f) (ty.rename f) := by
  simp [appConclusion, Judgement.rename, Context.rename_override]

theorem rename_absConclusion (x : Name) (param : Ty) (body : Derivation) :
    (absConclusion x param body).rename f = absConclusion x (param.rename f) (body.rename f) := by
  simp [absConclusion, Judgement.rename, Context.rename_erase, Ty.rename, Ty.instantiate]

theorem appEquations_rename (hf : Function.Injective f) (fn arg : Derivation) (ty : Ty) :
    appEquations (fn.rename f) (arg.rename f) (ty.rename f) =
      (appEquations fn arg ty).map (Equation.rename f) := by
  simp [appEquations, Context.clashes_rename hf, Equation.rename, Ty.rename, Ty.instantiate]

-- ---------------------------------------------------------------------------
-- Counters that differ by an amount
-- ---------------------------------------------------------------------------

variable {b b' : Builder} {amount : Nat}

/-- The second builder drafts the term as the first does, with all numbers
higher by an amount. -/
structure Shifted (amount : Nat) (b b' : Builder) (term : Term) : Prop where
  draft : b'.draft term = (b.draft term).rename (· + amount)
  added : b'.added term = (b.added term).map (Equation.rename (· + amount))
  counter : (b'.after term).counter = (b.after term).counter + amount

theorem freshTy_shifted (h : b'.counter = b.counter + amount) :
    b'.freshTy = b.freshTy.rename (· + amount) := by
  simp [freshTy, Ty.rename, Ty.instantiate, h, Nat.add_right_comm]

theorem advance_shifted (h : b'.counter = b.counter + amount) :
    b'.advance.counter = b.advance.counter + amount := by
  rw [advance, advance, h, Nat.add_right_comm]

theorem shifted (h : b'.counter = b.counter + amount) (term : Term) :
    Shifted amount b b' term := by
  have hinjective : Function.Injective (· + amount) := fun m n => Nat.add_right_cancel
  induction term generalizing b b' with
  | var x =>
    refine ⟨?_, rfl, ?_⟩
    · rw [draft_var, draft_var, Derivation.rename, rename_varConclusion, freshTy_shifted h]
    · rw [after_var, after_var, advance_shifted h]
  | app fn arg ihf iha =>
    -- The argument starts where the function ends, so the counters still differ by the amount.
    have hfn := ihf h
    have harg := iha hfn.counter
    have hty := freshTy_shifted harg.counter
    refine ⟨?_, ?_, ?_⟩
    · rw [draft_app, draft_app, Derivation.rename, rename_appConclusion, hfn.draft, harg.draft, hty]
    · rw [added, added, hfn.added, harg.added, hfn.draft, harg.draft, hty,
        appEquations_rename hinjective, List.map_append, List.map_append]
    · rw [after_app, after_app]
      exact advance_shifted harg.counter
  | abs x body ih =>
    have hbody := ih h
    have hty := freshTy_shifted hbody.counter
    have hcontext : (b'.draft body).context.get? x =
        ((b.draft body).context.get? x).map (Ty.rename (· + amount)) := by
      rw [hbody.draft, Derivation.context_rename, Context.get?_rename]
    cases hx : (b.draft body).context.get? x with
    | some param =>
      have hx' : (b'.draft body).context.get? x = some (param.rename (· + amount)) := by
        rw [hcontext, hx, Option.map_some]
      refine ⟨?_, hbody.added, ?_⟩
      · rw [draft_abs_of_some hx, draft_abs_of_some hx', Derivation.rename, rename_absConclusion,
          hbody.draft]
      · rw [after_abs_of_some hx, after_abs_of_some hx', hbody.counter]
    | none =>
      have hx' : (b'.draft body).context.get? x = none := by rw [hcontext, hx, Option.map_none]
      refine ⟨?_, hbody.added, ?_⟩
      · rw [draft_abs_of_none hx, draft_abs_of_none hx', Derivation.rename, rename_absConclusion,
          Derivation.rename_bind, hbody.draft, hty]
      · rw [after_abs_of_none hx, after_abs_of_none hx', advance_shifted hbody.counter]

/-- Whatever a builder has done before, it drafts what a new builder drafts and
puts the equations of a new builder behind its own, with the numbers of all type
variables moved up by its counter. The counter goes up by as much as a new one. -/
theorem build_shifted (b : Builder) (term : Term) :
    b.build term =
      ((build {} term).1.rename (· + b.counter),
        { counter := b.counter + (build {} term).2.counter
          equations := b.equations ++
            (build {} term).2.equations.map (Equation.rename (· + b.counter)) }) := by
  have hshifted : Shifted b.counter {} b term := shifted (Nat.zero_add _).symm term
  have hequations : (b.after term).equations = b.equations ++
      (after {} term).equations.map (Equation.rename (· + b.counter)) := by
    rw [equations_after, equations_after, List.nil_append, hshifted.added]
  have hcounter : (b.after term).counter = b.counter + (after {} term).counter := by
    rw [hshifted.counter, Nat.add_comm]
  exact Prod.ext hshifted.draft (congrArg₂ Builder.mk hcounter hequations)

end Builder

end SimpleTypes
