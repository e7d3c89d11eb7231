import Mathlib.Logic.Function.Basic
import SimpleTypes.Builder
import SimpleTypes.Proofs.Problem.Unifier

/-!
# The equations of a term are exact

The equations that a term adds have a solution for every typing of the term,
and every solution is a typing: `hasType_of_unifies` and `realizes_of_hasType`
say so of the root of the draft. The first is an induction on the term. The
second extends a map from the variables handed out before to those handed out
for the term, so it needs that the draft and the equations of a term have no
variable beyond the counter (`fresh_draft`).
-/

namespace SimpleTypes

variable {θ φ : TyVar → Ty} {b : Builder} {term fn arg body : Term} {x : Name}

-- ---------------------------------------------------------------------------
-- Shared names
-- ---------------------------------------------------------------------------

theorem Context.mem_clashes {first second : Context} {e : Equation}
    (h : e ∈ Context.clashes first second) :
    ∃ x t t', first.get? x = some t ∧ second.get? x = some t' ∧ e = { left := t, right := t' } := by
  obtain ⟨⟨x, t'⟩, hmem, hentry⟩ := List.mem_filterMap.mp h
  simp only at hentry
  split at hentry
  · next t ht =>
    split at hentry
    · cases hentry
    · cases hentry
      exact ⟨x, t, t', ht, Table.get?_eq_some_iff.mpr hmem, rfl⟩
  · cases hentry

theorem Context.unifies_clashes_iff {first second : Context} :
    Unifies θ (Context.clashes first second) ↔ ∀ x t t', first.get? x = some t →
      second.get? x = some t' → t.instantiate θ = t'.instantiate θ := by
  constructor
  · intro h x t t' ht ht'
    by_cases heq : t = t'
    · rw [heq]
    · refine h { left := t, right := t' } ?_ rfl
      exact List.mem_filterMap.mpr ⟨(x, t'), Table.get?_eq_some_iff.mp ht', by simp [ht, heq]⟩
  · intro h e he _
    obtain ⟨x, t, t', ht, ht', rfl⟩ := Context.mem_clashes he
    exact h x t t' ht ht'

@[simp] theorem Context.get?_instantiate (ctx : Context) (x : Name) :
    (ctx.instantiate θ).get? x = (ctx.get? x).map (·.instantiate θ) :=
  Table.get?_mapValues ctx _ x

namespace Builder

-- ---------------------------------------------------------------------------
-- One term after another
-- ---------------------------------------------------------------------------

def draft (b : Builder) (term : Term) : Derivation := (b.build term).1

def after (b : Builder) (term : Term) : Builder := (b.build term).2

theorem draft_var (b : Builder) (x : Name) :
    b.draft (.var x) = .var (varConclusion x b.freshTy) x := rfl

theorem draft_app (b : Builder) (fn arg : Term) :
    b.draft (.app fn arg) =
      .app (appConclusion (b.draft fn) ((b.after fn).draft arg) ((b.after fn).after arg).freshTy)
        (b.draft fn) ((b.after fn).draft arg) := rfl

theorem draft_abs_of_some {param : Ty} (h : (b.draft body).context.get? x = some param) :
    b.draft (.abs x body) = .abs (absConclusion x param (b.draft body)) x (b.draft body) := by
  unfold draft at h ⊢
  simp only [build, h]

theorem draft_abs_of_none (h : (b.draft body).context.get? x = none) :
    b.draft (.abs x body) = .abs (absConclusion x (b.after body).freshTy (b.draft body)) x
      ((b.draft body).bind x (b.after body).freshTy) := by
  unfold draft after at *
  simp only [build, h]

theorem after_var (b : Builder) (x : Name) : b.after (.var x) = b.advance := rfl

theorem after_app (b : Builder) (fn arg : Term) :
    b.after (.app fn arg) = ((b.after fn).after arg).advance.push (appEquations (b.draft fn)
      ((b.after fn).draft arg) ((b.after fn).after arg).freshTy) := rfl

theorem after_abs_of_some {param : Ty} (h : (b.draft body).context.get? x = some param) :
    b.after (.abs x body) = b.after body := by
  unfold draft after at *
  simp only [build, h]

theorem after_abs_of_none (h : (b.draft body).context.get? x = none) :
    b.after (.abs x body) = (b.after body).advance := by
  unfold draft after at *
  simp only [build, h]

@[simp] theorem context_draft_var (b : Builder) (x : Name) :
    (b.draft (.var x)).context = Table.empty.insert x b.freshTy := rfl

@[simp] theorem ty_draft_var (b : Builder) (x : Name) : (b.draft (.var x)).ty = b.freshTy := rfl

@[simp] theorem context_draft_app (b : Builder) (fn arg : Term) :
    (b.draft (.app fn arg)).context =
      ((b.after fn).draft arg).context.override (b.draft fn).context := rfl

@[simp] theorem context_draft_abs (b : Builder) (x : Name) (body : Term) :
    (b.draft (.abs x body)).context = (b.draft body).context.erase x := by
  cases h : (b.draft body).context.get? x with
  | some param => rw [draft_abs_of_some h]; rfl
  | none => rw [draft_abs_of_none h]; rfl

/-- The equations that a term adds to those of the builder. -/
def added (b : Builder) : Term → List Equation
  | .var _ => []
  | .app fn arg =>
    b.added fn ++ (b.after fn).added arg ++
      appEquations (b.draft fn) ((b.after fn).draft arg) ((b.after fn).after arg).freshTy
  | .abs _ body => b.added body

theorem equations_after (b : Builder) (term : Term) :
    (b.after term).equations = b.equations ++ b.added term := by
  induction term generalizing b with
  | var x => simp [after_var, added, advance]
  | app fn arg ihf iha => simp [after_app, added, advance, push, ihf, iha]
  | abs x body ih =>
    cases h : (b.draft body).context.get? x with
    | some param => simp [after_abs_of_some h, added, ih]
    | none => simp [after_abs_of_none h, added, advance, ih]

theorem isSome_context_draft (b : Builder) (term : Term) (x : Name) :
    ((b.draft term).context.get? x).isSome = (term.freeSet.get? x).isSome := by
  induction term generalizing b with
  | var y =>
    rw [context_draft_var]
    by_cases h : x = y <;> simp [Term.freeSet, h]
  | app fn arg ihf iha =>
    rw [context_draft_app, Table.get?_override, Option.isSome_or, ihf, iha]
    simp [Term.freeSet, Bool.or_comm]
  | abs y body ih =>
    rw [context_draft_abs]
    by_cases h : x = y <;> simp [Term.freeSet, h, ih]

theorem isSome_context_draft_iff (b : Builder) :
    ((b.draft term).context.get? x).isSome = true ↔ x ∈ term.freeVars := by
  rw [isSome_context_draft]
  exact Table.mem_keys_iff.symm

theorem exists_context_draft (b : Builder) (h : Term.FreeIn x term) :
    ∃ ty, (b.draft term).context.get? x = some ty := by
  rw [← Option.isSome_iff_exists, isSome_context_draft_iff]
  exact Term.mem_freeVars_iff.mpr h

theorem unmarked_added (b : Builder) (term : Term) {e : Equation} (h : e ∈ b.added term) :
    e.used = false ∧ e.deleted = false := by
  induction term generalizing b with
  | var x => cases h
  | app fn arg ihf iha =>
    simp only [added, appEquations, List.mem_append, List.mem_cons] at h
    rcases h with (h | h) | rfl | h
    · exact ihf b h
    · exact iha _ h
    · exact ⟨rfl, rfl⟩
    · obtain ⟨x, t, t', -, -, rfl⟩ := Context.mem_clashes h
      exact ⟨rfl, rfl⟩
  | abs x body ih => exact ih b h

theorem unused_added (b : Builder) (term : Term) :
    ∀ e ∈ b.added term, e.deleted = false → e.used = false :=
  fun _ he _ => (unmarked_added b term he).1

end Builder

-- ---------------------------------------------------------------------------
-- Variables handed out
-- ---------------------------------------------------------------------------

/-- All variables are among those handed out after `lo` and up to `hi`. -/
def Ty.Within (lo hi : Nat) (ty : Ty) : Prop := ∀ v : Nat, v ∈ ty.leaves → lo < v ∧ v ≤ hi

theorem Ty.Within.mono {lo lo' hi hi' : Nat} {ty : Ty} (h : ty.Within lo hi) (hlo : lo' ≤ lo)
    (hhi : hi ≤ hi') : ty.Within lo' hi' := by
  intro v hv
  have := h v hv
  omega

theorem Ty.Within.arrow {lo hi : Nat} {a b : Ty} (ha : a.Within lo hi) (hb : b.Within lo hi) :
    (Ty.arrow a b).Within lo hi := by
  intro v hv
  rcases List.mem_append.mp hv with hv | hv
  · exact ha v hv
  · exact hb v hv

theorem Ty.Within.instantiate_eq {lo hi : Nat} {ty : Ty} (h : ty.Within lo hi)
    (hagree : ∀ v : Nat, v ≤ hi → θ v = φ v) : ty.instantiate θ = ty.instantiate φ :=
  Ty.instantiate_congr fun v hv => hagree v (h v hv).2

namespace Builder

/-- What a builder hands out between two values of its counter. -/
structure Fresh (lo hi : Nat) (draft : Derivation) (equations : List Equation) : Prop where
  le : lo ≤ hi
  ty : draft.ty.Within lo hi
  context : ∀ x t, draft.context.get? x = some t → t.Within lo hi
  equations : ∀ e ∈ equations, e.left.Within lo hi ∧ e.right.Within lo hi

theorem within_freshTy {lo : Nat} (h : lo ≤ b.counter) : b.freshTy.Within lo (b.counter + 1) := by
  intro v hv
  obtain rfl : v = b.counter + 1 := by simpa [freshTy, Ty.leaves] using hv
  omega

theorem Fresh.app {lo mid hi : Nat} {f a : Derivation} {es es' : List Equation} {ty : Ty}
    (hf : Fresh lo mid f es) (ha : Fresh mid hi a es') (hty : ty.Within lo (hi + 1)) :
    Fresh lo (hi + 1) (.app (appConclusion f a ty) f a) (es ++ es' ++ appEquations f a ty) := by
  have hlo := hf.le
  have hmid := ha.le
  have hfn {t : Ty} (h : t.Within lo mid) : t.Within lo (hi + 1) := h.mono (by omega) (by omega)
  have harg {t : Ty} (h : t.Within mid hi) : t.Within lo (hi + 1) := h.mono (by omega) (by omega)
  refine ⟨by omega, hty, ?_, ?_⟩
  · intro x t ht
    have ht : (a.context.override f.context).get? x = some t := ht
    rw [Table.get?_override, Option.or_eq_some_iff] at ht
    rcases ht with ht | ⟨-, ht⟩
    · exact hfn (hf.context x t ht)
    · exact harg (ha.context x t ht)
  · intro e he
    simp only [appEquations, List.mem_append, List.mem_cons] at he
    rcases he with (he | he) | rfl | he
    · exact ⟨hfn (hf.equations e he).1, hfn (hf.equations e he).2⟩
    · exact ⟨harg (ha.equations e he).1, harg (ha.equations e he).2⟩
    · exact ⟨hfn hf.ty, (harg ha.ty).arrow hty⟩
    · obtain ⟨x, t, t', ht, ht', rfl⟩ := Context.mem_clashes he
      exact ⟨hfn (hf.context x t ht), harg (ha.context x t' ht')⟩

theorem Fresh.abs {lo mid hi : Nat} {d d' : Derivation} {es : List Equation} {param : Ty}
    (h : Fresh lo mid d es) (hhi : mid ≤ hi) (hparam : param.Within lo hi) :
    Fresh lo hi (.abs (absConclusion x param d) x d') es := by
  have hlo := h.le
  have hbody {t : Ty} (h : t.Within lo mid) : t.Within lo hi := h.mono (by omega) hhi
  refine ⟨by omega, hparam.arrow (hbody h.ty), ?_, ?_⟩
  · intro y t ht
    have ht : (d.context.erase x).get? y = some t := ht
    by_cases hyx : y = x
    · simp [hyx] at ht
    · exact hbody (h.context y t (by simpa [hyx] using ht))
  · intro e he
    exact ⟨hbody (h.equations e he).1, hbody (h.equations e he).2⟩

theorem fresh_draft (b : Builder) (term : Term) :
    Fresh b.counter (b.after term).counter (b.draft term) (b.added term) := by
  induction term generalizing b with
  | var x =>
    have hty : b.freshTy.Within b.counter (b.counter + 1) := within_freshTy (Nat.le_refl _)
    refine ⟨Nat.le_succ _, hty, ?_, by simp [added]⟩
    intro y t ht
    by_cases hyx : y = x
    · obtain rfl : b.freshTy = t := by simpa [hyx] using ht
      exact hty
    · simp [hyx] at ht
  | app fn arg ihf iha =>
    have hf := ihf b
    have ha := iha (b.after fn)
    exact hf.app ha (within_freshTy (Nat.le_trans hf.le ha.le))
  | abs x body ih =>
    have hbody := ih b
    cases h : (b.draft body).context.get? x with
    | some param =>
      rw [draft_abs_of_some h, after_abs_of_some h]
      exact hbody.abs (Nat.le_refl _) (hbody.context x param h)
    | none =>
      rw [draft_abs_of_none h, after_abs_of_none h]
      exact hbody.abs (Nat.le_succ _) (within_freshTy hbody.le)

-- ---------------------------------------------------------------------------
-- Solutions and typings
-- ---------------------------------------------------------------------------

theorem hasType_of_unifies (h : Unifies θ (b.added term)) :
    HasType ((b.draft term).context.instantiate θ) term ((b.draft term).ty.instantiate θ) := by
  induction term generalizing b with
  | var x => exact .var (by simp)
  | app fn arg ihf iha =>
    simp only [added, appEquations, unifies_append, unifies_cons] at h
    obtain ⟨⟨hf, ha⟩, hhead, hclashes⟩ := h
    rw [Context.unifies_clashes_iff] at hclashes
    have hfn : (b.draft fn).ty.instantiate θ = .arrow (((b.after fn).draft arg).ty.instantiate θ)
        ((b.draft (.app fn arg)).ty.instantiate θ) := hhead trivial
    have hfun := ihf hf
    rw [hfn] at hfun
    refine .app (hfun.of_agrees ?_) ((iha ha).of_agrees ?_)
    · intro x hx
      obtain ⟨t, ht⟩ := b.exists_context_draft hx
      simp [ht]
    · intro x hx
      obtain ⟨t, ht⟩ := (b.after fn).exists_context_draft hx
      -- A shared name has the type of the function, which is the same by its equation.
      cases hshared : (b.draft fn).context.get? x with
      | some t' => simp [ht, hshared, hclashes x t' t hshared ht]
      | none => simp [ht, hshared]
  | abs x body ih =>
    have hbody := ih h
    cases hx : (b.draft body).context.get? x with
    | some param =>
      rw [draft_abs_of_some hx]
      refine .abs (hbody.of_agrees ?_)
      intro y hy
      by_cases hyx : y = x
      · simp [hyx, hx]
      · simp [Derivation.context, Derivation.conclusion, absConclusion, hyx]
    | none =>
      rw [draft_abs_of_none hx]
      refine .abs (hbody.of_agrees ?_)
      intro y hy
      obtain ⟨t, ht⟩ := b.exists_context_draft hy
      have hyx : y ≠ x := by
        rintro rfl
        cases hx.symm.trans ht
      simp [Derivation.context, Derivation.conclusion, absConclusion, hyx]

/-- The map solves the equations of a draft and takes its root to a typing. -/
structure Realizes (θ : TyVar → Ty) (d : Derivation) (equations : List Equation) (ctx : Context)
    (ty : Ty) : Prop where
  unifies : Unifies θ equations
  ty : d.ty.instantiate θ = ty
  context : ∀ x t, d.context.get? x = some t → ctx.get? x = some (t.instantiate θ)

theorem Realizes.congr {lo hi : Nat} {d : Derivation} {equations : List Equation} {ctx : Context}
    {ty : Ty} (h : Realizes θ d equations ctx ty) (hfresh : Fresh lo hi d equations)
    (hagree : ∀ v : Nat, v ≤ hi → φ v = θ v) : Realizes φ d equations ctx ty := by
  refine ⟨?_, ?_, ?_⟩
  · intro e he hd
    have hwithin := hfresh.equations e he
    have hholds := h.unifies e he hd
    rwa [Equation.Holds, hwithin.1.instantiate_eq hagree, hwithin.2.instantiate_eq hagree]
  · rw [hfresh.ty.instantiate_eq hagree, h.ty]
  · intro x t ht
    rw [(hfresh.context x t ht).instantiate_eq hagree]
    exact h.context x t ht

theorem Realizes.app {f a : Derivation} {es es' : List Equation} {ctx : Context}
    {dom cod ty : Ty} (hf : Realizes θ f es ctx (.arrow dom cod)) (ha : Realizes θ a es' ctx dom)
    (hty : ty.instantiate θ = cod) :
    Realizes θ (.app (appConclusion f a ty) f a) (es ++ es' ++ appEquations f a ty) ctx cod := by
  refine ⟨?_, hty, ?_⟩
  · simp only [appEquations, unifies_append, unifies_cons]
    refine ⟨⟨hf.unifies, ha.unifies⟩, fun _ => ?_, ?_⟩
    · rw [Equation.Holds, hf.ty, Ty.instantiate, ha.ty, hty]
    · rw [Context.unifies_clashes_iff]
      intro x t t' ht ht'
      exact Option.some.inj ((hf.context x t ht).symm.trans (ha.context x t' ht'))
  · intro x t ht
    have ht : (a.context.override f.context).get? x = some t := ht
    rw [Table.get?_override, Option.or_eq_some_iff] at ht
    rcases ht with ht | ⟨-, ht⟩
    · exact hf.context x t ht
    · exact ha.context x t ht

theorem Realizes.abs {d d' : Derivation} {es : List Equation} {ctx : Context} {dom cod param : Ty}
    (h : Realizes θ d es (ctx.insert x dom) cod) (hparam : param.instantiate θ = dom) :
    Realizes θ (.abs (absConclusion x param d) x d') es ctx (.arrow dom cod) := by
  refine ⟨h.unifies, congrArg₂ Ty.arrow hparam h.ty, ?_⟩
  intro y t ht
  have ht : (d.context.erase x).get? y = some t := ht
  by_cases hyx : y = x
  · simp [hyx] at ht
  · have hctx := h.context y t (by simpa [hyx] using ht)
    simpa [hyx] using hctx

theorem instantiate_freshTy_update (b : Builder) (θ : TyVar → Ty) (ty : Ty) :
    b.freshTy.instantiate (Function.update θ (b.counter + 1) ty) = ty := by
  simp [freshTy, Ty.instantiate]

theorem update_agrees (n : Nat) (θ : TyVar → Ty) (ty : Ty) (v : Nat) (h : v ≤ n) :
    Function.update θ (n + 1) ty v = θ v :=
  Function.update_of_ne (Nat.ne_of_lt (Nat.lt_succ_of_le h)) ty θ

/-- Every typing comes from a solution. The solution can be chosen as one
likes on the variables that were handed out before. -/
theorem realizes_of_hasType {ctx : Context} {ty : Ty} (h : HasType ctx term ty) (b : Builder)
    (θ₀ : TyVar → Ty) :
    ∃ θ, (∀ v : Nat, v ≤ b.counter → θ v = θ₀ v) ∧
      Realizes θ (b.draft term) (b.added term) ctx ty := by
  induction h generalizing b θ₀ with
  | @var ctx x ty h =>
    refine ⟨Function.update θ₀ (b.counter + 1) ty, update_agrees b.counter θ₀ ty, ?_⟩
    have hty := b.instantiate_freshTy_update θ₀ ty
    refine ⟨unifies_nil, hty, ?_⟩
    intro y t ht
    by_cases hyx : y = x
    · obtain rfl : b.freshTy = t := by simpa [hyx] using ht
      rw [hyx, h, hty]
    · simp [hyx] at ht
  | @app ctx fn arg a ty _ _ ihf iha =>
    obtain ⟨θ₁, h₁, hf⟩ := ihf b θ₀
    obtain ⟨θ₂, h₂, ha⟩ := iha (b.after fn) θ₁
    -- What the argument and the result need is chosen beyond the variables of the function.
    have freshf := b.fresh_draft fn
    have fresha := (b.after fn).fresh_draft arg
    let θ := Function.update θ₂ (((b.after fn).after arg).counter + 1) ty
    have h₃ := update_agrees ((b.after fn).after arg).counter θ₂ ty
    have h₂₃ : ∀ v : Nat, v ≤ (b.after fn).counter → θ v = θ₁ v := fun v hv =>
      (h₃ v (Nat.le_trans hv fresha.le)).trans (h₂ v hv)
    replace hf : Realizes θ _ _ _ _ := hf.congr freshf h₂₃
    replace ha : Realizes θ _ _ _ _ := ha.congr fresha h₃
    refine ⟨θ, fun v hv => (h₂₃ v (Nat.le_trans hv freshf.le)).trans (h₁ v hv), ?_⟩
    exact hf.app ha (((b.after fn).after arg).instantiate_freshTy_update θ₂ ty)
  | @abs ctx x a body ty _ ih =>
    obtain ⟨θ₁, h₁, hbody⟩ := ih b θ₀
    have fresh := b.fresh_draft body
    cases hx : (b.draft body).context.get? x with
    | some param =>
      have hparam : param.instantiate θ₁ = a := by
        have hctx := hbody.context x param hx
        simpa [eq_comm] using hctx
      refine ⟨θ₁, h₁, ?_⟩
      rw [draft_abs_of_some hx]
      exact hbody.abs hparam
    | none =>
      let θ := Function.update θ₁ ((b.after body).counter + 1) a
      have h₂ := update_agrees (b.after body).counter θ₁ a
      replace hbody : Realizes θ _ _ _ _ := hbody.congr fresh h₂
      refine ⟨θ, fun v hv => (h₂ v (Nat.le_trans hv fresh.le)).trans (h₁ v hv), ?_⟩
      rw [draft_abs_of_none hx]
      exact hbody.abs ((b.after body).instantiate_freshTy_update θ₁ a)

theorem unifies_added_iff : Unifies θ (b.added term) ↔ ∀ e ∈ b.added term, e.Holds θ := by
  constructor
  · intro h e he
    exact h e he (unmarked_added b term he).2
  · intro h e he _
    exact h e he

/-- Whatever was built before, the equations that a term adds are solved by the
maps that take the root of its draft to a typing, and every typing is among
these. -/
theorem build_exact (b : Builder) (term : Term) :
    ∃ added : List Equation, (b.build term).2.equations = b.equations ++ added ∧
      (∀ θ : TyVar → Ty, (∀ e ∈ added, e.Holds θ) →
        HasType ((b.build term).1.context.instantiate θ) term
          ((b.build term).1.ty.instantiate θ)) ∧
      ∀ ctx ty, HasType ctx term ty → ∃ θ : TyVar → Ty, (∀ e ∈ added, e.Holds θ) ∧
        (b.build term).1.ty.instantiate θ = ty ∧
          ∀ x ∈ term.freeVars, ∃ t, (b.build term).1.context.get? x = some t ∧
            ctx.get? x = some (t.instantiate θ) := by
  refine ⟨b.added term, b.equations_after term, ?_, ?_⟩
  · intro θ hθ
    exact hasType_of_unifies (unifies_added_iff.mpr hθ)
  · intro ctx ty htype
    obtain ⟨θ, -, hθ⟩ := realizes_of_hasType htype b .var
    refine ⟨θ, unifies_added_iff.mp hθ.unifies, hθ.ty, ?_⟩
    intro x hx
    obtain ⟨t, ht⟩ := b.exists_context_draft (Term.mem_freeVars_iff.mp hx)
    exact ⟨t, ht, hθ.context x t ht⟩

/-- A builder that is in use, a name that is free on both sides of an
application, and a binder that is not used. -/
theorem build_exact_shared :
    let b : Builder := ⟨7, [{ left := .var 1, right := .var 2 }]⟩
    let term : Term := .abs "y" (.app (.app (.var "f") (.var "x")) (.var "x"))
    let added : List Equation :=
      [{ left := .var 8, right := .arrow (.var 9) (.var 10) },
        { left := .var 10, right := .arrow (.var 11) (.var 12) },
        { left := .var 9, right := .var 11 }]
    let ctx : Context := Table.ofList
      [("f", .arrow (.var 0) (.arrow (.var 0) (.var 0))), ("x", .var 0)]
    (b.build term).2.equations = b.equations ++ added ∧
      HasType ctx term (.arrow (.var 0) (.var 0)) ∧
        ∃ θ : TyVar → Ty, (∀ e ∈ added, e.Holds θ) ∧ θ 13 = .var 0 ∧ θ 12 = .var 0 := by
  intro b term added ctx
  obtain ⟨equations, heq, hsound, hcomplete⟩ := build_exact b term
  have hbuilt : (b.build term).2.equations = b.equations ++ added := by decide
  obtain rfl : equations = added := List.append_cancel_left (heq.symm.trans hbuilt)
  let θ : TyVar → Ty := fun v =>
    if v = 8 then .arrow (.var 0) (.arrow (.var 0) (.var 0))
    else if v = 10 then .arrow (.var 0) (.var 0) else .var 0
  have hθ : ∀ e ∈ added, e.Holds θ := by
    simp [added, θ, Equation.Holds, Ty.instantiate]
  have hcontext : (b.build term).1.context.instantiate θ = ctx := by decide
  have hroot : (b.build term).1.ty = .arrow (.var 13) (.var 12) := by decide
  rw [hroot] at hcomplete hsound
  have htype : HasType ctx term (.arrow (.var 0) (.var 0)) := hcontext ▸ hsound θ hθ
  obtain ⟨φ, hφ, hty, -⟩ := hcomplete ctx _ htype
  obtain ⟨hparam, hbody⟩ := Ty.arrow.inj hty
  exact ⟨hbuilt, htype, φ, hφ, hparam, hbody⟩

end Builder

end SimpleTypes
