import Mathlib.Data.Set.Function
import SimpleTypes.Proofs.Inference
import SimpleTypes.Proofs.Ty.Renaming

/-!
# Names do not matter

`Renamed` relates two terms that differ in the names of their bound variables
and by a renaming of the free ones. A typing of one of them is a typing of the
other with its context renamed (`Renamed.hasType_iff`). Names do decide the
order in which equations are collected and solved, so the two runs of inference
differ; but each ends in a principal typing, and the two typings are then
instances of each other (`derive_renamed`).
-/

namespace SimpleTypes

theorem Context.exists_get? {r : Name → Name} (names : List Name)
    (hr : Set.InjOn r {x | x ∈ names}) (types : Name → Option Ty) :
    ∃ ctx : Context, ∀ x ∈ names, ctx.get? (r x) = types x := by
  induction names with
  | nil => exact ⟨Table.empty, by simp⟩
  | cons x names ih =>
    obtain ⟨ctx, hctx⟩ := ih (hr.mono fun y hy => List.mem_cons_of_mem x hy)
    by_cases hmem : x ∈ names
    · exact ⟨ctx, by simpa [hctx x hmem] using hctx⟩
    have hapart : ∀ y ∈ names, r y ≠ r x := by
      intro y hy heq
      obtain rfl := hr (List.mem_cons_of_mem x hy) List.mem_cons_self heq
      exact hmem hy
    cases ht : types x with
    | some ty =>
      refine ⟨ctx.insert (r x) ty, ?_⟩
      simp +contextual [ht, hctx, hapart]
    | none =>
      refine ⟨ctx.erase (r x), ?_⟩
      simp +contextual [ht, hctx, hapart]

namespace Term

-- ---------------------------------------------------------------------------
-- Terms up to names
-- ---------------------------------------------------------------------------

/-- The two names stand for the same variable below pairs of binders, the
innermost first: both are bound by one pair, or both are free and `r` takes one
to the other. -/
inductive SameVar (r : Name → Name) : List (Name × Name) → Name → Name → Prop
  | free {x : Name} : SameVar r [] x (r x)
  | bound {x y : Name} {binders} : SameVar r ((x, y) :: binders) x y
  | outer {x y a b : Name} {binders} : x ≠ a → y ≠ b → SameVar r binders x y →
      SameVar r ((a, b) :: binders) x y

/-- The terms are equal up to the names of bound variables when the free names
of the first are renamed by `r`, without capture. -/
inductive Renamed (r : Name → Name) : List (Name × Name) → Term → Term → Prop
  | var {binders x y} : SameVar r binders x y → Renamed r binders (.var x) (.var y)
  | abs {binders x y body body'} : Renamed r ((x, y) :: binders) body body' →
      Renamed r binders (.abs x body) (.abs y body')
  | app {binders fn fn' arg arg'} : Renamed r binders fn fn' → Renamed r binders arg arg' →
      Renamed r binders (.app fn arg) (.app fn' arg')

variable {r : Name → Name} {binders : List (Name × Name)} {M N : Term} {x y : Name}
  {ctx ctx' : Context} {ty : Ty}

theorem Renamed.exists_freeIn (h : Renamed r binders M N) (hx : FreeIn x M) :
    ∃ y, SameVar r binders x y ∧ FreeIn y N := by
  induction h with
  | var hsame =>
    cases hx
    exact ⟨_, hsame, .var⟩
  | abs _ ih =>
    cases hx with
    | abs hne hx =>
      obtain ⟨y, hsame, hy⟩ := ih hx
      cases hsame with
      | bound => exact absurd rfl hne
      | outer _ hne' hsame => exact ⟨y, hsame, .abs hne' hy⟩
  | app _ _ ihf iha =>
    cases hx with
    | fn hx =>
      obtain ⟨y, hsame, hy⟩ := ihf hx
      exact ⟨y, hsame, .fn hy⟩
    | arg hx =>
      obtain ⟨y, hsame, hy⟩ := iha hx
      exact ⟨y, hsame, .arg hy⟩

theorem Renamed.mem_freeVars (h : Renamed r [] M N) (hx : x ∈ M.freeVars) : r x ∈ N.freeVars := by
  obtain ⟨y, hsame, hy⟩ := h.exists_freeIn (mem_freeVars_iff.mp hx)
  cases hsame
  exact mem_freeVars_iff.mpr hy

-- ---------------------------------------------------------------------------
-- Typings
-- ---------------------------------------------------------------------------

/-- The contexts give the same types to what is free in the first term and
corresponds to it. -/
def Agree (r : Name → Name) (binders : List (Name × Name)) (M : Term) (ctx ctx' : Context) :
    Prop :=
  ∀ x y, SameVar r binders x y → FreeIn x M → ctx.get? x = ctx'.get? y

theorem Agree.insert {a : Ty} {body : Term} (h : Agree r binders (.abs x body) ctx ctx') :
    Agree r ((x, y) :: binders) body (ctx.insert x a) (ctx'.insert y a) := by
  intro x' y' hsame hx'
  cases hsame with
  | bound => simp
  | outer hne hne' hsame => simpa [hne, hne'] using h x' y' hsame (.abs hne hx')

theorem Agree.fn {fn arg : Term} (h : Agree r binders (.app fn arg) ctx ctx') :
    Agree r binders fn ctx ctx' :=
  fun x y hsame hx => h x y hsame (.fn hx)

theorem Agree.arg {fn arg : Term} (h : Agree r binders (.app fn arg) ctx ctx') :
    Agree r binders arg ctx ctx' :=
  fun x y hsame hx => h x y hsame (.arg hx)

theorem Renamed.hasType_iff (h : Renamed r binders M N) (hagree : Agree r binders M ctx ctx') :
    HasType ctx M ty ↔ HasType ctx' N ty := by
  induction h generalizing ctx ctx' ty with
  | var hsame =>
    have heq := hagree _ _ hsame .var
    constructor
    · rintro ⟨hx⟩
      exact .var (heq ▸ hx)
    · rintro ⟨hy⟩
      exact .var (heq ▸ hy)
  | abs _ ih =>
    constructor
    · intro h
      cases h with
      | abs hbody => exact .abs ((ih hagree.insert).mp hbody)
    · intro h
      cases h with
      | abs hbody => exact .abs ((ih hagree.insert).mpr hbody)
  | app _ _ ihf iha =>
    constructor
    · intro h
      cases h with
      | app hfn harg => exact .app ((ihf hagree.fn).mp hfn) ((iha hagree.arg).mp harg)
    · intro h
      cases h with
      | app hfn harg => exact .app ((ihf hagree.fn).mpr hfn) ((iha hagree.arg).mpr harg)

theorem agree_of_get? (h : ∀ x ∈ M.freeVars, ctx.get? x = ctx'.get? (r x)) :
    Agree r [] M ctx ctx' := by
  intro x y hsame hx
  cases hsame
  exact h x (mem_freeVars_iff.mpr hx)

/-- A typing is carried over. Names that are free in the first term must not be
identified, as they may have different types. -/
theorem Renamed.exists_hasType (h : Renamed r [] M N) (hr : Set.InjOn r {x | x ∈ M.freeVars})
    (htype : HasType ctx M ty) :
    ∃ ctx', HasType ctx' N ty ∧ ∀ x ∈ M.freeVars, ctx.get? x = ctx'.get? (r x) := by
  obtain ⟨ctx', hctx'⟩ := Context.exists_get? M.freeVars hr ctx.get?
  have hagree : ∀ x ∈ M.freeVars, ctx.get? x = ctx'.get? (r x) := fun x hx => (hctx' x hx).symm
  exact ⟨ctx', (h.hasType_iff (agree_of_get? hagree)).mp htype, hagree⟩

theorem Renamed.exists_hasType_back (h : Renamed r [] M N) (htype : HasType ctx' N ty) :
    ∃ ctx, HasType ctx M ty ∧ ∀ x ∈ M.freeVars, ctx.get? x = ctx'.get? (r x) := by
  obtain ⟨ctx, hctx⟩ :=
    Context.exists_get? M.freeVars (Set.injOn_id _) fun x => ctx'.get? (r x)
  exact ⟨ctx, (h.hasType_iff (agree_of_get? hctx)).mpr htype, hctx⟩

-- ---------------------------------------------------------------------------
-- Inference
-- ---------------------------------------------------------------------------

theorem Renamed.exists_perm (h : Renamed r [] M N) (hr : Set.InjOn r {x | x ∈ M.freeVars})
    {d d' : Derivation} (hd : M.derive = .ok d) (hd' : N.derive = .ok d') :
    ∃ π : Equiv.Perm TyVar, d'.ty = d.ty.rename π ∧
      ∀ x ∈ M.freeVars, d'.context.get? (r x) = (d.context.get? x).map (·.rename π) := by
  obtain ⟨ctx', htype', hctx'⟩ := h.exists_hasType hr (hasType_of_derive hd)
  obtain ⟨ctx, htype, hctx⟩ := h.exists_hasType_back (hasType_of_derive hd')
  obtain ⟨θ, hty, hθ⟩ := factors_of_derive hd htype
  obtain ⟨φ, hty', hφ⟩ := factors_of_derive hd' htype'
  have hthere : ∀ x ∈ M.freeVars,
      d'.context.get? (r x) = (d.context.get? x).map (·.instantiate θ) :=
    fun x hx => (hctx x hx).symm.trans (hθ x hx)
  have hback : ∀ x ∈ M.freeVars,
      d.context.get? x = (d'.context.get? (r x)).map (·.instantiate φ) :=
    fun x hx => (hctx' x hx).trans (hφ (r x) (h.mem_freeVars hx))
  obtain ⟨π, hπ⟩ : ∃ π : Equiv.Perm TyVar,
      ∀ t ∈ d.ty :: M.freeVars.filterMap d.context.get?, t.instantiate θ = t.rename π := by
    refine Ty.exists_perm_of_instances (φ := φ) ?_
    rw [List.forall_mem_cons]
    refine ⟨by rw [← hty, ← hty'], ?_⟩
    intro t ht
    obtain ⟨x, hx, hget⟩ := List.mem_filterMap.mp ht
    have hround := hback x hx
    rw [hthere x hx, hget] at hround
    exact (Option.some.inj hround).symm
  rw [List.forall_mem_cons] at hπ
  refine ⟨π, hty.trans hπ.1, ?_⟩
  intro x hx
  rw [hthere x hx]
  refine Option.map_congr ?_
  intro t ht
  exact hπ.2 t (List.mem_filterMap.mpr ⟨x, hx, ht⟩)

/-- Terms that differ in their names only have types that differ in their
variables only. -/
theorem derive_renamed (h : Renamed r [] M N) (hr : Set.InjOn r {x | x ∈ M.freeVars}) :
    ((∃ d, M.derive = .ok d) ↔ ∃ d', N.derive = .ok d') ∧
      ∀ d d', M.derive = .ok d → N.derive = .ok d' →
        d'.ty.normalized = d.ty.normalized ∧
          ∃ π : Equiv.Perm TyVar, d'.ty = d.ty.rename π ∧
            ∀ x ∈ M.freeVars, d'.context.get? (r x) = (d.context.get? x).map (·.rename π) := by
  refine ⟨⟨?_, ?_⟩, ?_⟩
  · rintro ⟨d, hd⟩
    obtain ⟨ctx', htype, -⟩ := h.exists_hasType hr (hasType_of_derive hd)
    exact exists_derive_of_hasType htype
  · rintro ⟨d', hd'⟩
    obtain ⟨ctx, htype, -⟩ := h.exists_hasType_back (hasType_of_derive hd')
    exact exists_derive_of_hasType htype
  · intro d d' hd hd'
    obtain ⟨π, hty, hcontext⟩ := h.exists_perm hr hd hd'
    exact ⟨by rw [hty, Ty.normalized_rename π.injective], π, hty, hcontext⟩

/-- Two free names are exchanged, and a binder that hides another is given a
name of its own. -/
theorem derive_renamed_exchanged :
    let M : Term := .abs "x"
      (.app (.app (.var "f") (.var "x")) (.abs "x" (.app (.var "x") (.var "g"))))
    let N : Term := .abs "y"
      (.app (.app (.var "g") (.var "y")) (.abs "z" (.app (.var "z") (.var "f"))))
    ∃ d d', M.derive = .ok d ∧ N.derive = .ok d' ∧ d'.ty.normalized = d.ty.normalized ∧
      ∃ π : Equiv.Perm TyVar, d'.ty = d.ty.rename π ∧
        d'.context.get? "g" = (d.context.get? "f").map (·.rename π) := by
  intro M N
  let r : Name → Name := Equiv.swap "f" "g"
  have hf : SameVar r [] "f" "g" := Equiv.swap_apply_left "f" "g" ▸ SameVar.free
  have hg : SameVar r [] "g" "f" := Equiv.swap_apply_right "f" "g" ▸ SameVar.free
  have hrenamed : Renamed r [] M N :=
    .abs (.app (.app (.var (.outer (by decide) (by decide) hf)) (.var .bound))
      (.abs (.app (.var .bound)
        (.var (.outer (by decide) (by decide) (.outer (by decide) (by decide) hg))))))
  have hd : ∃ d, M.derive = .ok d := ⟨_, by cbv⟩
  have hd' : ∃ d', N.derive = .ok d' := ⟨_, by cbv⟩
  obtain ⟨d, hd⟩ := hd
  obtain ⟨d', hd'⟩ := hd'
  obtain ⟨-, hall⟩ := derive_renamed hrenamed (Equiv.injective _).injOn
  obtain ⟨htext, π, hty, hcontext⟩ := hall d d' hd hd'
  refine ⟨d, d', hd, hd', htext, π, hty, ?_⟩
  simpa [r] using hcontext "f" (by decide)

end Term

end SimpleTypes
