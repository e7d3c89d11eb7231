import SimpleTypes.Inference
import SimpleTypes.Proofs.Builder
import SimpleTypes.Proofs.Problem.Retired

/-!
# Inferred typings are principal, and their derivations are proofs

`derive_principal`: a term is typable exactly if a derivation is found, and
every typing of the term is an instance of the one at its root.
`derive_isInstance`: in the derivation that is printed every node follows from
its premises by one typing rule, in the full context of its place. This is not
so in the draft. There the context of a node has its own free names only, and
names on both sides of an application have different types until the equations
are solved.
`Problem.solve_unused`: one round of steps settles the equations of a term, so
no term fails but for an infinite type.
-/

namespace SimpleTypes

variable {θ : TyVar → Ty} {σ : Substitution} {b : Builder} {x : Name} {term body : Term}

-- ---------------------------------------------------------------------------
-- Resolving
-- ---------------------------------------------------------------------------

@[simp] theorem Substitution.get?_applyContext (σ : Substitution) (ctx : Context) (x : Name) :
    (σ.applyContext ctx).get? x = (ctx.get? x).map σ.apply :=
  Table.get?_mapValues ctx σ.apply x

namespace Derivation

@[simp] theorem context_resolveUnder (σ : Substitution) (inherited : Context) (d : Derivation) :
    (d.resolveUnder σ inherited).context = inherited.override (σ.applyContext d.context) := by
  cases d <;> rfl

@[simp] theorem ty_resolveUnder (σ : Substitution) (inherited : Context) (d : Derivation) :
    (d.resolveUnder σ inherited).ty = σ.apply d.ty := by
  cases d <;> rfl

@[simp] theorem context_bind (x : Name) (ty : Ty) (d : Derivation) :
    (d.bind x ty).context = d.context.insert x ty := by
  cases d <;> rfl

@[simp] theorem ty_bind (x : Name) (ty : Ty) (d : Derivation) : (d.bind x ty).ty = d.ty := by
  cases d <;> rfl

theorem resolveUnder_bind {d : Derivation} {ty : Ty} (h : d.context.get? x = none)
    (σ : Substitution) (inherited : Context) :
    (d.bind x ty).resolveUnder σ inherited =
      d.resolveUnder σ (inherited.insert x (σ.apply ty)) := by
  have hcontext : inherited.override (σ.applyContext (d.context.insert x ty)) =
      (inherited.insert x (σ.apply ty)).override (σ.applyContext d.context) := by
    apply Table.ext_get?
    intro y
    by_cases hyx : y = x <;> simp [hyx, h]
  cases d <;>
    simp_all [bind, resolveUnder, Judgement.resolve, Derivation.context, Derivation.conclusion]

-- ---------------------------------------------------------------------------
-- Instances of the typing rules
-- ---------------------------------------------------------------------------

/-- The root follows from its premises by the rule of its kind. -/
def IsInstance : Derivation → Prop
  | .var c x => c.context.get? x = some c.ty
  | .app c fn arg =>
    fn.context = c.context ∧ arg.context = c.context ∧ fn.ty = .arrow arg.ty c.ty
  | .abs c x body => ∃ a, body.context = c.context.insert x a ∧ c.ty = .arrow a body.ty

theorem override_insert_eq (σ : Substitution) (inherited ctx : Context) (x : Name) (param : Ty) :
    (inherited.override (σ.applyContext (ctx.erase x))).override
        (σ.applyContext (ctx.insert x param)) =
      (inherited.override (σ.applyContext (ctx.erase x))).insert x (σ.apply param) := by
  apply Table.ext_get?
  intro y
  by_cases hyx : y = x
  · simp [hyx]
  · cases h : ctx.get? y <;> simp [hyx, h]

theorem isInstance_abs (hσ : σ.Resolved) (inherited : Context) {d d' : Derivation} {param : Ty}
    (hctx : d'.context = d.context.insert x param) (hty : d'.ty = d.ty) :
    ((abs (Builder.absConclusion x param d) x d').resolveUnder σ inherited).IsInstance := by
  refine ⟨σ.apply param, ?_, ?_⟩
  · rw [context_resolveUnder, hctx]
    exact override_insert_eq σ inherited d.context x param
  · rw [ty_resolveUnder, hty]
    simp [Builder.absConclusion, Judgement.resolve, hσ.apply, Ty.instantiate]

theorem isInstance_app (hσ : σ.Resolved) (inherited : Context) {f a : Derivation} {ty : Ty}
    (h : Unifies σ.lookup (Builder.appEquations f a ty)) :
    ((app (Builder.appConclusion f a ty) f a).resolveUnder σ inherited).IsInstance := by
  simp only [Builder.appEquations, unifies_cons, Context.unifies_clashes_iff] at h
  obtain ⟨hhead, hshared⟩ := h
  refine ⟨?_, ?_, ?_⟩
  · rw [context_resolveUnder]
    refine Table.override_eq_left ?_
    intro x t ht
    obtain ⟨u, hu, rfl⟩ := Option.map_eq_some_iff.mp ((σ.get?_applyContext _ x).symm.trans ht)
    simp [Judgement.resolve, Builder.appConclusion, hu]
  · rw [context_resolveUnder]
    refine Table.override_eq_left ?_
    intro x t ht
    obtain ⟨u, hu, rfl⟩ := Option.map_eq_some_iff.mp ((σ.get?_applyContext _ x).symm.trans ht)
    -- A name of both sides is listed with the type it has in the function.
    cases hf : f.context.get? x with
    | some u' =>
      have heq := hshared x u' u hf hu
      simp [Judgement.resolve, Builder.appConclusion, hf, hσ.apply, heq]
    | none => simp [Judgement.resolve, Builder.appConclusion, hf, hu]
  · have heq := hhead trivial
    rw [Equation.Holds, Ty.instantiate] at heq
    simp only [ty_resolveUnder, Judgement.resolve, Builder.appConclusion, hσ.apply]
    exact heq

end Derivation

theorem Builder.isInstance_draft (hσ : σ.Resolved) (h : Unifies σ.lookup (b.added term))
    (inherited : Context) (depth : Nat) :
    ∀ node ∈ ((b.draft term).resolveUnder σ inherited).nodesAt depth, node.2.IsInstance := by
  induction term generalizing b inherited depth with
  | var x =>
    intro node hnode
    obtain rfl := List.mem_singleton.mp hnode
    simp [Derivation.IsInstance, Judgement.resolve, varConclusion]
  | app fn arg ihf iha =>
    simp only [added, unifies_append] at h
    obtain ⟨⟨hf, ha⟩, heqs⟩ := h
    intro node hnode
    rw [draft_app] at hnode
    rcases List.mem_cons.mp hnode with rfl | hnode
    · exact Derivation.isInstance_app hσ inherited heqs
    · rcases List.mem_append.mp hnode with hnode | hnode
      · exact ihf hf _ _ node hnode
      · exact iha ha _ _ node hnode
  | abs x body ih =>
    intro node hnode
    cases hx : (b.draft body).context.get? x with
    | some param =>
      rw [draft_abs_of_some hx] at hnode
      rcases List.mem_cons.mp hnode with rfl | hnode
      · refine Derivation.isInstance_abs hσ inherited ?_ rfl
        apply Table.ext_get?
        intro y
        by_cases hyx : y = x <;> simp [hyx, hx]
      · exact ih h _ _ node hnode
    | none =>
      rw [draft_abs_of_none hx] at hnode
      rcases List.mem_cons.mp hnode with rfl | hnode
      · exact Derivation.isInstance_abs hσ inherited (Derivation.context_bind ..)
          (Derivation.ty_bind ..)
      · rw [Derivation.resolveUnder_bind hx] at hnode
        exact ih h _ _ node hnode

-- ---------------------------------------------------------------------------
-- Inference
-- ---------------------------------------------------------------------------

namespace Term

variable {d : Derivation}

theorem equations_eq (term : Term) : term.equations = Builder.added {} term :=
  Builder.equations_after {} term

theorem derive_eq (term : Term) :
    term.derive =
      (Problem.solve term.equations).result.map fun σ => (Builder.draft {} term).resolve σ := by
  have hequations : (Session.constrain {} term).2.equations = term.equations := rfl
  simp only [derive, Session.infer, Session.solve, hequations]
  cases (Problem.solve term.equations).result <;> rfl

theorem derive_eq_ok_iff : term.derive = .ok d ↔
    ∃ σ, (Problem.solve term.equations).result = .ok σ ∧ d = (Builder.draft {} term).resolve σ := by
  rw [derive_eq]
  cases (Problem.solve term.equations).result with
  | ok σ => simp [Except.map, eq_comm]
  | error error => simp [Except.map]

theorem of_derive (h : term.derive = .ok d) :
    ∃ σ : Substitution, σ.Resolved ∧ Unifies σ.lookup (Builder.added {} term) ∧
      σ.MostGeneral (Builder.added {} term) ∧ d = (Builder.draft {} term).resolve σ := by
  obtain ⟨σ, hσ, hd⟩ := derive_eq_ok_iff.mp h
  rw [equations_eq] at hσ
  exact ⟨σ, Problem.resolved_of_solve hσ, Problem.unifies_lookup_of_solve hσ,
    Problem.mostGeneral_of_solve hσ, hd⟩

theorem get?_context_resolve (σ : Substitution) (d : Derivation) (x : Name) :
    (d.resolve σ).context.get? x = (d.context.get? x).map σ.apply := by
  simp [Derivation.resolve]

theorem ty_resolve (σ : Substitution) (d : Derivation) : (d.resolve σ).ty = σ.apply d.ty :=
  Derivation.ty_resolveUnder σ Table.empty d

theorem derive_isInstance (h : term.derive = .ok d) :
    d.term = term ∧ ∀ node ∈ d.nodes, node.2.IsInstance := by
  obtain ⟨σ, hresolved, hunifies, -, rfl⟩ := of_derive h
  refine ⟨?_, Builder.isInstance_draft hresolved hunifies Table.empty 0⟩
  rw [Derivation.term_resolve]
  exact Builder.term_build {} term

/-- The inner `x` hides the outer one, which has another type. -/
theorem derive_isInstance_shadowed :
    let term : Term := .app (.var "x") (.abs "x" (.var "x"))
    ∃ d, term.derive = .ok d ∧ d.nodes.length = 4 ∧ d.term = term ∧
      ∀ node ∈ d.nodes, node.2.IsInstance := by
  intro term
  have h : ∃ d, term.derive = .ok d ∧ d.nodes.length = 4 := ⟨_, by cbv, by cbv⟩
  obtain ⟨d, hd, hlength⟩ := h
  exact ⟨d, hd, hlength, derive_isInstance hd⟩

theorem keys_of_derive (h : term.derive = .ok d) : d.context.keys = term.freeVars := by
  obtain ⟨σ, -, -, -, rfl⟩ := of_derive h
  apply Table.keys_eq_of_isSome
  intro x
  rw [get?_context_resolve, Option.isSome_map, Builder.isSome_context_draft]

theorem hasType_of_derive (h : term.derive = .ok d) : HasType d.context term d.ty := by
  obtain ⟨σ, hresolved, hunifies, -, rfl⟩ := of_derive h
  have hcontext : ((Builder.draft {} term).resolve σ).context =
      (Builder.draft {} term).context.instantiate σ.lookup := by
    apply Table.ext_get?
    intro x
    rw [get?_context_resolve, Context.get?_instantiate]
    exact congrArg (Option.map · _) (funext hresolved.apply)
  rw [hcontext, ty_resolve, hresolved.apply]
  exact Builder.hasType_of_unifies hunifies

theorem exists_derive_of_hasType {ctx : Context} {ty : Ty} (h : HasType ctx term ty) :
    ∃ d, term.derive = .ok d := by
  obtain ⟨θ, -, hθ⟩ := Builder.realizes_of_hasType h {} .var
  obtain ⟨σ, hσ⟩ := Problem.solve_eq_ok_of_unifies (Builder.unused_added {} term) hθ.unifies
  exact ⟨_, derive_eq_ok_iff.mpr ⟨σ, by rwa [equations_eq], rfl⟩⟩

theorem factors_of_derive (h : term.derive = .ok d) {ctx : Context} {ty : Ty}
    (htype : HasType ctx term ty) : ∃ θ : TyVar → Ty, ty = d.ty.instantiate θ ∧
      ∀ x ∈ term.freeVars, ctx.get? x = (d.context.get? x).map (·.instantiate θ) := by
  obtain ⟨σ, -, -, hgeneral, rfl⟩ := of_derive h
  obtain ⟨θ, -, hθ⟩ := Builder.realizes_of_hasType htype {} .var
  have hfactors := hgeneral.factors θ hθ.unifies
  refine ⟨θ, ?_, ?_⟩
  · rw [ty_resolve, ← hfactors, hθ.ty]
  · intro x hx
    obtain ⟨t, ht⟩ := Builder.exists_context_draft {} (mem_freeVars_iff.mp hx)
    rw [get?_context_resolve, ht, hθ.context x t ht, hfactors]
    rfl

/-- A derivation is found for the typable terms, and its root is a principal
typing. -/
theorem derive_principal (term : Term) :
    ((∃ d, term.derive = .ok d) ↔ Typable term) ∧
      ∀ d, term.derive = .ok d →
        d.context.keys = term.freeVars ∧ HasType d.context term d.ty ∧
          ∀ ctx ty, HasType ctx term ty → ∃ θ : TyVar → Ty, ty = d.ty.instantiate θ ∧
            ∀ x ∈ term.freeVars, ctx.get? x = (d.context.get? x).map (·.instantiate θ) := by
  refine ⟨⟨?_, ?_⟩, ?_⟩
  · rintro ⟨d, hd⟩
    exact ⟨d.context, d.ty, hasType_of_derive hd⟩
  · rintro ⟨ctx, ty, htype⟩
    exact exists_derive_of_hasType htype
  · intro d hd
    exact ⟨keys_of_derive hd, hasType_of_derive hd, fun ctx ty => factors_of_derive hd⟩

/-- A free name is bound again inside and one binder is unused; and a term
without a type. -/
theorem derive_principal_shadowed :
    (∃ d, (app (.var "x") (.abs "x" (.abs "y" (.var "x")))).derive = .ok d ∧
      d.context.keys = ["x"] ∧
        HasType d.context (app (.var "x") (.abs "x" (.abs "y" (.var "x")))) d.ty) ∧
      ¬ Typable (.abs "x" (.app (.var "x") (.var "x"))) := by
  refine ⟨?_, ?_⟩
  · have h : ∃ d, (app (.var "x") (.abs "x" (.abs "y" (.var "x")))).derive = .ok d :=
      ⟨_, by cbv⟩
    obtain ⟨d, hd⟩ := h
    obtain ⟨hkeys, htype, -⟩ := (derive_principal _).2 d hd
    exact ⟨d, hd, hkeys.trans (by decide), htype⟩
  · intro htypable
    obtain ⟨d, hd⟩ := (derive_principal _).1.mpr htypable
    have herror : (abs "x" (.app (.var "x") (.var "x"))).derive =
        .error (.infiniteType 2 (.arrow (.var 2) (.var 3))) := by cbv
    cases herror.symm.trans hd

theorem infiniteType_of_derive {error : TypeError} (h : term.derive = .error error) :
    ∃ v ty, error = .infiniteType v ty := by
  rw [derive_eq, equations_eq] at h
  cases hresult : (Problem.solve (Builder.added {} term)).result with
  | ok σ => simp [hresult, Except.map] at h
  | error e =>
    obtain rfl : e = error := by simpa [hresult, Except.map] using h
    exact Problem.infiniteType_of_unused (Builder.unused_added {} term) hresult

end Term

/-- Without used equations one round decides: it fails where nothing unifies the
equations, and otherwise leaves them solved. The equations of a term are such. -/
theorem Problem.solve_unused :
    (∀ p : Problem, (∀ e ∈ p, e.deleted = false → e.used = false) →
      (p.exhaust.error? = none → p.exhaust.problem.firstUnsolved? = none) ∧
      (∀ again, p.solve = round again p) ∧ (∀ e, .rescan e ∉ p.solve.events) ∧
      (∀ left right, p.solve.result ≠ .error (.unsolvable left right)) ∧
      ((∃ σ, p.solve.result = .ok σ) ↔ ∃ θ, Unifies θ p)) ∧
    ∀ (term : Term) (error : TypeError), term.derive = .error error →
      ∃ v ty, error = .infiniteType v ty := by
  refine ⟨?_, fun term error => Term.infiniteType_of_derive⟩
  intro p h
  refine ⟨firstUnsolved?_exhaust h, round_of_unused h, ?_, ?_, ?_, ?_⟩
  · intro e
    rw [events_of_unused h]
    exact not_mem_exhaust_events p e
  · intro left right hresult
    obtain ⟨v, ty, herror⟩ := infiniteType_of_unused h hresult
    cases herror
  · rintro ⟨σ, hσ⟩
    exact ⟨σ.lookup, unifies_lookup_of_solve hσ⟩
  · rintro ⟨θ, hθ⟩
    exact solve_eq_ok_of_unifies h hθ

/-- A deleted equation may be used; and two equations whose solution would be an
infinite type, and a term with such equations. -/
theorem Problem.solve_unused_decides :
    (∃ θ, Unifies θ [{ left := .arrow (.var 1) (.var 2), right := .var 3 },
      { left := .var 3, right := .var 1, used := true, deleted := true }]) ∧
    (¬ ∃ θ, Unifies θ [{ left := .var 1, right := .arrow (.var 2) (.var 2) },
      { left := .var 2, right := .arrow (.var 1) (.var 3) }]) ∧
    ∃ error, (Term.abs "x" (.app (.var "x") (.var "x"))).derive = .error error ∧
      ∃ v ty, error = .infiniteType v ty := by
  refine ⟨?_, ?_, ?_⟩
  · exact (solve_unused.1 _ (by decide)).2.2.2.2.mp ⟨_, by cbv⟩
  · intro hunifies
    obtain ⟨σ, hσ⟩ := (solve_unused.1 _ (by decide)).2.2.2.2.mpr hunifies
    have herror : (Problem.solve [{ left := .var 1, right := .arrow (.var 2) (.var 2) },
        { left := .var 2, right := .arrow (.var 1) (.var 3) }]).result =
          .error (.infiniteType 2 (.arrow (.arrow (.var 2) (.var 2)) (.var 3))) := by cbv
    cases herror.symm.trans hσ
  · have h : ∃ error, (Term.abs "x" (.app (.var "x") (.var "x"))).derive = .error error :=
      ⟨_, by cbv⟩
    obtain ⟨error, herror⟩ := h
    exact ⟨error, herror, solve_unused.2 _ _ herror⟩

end SimpleTypes
