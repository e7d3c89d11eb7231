import Mathlib.Data.List.Permutation
import SimpleTypes.Proofs.Problem.Unifier
import SimpleTypes.Proofs.Substitution

/-!
# Solutions are most general

A problem is solved when its equations in play bind different variables, none
of which is left on a right side. `firstUnsolved?` looks for what is missing
(`firstUnsolved?_eq_none_iff`). The substitution read off a solved problem is
`Resolved`: its types mention no bound variable, so one round applies it. It
unifies the equations it was read off, every unifier factors through it, and
both carry back to the problem that the run started with.
-/

namespace SimpleTypes

variable {θ : TyVar → Ty} {v w : TyVar} {ty : Ty} {σ : Substitution}

-- ---------------------------------------------------------------------------
-- Solved problems
-- ---------------------------------------------------------------------------

namespace Problem

variable {p : Problem}

structure SolvedForm (p : Problem) : Prop where
  left_var : ∀ e ∈ p.active, ∃ v, e.left = .var v
  left_nodup : (p.active.map Equation.left).Nodup
  left_fresh : ∀ e ∈ p.active, ∀ e' ∈ p.active, ∀ v, e.left = .var v → v ∉ e'.right.leaves

theorem mem_active {e : Equation} : e ∈ p.active ↔ e ∈ p ∧ e.deleted = false := by
  simp [active]

theorem firstUnsolvedAfter_cons {active rest : List Equation} {seen : List TyVar} {e : Equation}
    (hl : e.left = .var v) :
    firstUnsolvedAfter active seen (e :: rest) = none ↔
      (e.left ≠ e.right ∧ v ∉ seen ∧ ∀ e' ∈ active, v ∉ e'.right.leaves) ∧
        firstUnsolvedAfter active (v :: seen) rest = none := by
  have hcheck : (e.sidesEqual || seen.contains v || active.any (·.right.occurs v)) = false ↔
      e.left ≠ e.right ∧ v ∉ seen ∧ ∀ e' ∈ active, v ∉ e'.right.leaves := by
    simp [Equation.sidesEqual, ← Ty.occurs_iff, and_assoc]
  rw [← hcheck]
  simp only [firstUnsolvedAfter, hl]
  cases e.sidesEqual || seen.contains v || active.any (·.right.occurs v) <;> simp

theorem firstUnsolvedAfter_eq_none_iff {active equations : List Equation} {seen : List TyVar} :
    firstUnsolvedAfter active seen equations = none ↔
      (∀ e ∈ equations, ∃ v, e.left = .var v ∧ e.left ≠ e.right ∧ v ∉ seen ∧
        ∀ e' ∈ active, v ∉ e'.right.leaves) ∧ (equations.map Equation.left).Nodup := by
  induction equations generalizing seen with
  | nil => simp [firstUnsolvedAfter]
  | cons e rest ih =>
    cases hl : e.left with
    | arrow a b => simp [firstUnsolvedAfter, hl]
    | var v =>
      rw [firstUnsolvedAfter_cons hl, ih, List.map_cons, List.nodup_cons]
      constructor
      · rintro ⟨hgood, h, hnodup⟩
        refine ⟨?_, ?_, hnodup⟩
        · intro e' he'
          rcases List.mem_cons.mp he' with rfl | he'
          · exact ⟨v, hl, hgood⟩
          · obtain ⟨w, hw, hne, hseen, hfresh⟩ := h e' he'
            exact ⟨w, hw, hne, fun hm => hseen (List.mem_cons_of_mem _ hm), hfresh⟩
        · intro hmem
          obtain ⟨e', he', heq⟩ := List.mem_map.mp hmem
          obtain ⟨w, hw, -, hseen, -⟩ := h e' he'
          obtain rfl : v = w := by simpa [heq, hl] using hw
          exact hseen List.mem_cons_self
      · rintro ⟨h, hnot, hnodup⟩
        obtain ⟨u, hu, hgood⟩ := h e List.mem_cons_self
        obtain rfl : v = u := by simpa [hl] using hu
        refine ⟨hgood, ?_, hnodup⟩
        intro e' he'
        obtain ⟨w, hw, hne, hseen, hfresh⟩ := h e' (List.mem_cons_of_mem _ he')
        refine ⟨w, hw, hne, ?_, hfresh⟩
        intro hmem
        rcases List.mem_cons.mp hmem with rfl | hmem
        · exact hnot (List.mem_map.mpr ⟨e', he', hw.trans hl.symm⟩)
        · exact hseen hmem

theorem firstUnsolved?_eq_none_iff : p.firstUnsolved? = none ↔ p.SolvedForm := by
  unfold firstUnsolved?
  rw [firstUnsolvedAfter_eq_none_iff]
  constructor
  · rintro ⟨h, hnodup⟩
    refine ⟨?_, hnodup, ?_⟩
    · intro e he
      obtain ⟨v, hv, -⟩ := h e he
      exact ⟨v, hv⟩
    · intro e he e' he' v hv
      obtain ⟨w, hw, -, -, hfresh⟩ := h e he
      obtain rfl : v = w := by simpa [hv] using hw
      exact hfresh e' he'
  · intro hsolved
    refine ⟨?_, hsolved.left_nodup⟩
    intro e he
    obtain ⟨v, hv⟩ := hsolved.left_var e he
    have hfresh := fun e' he' => hsolved.left_fresh e he e' he' v hv
    refine ⟨v, hv, ?_, by simp, hfresh⟩
    -- An equation with equal sides would have its variable on its own right.
    intro heq
    exact hfresh e he (by simp [← heq, hv, Ty.leaves])

-- ---------------------------------------------------------------------------
-- Reading the substitution off
-- ---------------------------------------------------------------------------

def bindings (p : Problem) : List (TyVar × Ty) :=
  p.filterMap fun e => if e.deleted then none else e.left.asVar?.map fun v => (v, e.right)

theorem mem_bindings :
    (v, ty) ∈ p.bindings ↔ ∃ e ∈ p.active, e.left = .var v ∧ e.right = ty := by
  have hentry (e : Equation) : (if e.deleted then none else
      e.left.asVar?.map fun v => (v, e.right)) = some (v, ty) ↔
        e.deleted = false ∧ e.left = .var v ∧ e.right = ty := by
    cases hd : e.deleted <;> cases hl : e.left <;> simp [Ty.asVar?]
  simp only [bindings, List.mem_filterMap, hentry, mem_active, and_assoc]

theorem map_bindings (h : ∀ e ∈ p.active, ∃ v, e.left = .var v) :
    p.bindings.map (fun b => Ty.var b.1) = p.active.map Equation.left := by
  induction p with
  | nil => rfl
  | cons e rest ih =>
    have hrest : ∀ e' ∈ active rest, ∃ v, e'.left = .var v := by
      intro e' he'
      rw [mem_active] at he'
      exact h e' (mem_active.mpr ⟨List.mem_cons_of_mem _ he'.1, he'.2⟩)
    cases hd : e.deleted with
    | true => simpa [bindings, active, hd] using ih hrest
    | false =>
      obtain ⟨v, hv⟩ := h e (mem_active.mpr ⟨List.mem_cons_self, hd⟩)
      simpa [bindings, active, hd, hv, Ty.asVar?] using ih hrest

namespace SolvedForm

theorem nodup_keys (h : p.SolvedForm) : (p.bindings.map Prod.fst).Nodup := by
  refine List.Nodup.of_map Ty.var ?_
  rw [List.map_map]
  exact (map_bindings h.left_var).symm ▸ h.left_nodup

theorem get?_eq_some_iff (h : p.SolvedForm) : (Substitution.ofEquations p).get? v = some ty ↔
    ∃ e ∈ p.active, e.left = .var v ∧ e.right = ty :=
  (Table.get?_ofList_eq_some_iff h.nodup_keys).trans mem_bindings

theorem size_ofEquations (h : p.SolvedForm) :
    (Substitution.ofEquations p).size = p.active.length := by
  have hlength := congrArg List.length (map_bindings h.left_var)
  simp only [List.length_map] at hlength
  exact (Table.size_ofList h.nodup_keys).trans hlength

theorem resolved (h : p.SolvedForm) : (Substitution.ofEquations p).Resolved := by
  intro v ty hv w hw
  obtain ⟨e, he, -, rfl⟩ := h.get?_eq_some_iff.mp hv
  cases hbound : (Substitution.ofEquations p).get? w with
  | none => rfl
  | some bound =>
    obtain ⟨e', he', hl, -⟩ := h.get?_eq_some_iff.mp hbound
    exact absurd hw (h.left_fresh e' he' e he w hl)

theorem unifies_lookup (h : p.SolvedForm) : Unifies (Substitution.ofEquations p).lookup p := by
  intro e he hd
  have hactive := mem_active.mpr ⟨he, hd⟩
  obtain ⟨v, hv⟩ := h.left_var e hactive
  have hbound := h.get?_eq_some_iff.mpr ⟨e, hactive, hv, rfl⟩
  have hright : e.right.instantiate (Substitution.ofEquations p).lookup = e.right :=
    Substitution.applyOnce_of_unbound fun w hw => h.resolved v e.right hbound w hw
  rw [Equation.Holds, hv, hright, Ty.instantiate, Substitution.lookup_of_some hbound]

theorem eq_instantiate (h : p.SolvedForm) (hθ : Unifies θ p)
    (hv : (Substitution.ofEquations p).get? v = some ty) : θ v = ty.instantiate θ := by
  obtain ⟨e, he, hl, rfl⟩ := h.get?_eq_some_iff.mp hv
  obtain ⟨hmem, hd⟩ := mem_active.mp he
  have hholds := hθ e hmem hd
  rwa [Equation.Holds, hl, Ty.instantiate] at hholds

theorem solves (h : p.SolvedForm) : (Substitution.ofEquations p).solves p = true := by
  rw [Substitution.solves, List.all_eq_true]
  intro e he
  cases hd : e.deleted with
  | true => rfl
  | false =>
    have hactive := mem_active.mpr ⟨he, hd⟩
    obtain ⟨v, hv⟩ := h.left_var e hactive
    have hfresh : v ∉ e.right.leaves := h.left_fresh e hactive e hactive v hv
    have hcanonical : e.isCanonical = true := by
      simpa [Equation.isCanonical, hv, ← Ty.occurs_iff] using hfresh
    have hholds := h.unifies_lookup e he hd
    rw [Equation.Holds, ← h.resolved.apply, ← h.resolved.apply] at hholds
    simp [hcanonical, hholds]

end SolvedForm

-- ---------------------------------------------------------------------------
-- Solving
-- ---------------------------------------------------------------------------

theorem of_solve_ok (h : p.solve.result = .ok σ) :
    p.exhaust.problem.SolvedForm ∧ σ = Substitution.ofEquations p.exhaust.problem := by
  obtain ⟨error, -, hsolve⟩ | ⟨-, hs, hsolve⟩ | ⟨e, -, -, hsolve⟩ := p.solve_cases
  · cases (congrArg Solution.result hsolve).symm.trans h
  · cases (congrArg Solution.result hsolve).symm.trans h
    exact ⟨firstUnsolved?_eq_none_iff.mp hs, rfl⟩
  · cases (congrArg Solution.result hsolve).symm.trans h

theorem resolved_of_solve (h : p.solve.result = .ok σ) : σ.Resolved := by
  obtain ⟨hsolved, rfl⟩ := of_solve_ok h
  exact hsolved.resolved

theorem unifies_lookup_of_solve (h : p.solve.result = .ok σ) : Unifies σ.lookup p := by
  obtain ⟨hsolved, rfl⟩ := of_solve_ok h
  exact (reaches_exhaust p).unifies_iff.mp hsolved.unifies_lookup

theorem not_unifies_of_infiniteType (h : p.solve.result = .error (.infiniteType v ty)) :
    ¬ Unifies θ p := by
  obtain ⟨error, herror, -⟩ | ⟨-, -, hsolve⟩ | ⟨e, -, -, hsolve⟩ := p.solve_cases
  · rw [← (reaches_exhaust p).unifies_iff]
    exact not_unifies_of_step_error (step_exhaust_of_some herror)
  · cases (congrArg Solution.result hsolve).symm.trans h
  · cases (congrArg Solution.result hsolve).symm.trans h

end Problem

/-- The substitution unifies the equations in play with the variables that
these have, every unifier factors through it, and it leaves no bound variable. -/
structure Substitution.MostGeneral (σ : Substitution) (p : Problem) : Prop where
  unifies : ∀ e ∈ p, e.deleted = false → σ.apply e.left = σ.apply e.right
  factors : ∀ θ, Unifies θ p → ∀ ty, ty.instantiate θ = (σ.apply ty).instantiate θ
  resolved : ∀ v ∈ σ.keys, ∀ ty, v ∉ (σ.apply ty).leaves
  vars : ∀ v ty, σ.get? v = some ty → v ∈ p.leaves ∧ ty.leaves ⊆ p.leaves

namespace Problem

variable {p : Problem}

theorem mostGeneral_of_solve (h : p.solve.result = .ok σ) : σ.MostGeneral p := by
  have hresolved := resolved_of_solve h
  have hunifies := unifies_lookup_of_solve h
  obtain ⟨hsolved, rfl⟩ := of_solve_ok h
  have hreaches := reaches_exhaust p
  refine ⟨?_, ?_, fun v hv ty => hresolved.not_mem_apply hv ty, ?_⟩
  · intro e he hd
    have hholds := hunifies e he hd
    rwa [Equation.Holds, ← hresolved.apply, ← hresolved.apply] at hholds
  · intro θ hθ ty
    have hend := hreaches.unifies_iff.mpr hθ
    exact (hresolved.instantiate_apply (fun _ _ => hsolved.eq_instantiate hend) ty).symm
  · intro v ty hv
    obtain ⟨e, he, hl, rfl⟩ := hsolved.get?_eq_some_iff.mp hv
    obtain ⟨hmem, hd⟩ := mem_active.mp he
    have hleaves : e.leaves ⊆ p.leaves := fun w hw =>
      hreaches.leaves_subset (mem_leaves.mpr ⟨e, hmem, hw⟩)
    refine ⟨hleaves ?_, fun w hw => hleaves ?_⟩
    · simp [Equation.mem_leaves hd, hl, Ty.leaves]
    · exact (Equation.mem_leaves hd).mpr (.inr hw)

theorem solve_mostGeneral (p : Problem) :
    (∀ σ, p.solve.result = .ok σ → σ.MostGeneral p ∧ p.solve.problem.SolvedForm ∧
      p.solve.problem.active.length = σ.size ∧ σ.solves p.solve.problem = true) ∧
    ∀ v ty, p.solve.result = .error (.infiniteType v ty) → ∀ θ, ¬ Unifies θ p := by
  refine ⟨?_, fun v ty h θ => not_unifies_of_infiniteType h⟩
  intro σ h
  obtain ⟨hsolved, hσ⟩ := of_solve_ok h
  rw [solve_problem, hσ]
  exact ⟨hσ ▸ mostGeneral_of_solve h, hsolved, hsolved.size_ofEquations.symm, hsolved.solves⟩

/-- A used equation, a deleted one that nothing unifies, and one between arrows;
and two equations that nothing unifies. -/
theorem solve_mostGeneral_marked :
    (let p : Problem :=
      [{ left := .var 5, right := .arrow (.var 6) (.var 6), used := true },
        { left := .var 1, right := .arrow (.var 1) (.var 1), deleted := true },
        { left := .arrow (.var 1) (.var 2), right := .arrow (.var 3) (.arrow (.var 4) (.var 1)) }]
    let σ : Substitution := Table.ofList
      [(1, .var 3), (2, .arrow (.var 4) (.var 3)), (5, .arrow (.var 6) (.var 6))]
    p.solve.result = .ok σ ∧ σ.MostGeneral p ∧ p.solve.problem.SolvedForm) ∧
    ∀ θ, ¬ Unifies θ [{ left := .var 1, right := .arrow (.var 2) (.var 3) },
      { left := .var 1, right := .var 2 }] := by
  refine ⟨?_, ?_⟩
  · intro p σ
    have h : p.solve.result = .ok σ := by cbv
    obtain ⟨hgeneral, hsolved, -⟩ := (solve_mostGeneral p).1 σ h
    exact ⟨h, hgeneral, hsolved⟩
  · exact (solve_mostGeneral _).2 2 (.arrow (.var 2) (.var 3)) (by cbv)

end Problem

end SimpleTypes
