import SimpleTypes.Proofs.Inference

/-!
# Sessions keep nothing

Every term is inferred from a new start, so a session that has seen other
terms, with or without a type, answers as a new one does (`calls_eq`).

What a session shows also tells how its last term fared (`infer_cases`). With a
type, the substitution was read off a solved problem. Without one, nothing is
bound, and the equation on which the occurs check failed is still in play with
its variable on both sides, so no substitution solves what is left.
-/

namespace SimpleTypes

theorem Problem.not_solves_of_step_error {p : Problem} {failure : Failure}
    (h : p.step = .error failure) (σ : Substitution) : σ.solves p = false := by
  have hsteps := p.steps_step
  rw [h] at hsteps
  cases hsteps with
  | @fail e v he hd hl hne hv =>
    have hcanonical : e.isCanonical = false := by
      simpa [Equation.isCanonical, hl] using Ty.occurs_iff.mpr hv
    rw [Substitution.solves, List.all_eq_false]
    exact ⟨e, he, by simp [hd, hcanonical]⟩

namespace Session

variable {term : Term}

-- ---------------------------------------------------------------------------
-- One call
-- ---------------------------------------------------------------------------

theorem constrain_eq (s : Session) (term : Term) : s.constrain term = constrain {} term := rfl

theorem infer_eq (s : Session) (term : Term) : s.infer term = infer {} term := by
  simp only [infer, constrain_eq s term]

theorem equations_constrain (term : Term) : (constrain {} term).2.equations = term.equations := rfl

theorem substitution_constrain (term : Term) :
    (constrain {} term).2.substitution = Table.empty := rfl

theorem solve_of_ok {s : Session} {σ : Substitution}
    (h : (Problem.solve s.equations).result = .ok σ) :
    s.solve = (.ok (), { s with
      equations := (Problem.solve s.equations).problem, substitution := σ }) := by
  simp [solve, h]

theorem solve_of_error {s : Session} {error : TypeError}
    (h : (Problem.solve s.equations).result = .error error) :
    s.solve = (.error error, { s with equations := (Problem.solve s.equations).problem }) := by
  simp [solve, h]

theorem infer_of_ok {σ : Substitution} (h : (Problem.solve term.equations).result = .ok σ) :
    (∃ d, (infer {} term).1 = .ok d) ∧
      (infer {} term).2.equations = (Problem.solve term.equations).problem ∧
      (infer {} term).2.substitution = σ := by
  rw [← equations_constrain] at h
  simp [infer, solve_of_ok h, equations_constrain, Except.map]

theorem infer_of_error {error : TypeError}
    (h : (Problem.solve term.equations).result = .error error) :
    (infer {} term).1 = .error error ∧
      (infer {} term).2.equations = (Problem.solve term.equations).problem ∧
      (infer {} term).2.substitution = Table.empty := by
  rw [← equations_constrain] at h
  simp [infer, solve_of_error h, equations_constrain, substitution_constrain, Except.map]

theorem infer_cases (term : Term) :
    ((∃ d, (infer {} term).1 = .ok d) ∧ (infer {} term).2.isSolved = true) ∨
    ((∃ error, (infer {} term).1 = .error error) ∧ (infer {} term).2.isSolved = false ∧
      (infer {} term).2.substitution = Table.empty) := by
  have hunused : ∀ e ∈ term.equations, e.deleted = false → e.used = false := by
    rw [Term.equations_eq]
    exact Builder.unused_added {} term
  obtain ⟨v, ty, herror, hsolve⟩ | ⟨herror, hsolve⟩ := Problem.solve_cases_of_unused hunused
  · obtain ⟨hresult, hequations, hempty⟩ := infer_of_error (congrArg Solution.result hsolve)
    refine .inr ⟨⟨_, hresult⟩, ?_, hempty⟩
    rw [isSolved, hequations, Problem.solve_problem]
    exact Problem.not_solves_of_step_error (Problem.step_exhaust_of_some herror) _
  · obtain ⟨hresult, hequations, hsubstitution⟩ :=
      infer_of_ok (congrArg Solution.result hsolve)
    refine .inl ⟨hresult, ?_⟩
    rw [isSolved, hequations, hsubstitution, Problem.solve_problem]
    exact (Problem.solvedForm_exhaust hunused herror).solves

-- ---------------------------------------------------------------------------
-- One call after another
-- ---------------------------------------------------------------------------

/-- What each call answers, and the session after it. -/
def calls (s : Session) : List Term → List (Except TypeError Derivation × Session)
  | [] => []
  | term :: rest => s.infer term :: (s.infer term).2.calls rest

theorem calls_eq_map (s : Session) (terms : List Term) : s.calls terms = terms.map (infer {}) := by
  induction terms generalizing s with
  | nil => rfl
  | cons term rest ih => rw [calls, ih, infer_eq, List.map_cons]

/-- Whatever came before, a call leaves what it leaves in a new session: solved
equations exactly if there is a type, and nothing bound if there is none. -/
theorem calls_eq (s : Session) (terms : List Term) :
    s.calls terms = terms.map (infer {}) ∧
      ∀ call ∈ s.calls terms, (call.2.isSolved = true ↔ ∃ d, call.1 = .ok d) ∧
        ∀ error, call.1 = .error error → call.2.substitution = Table.empty := by
  refine ⟨calls_eq_map s terms, ?_⟩
  intro call hcall
  rw [calls_eq_map] at hcall
  obtain ⟨term, -, rfl⟩ := List.mem_map.mp hcall
  obtain ⟨⟨d, hd⟩, hsolved⟩ | ⟨⟨error, herror⟩, hsolved, hempty⟩ := infer_cases term
  · simp [hd, hsolved]
  · simp [herror, hsolved, hempty]

/-- A term without a type comes first, and nothing of it is seen in the answer
to the second. -/
theorem calls_eq_after_failure :
    let selfApplied : Term := .abs "x" (.app (.var "x") (.var "x"))
    ∃ first second, calls {} [selfApplied, .app (.var "y") (.var "z")] = [first, second] ∧
      first.1 = .error (.infiniteType 2 (.arrow (.var 2) (.var 3))) ∧
      first.2.isSolved = false ∧ first.2.substitution = Table.empty ∧
      second = infer {} (.app (.var "y") (.var "z")) ∧ second.2.isSolved = true := by
  intro selfApplied
  obtain ⟨hcalls, hall⟩ := calls_eq {} [selfApplied, .app (.var "y") (.var "z")]
  simp only [hcalls, List.map_cons, List.map_nil, List.forall_mem_cons] at hall
  obtain ⟨⟨hsolved, hempty⟩, ⟨hsolved', -⟩, -⟩ := hall
  have herror : (infer {} selfApplied).1 =
      .error (.infiniteType 2 (.arrow (.var 2) (.var 3))) := by cbv
  have hok : ∃ d, (infer {} (.app (.var "y") (.var "z"))).1 = .ok d := ⟨_, by cbv⟩
  refine ⟨_, _, hcalls, herror, ?_, hempty _ herror, rfl, hsolved'.mpr hok⟩
  simpa [herror] using hsolved

end Session

end SimpleTypes
