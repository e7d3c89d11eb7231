import Mathlib.Logic.Relation
import Mathlib.Order.WellFounded
import SimpleTypes.Problem.Solve

/-!
# Steps and runs

`Reaches` relates a problem to the states of a run that starts with it. What
every firing keeps holds in every state of every run (`Reaches.invariant`), so
later modules look at the four rules and never at the search for an equation.

Every run of steps is finite, and a second round of `solve` finds nothing to
do: its first round either failed or left no equation that is ready for a rule.
So what `solve` gives is read off one run (`Problem.solve_eq_conclude`).
-/

namespace SimpleTypes

namespace Problem

variable {p q : Problem} {error : TypeError}

-- ---------------------------------------------------------------------------
-- Runs
-- ---------------------------------------------------------------------------

/-- The second problem is a state of the run that starts with the first. -/
def Reaches : Problem → Problem → Prop :=
  Relation.ReflTransGen fun p q => ∃ event, p.step = .ok (some ⟨event, q⟩)

theorem Reaches.invariant {P : Problem → Prop} (h : Reaches p q)
    (hfires : ∀ {p m}, Fires p m → P p → P m.next) (hp : P p) : P q := by
  induction h with
  | refl => exact hp
  | tail _ hstep ih =>
    obtain ⟨event, hstep⟩ := hstep
    exact hfires (fires_of_step hstep) ih

theorem reaches_exhaust (p : Problem) : Reaches p p.exhaust.problem := by
  fun_induction exhaust p with
  | case1 p failure hstep => exact problem_of_step_error hstep ▸ .refl
  | case2 p hstep => exact .refl
  | case3 p move hstep rest ih => exact .head ⟨move.event, hstep⟩ ih

theorem step_exhaust (p : Problem) :
    p.exhaust.problem.step =
      p.exhaust.error?.elim (.ok none) fun error => .error ⟨error, p.exhaust.problem⟩ := by
  fun_induction exhaust p with
  | case1 p failure hstep =>
    obtain ⟨error, left⟩ := failure
    obtain rfl : left = p := problem_of_step_error hstep
    exact hstep
  | case2 p hstep => exact hstep
  | case3 p move hstep rest ih => exact ih

theorem step_exhaust_of_none (h : p.exhaust.error? = none) :
    p.exhaust.problem.step = .ok none := by
  simpa [h] using step_exhaust p

theorem step_exhaust_of_some (h : p.exhaust.error? = some error) :
    p.exhaust.problem.step = .error ⟨error, p.exhaust.problem⟩ := by
  simpa [h] using step_exhaust p

theorem exhaust_exhaust (p : Problem) :
    p.exhaust.problem.exhaust = ⟨[], p.exhaust.problem, p.exhaust.error?⟩ := by
  cases h : p.exhaust.error? with
  | none => exact exhaust_of_none (step_exhaust_of_none h)
  | some error => exact exhaust_of_error (step_exhaust_of_some h)

theorem Reaches.exhaust_eq (h : Reaches p q) :
    p.exhaust.problem = q.exhaust.problem ∧ p.exhaust.error? = q.exhaust.error? := by
  induction h using Relation.ReflTransGen.head_induction_on with
  | refl => exact ⟨rfl, rfl⟩
  | head hstep _ ih =>
    obtain ⟨event, hstep⟩ := hstep
    rw [exhaust_of_move hstep]
    exact ih

-- ---------------------------------------------------------------------------
-- Solving
-- ---------------------------------------------------------------------------

theorem solve_cases (p : Problem) :
    (∃ error, p.exhaust.error? = some error ∧
      p.solve = ⟨p.exhaust.events, p.exhaust.problem, .error error⟩) ∨
    (p.exhaust.error? = none ∧ p.exhaust.problem.firstUnsolved? = none ∧
      p.solve = ⟨p.exhaust.events, p.exhaust.problem,
        .ok (Substitution.ofEquations p.exhaust.problem)⟩) ∨
    ∃ e, p.exhaust.error? = none ∧ p.exhaust.problem.firstUnsolved? = some e ∧
      p.solve = ⟨if p.exhaust.events = [] then [] else p.exhaust.events ++ [.rescan e],
        p.exhaust.problem, .error (.unsolvable e.left e.right)⟩ := by
  rw [solve]
  cases h : p.exhaust.error? with
  | some error => exact .inl ⟨error, rfl, rfl⟩
  | none =>
    cases hs : p.exhaust.problem.firstUnsolved? with
    | none => exact .inr (.inl ⟨rfl, rfl, rfl⟩)
    | some e =>
      refine .inr (.inr ⟨e, rfl, rfl, ?_⟩)
      simp only
      split
      · next hev => simp [hev]
      · next hev =>
        -- The next round makes no step, so it is the last.
        rw [solve]
        simp [exhaust_exhaust, h, hs]

@[simp] theorem solve_problem (p : Problem) : p.solve.problem = p.exhaust.problem := by
  obtain ⟨error, -, hsolve⟩ | ⟨-, -, hsolve⟩ | ⟨e, -, -, hsolve⟩ := p.solve_cases <;> rw [hsolve]

theorem Reaches.reaches_solve (h : Reaches p q) : Reaches q p.solve.problem := by
  rw [solve_problem, h.exhaust_eq.1]
  exact reaches_exhaust q

end Problem

def Exhausted.conclude (run : Exhausted) : Solution :=
  match run.error?, run.problem.firstUnsolved? with
  | some error, _ => ⟨run.events, run.problem, .error error⟩
  | none, none => ⟨run.events, run.problem, .ok (Substitution.ofEquations run.problem)⟩
  | none, some e =>
    ⟨if run.events = [] then [] else run.events ++ [.rescan e], run.problem,
      .error (.unsolvable e.left e.right)⟩

theorem Problem.solve_eq_conclude (p : Problem) : p.solve = p.exhaust.conclude := by
  unfold Exhausted.conclude
  obtain ⟨error, h, hsolve⟩ | ⟨h, hs, hsolve⟩ | ⟨e, h, hs, hsolve⟩ := p.solve_cases
  · rw [hsolve, h]
  · rw [hsolve, h, hs]
  · rw [hsolve, h, hs]

-- ---------------------------------------------------------------------------
-- Termination
-- ---------------------------------------------------------------------------

def Event.isRescan : Event → Bool
  | .rescan _ => true
  | _ => false

namespace Problem

theorem below_wellFounded : WellFounded Below :=
  InvImage.wf _ (WellFounded.prod_lex wellFounded_lt wellFounded_lt)

/-- The body of the loop of `solve`, with `again` in place of its repetition. -/
def round (again : Problem → Solution) (p : Problem) : Solution :=
  let run := p.exhaust
  match run.error? with
  | some error => ⟨run.events, run.problem, .error error⟩
  | none =>
    match run.problem.firstUnsolved? with
    | none => ⟨run.events, run.problem, .ok (Substitution.ofEquations run.problem)⟩
    | some e =>
      if run.events = [] then ⟨run.events, run.problem, .error (.unsolvable e.left e.right)⟩
      else { again run.problem with
        events := run.events ++ .rescan e :: (again run.problem).events }

theorem round_solve (p : Problem) : round solve p = p.solve := by
  rw [solve]
  rfl

theorem round_round (third : Problem → Solution) (p : Problem) :
    round (round third) p = p.solve := by
  obtain ⟨error, h, hsolve⟩ | ⟨h, hs, hsolve⟩ | ⟨e, h, hs, hsolve⟩ := p.solve_cases
  · simp [round, hsolve, h]
  · simp [round, hsolve, h, hs]
  · rw [hsolve]
    by_cases hev : p.exhaust.events = [] <;> simp [round, h, hs, hev, exhaust_exhaust]

theorem not_mem_exhaust_events (p : Problem) (e : Equation) : .rescan e ∉ p.exhaust.events := by
  fun_induction exhaust p with
  | case1 p error hstep => simp
  | case2 p hstep => simp
  | case3 p move hstep rest ih =>
    have hevent : Event.rescan e ≠ move.event := by
      intro h
      cases fires_of_step hstep <;> cases h
    simpa using ⟨hevent, ih⟩

theorem countP_rescan_le (p : Problem) : p.solve.events.countP Event.isRescan ≤ 1 := by
  have hrun : p.exhaust.events.countP Event.isRescan = 0 := by
    rw [List.countP_eq_zero]
    intro event hevent hrescan
    cases event with
    | rescan e => exact not_mem_exhaust_events p e hevent
    | _ => cases hrescan
  obtain ⟨error, -, hsolve⟩ | ⟨-, -, hsolve⟩ | ⟨e, -, -, hsolve⟩ := p.solve_cases
  · simp [hsolve, hrun]
  · simp [hsolve, hrun]
  · rw [hsolve]
    split
    · simp
    · simp [hrun, Event.isRescan]

/-- Steps come to an end, and `solve` is its loop body run once or twice. -/
theorem solve_terminates :
    (¬ ∃ run : Nat → Problem, ∀ n, ∃ event, (run n).step = .ok (some ⟨event, run (n + 1)⟩)) ∧
      ∀ p : Problem, p.solve = round solve p ∧ (∀ third, p.solve = round (round third) p) ∧
        p.solve.events.countP Event.isRescan ≤ 1 := by
  refine ⟨?_, fun p => ⟨(round_solve p).symm, fun third => (round_round third p).symm,
    countP_rescan_le p⟩⟩
  rintro ⟨run, hrun⟩
  have hdown (n : Nat) : Below (run (n + 1)) (run n) := by
    obtain ⟨event, hstep⟩ := hrun n
    exact below_of_step hstep
  exact (wellFounded_iff_isEmpty_descending_chain.mp below_wellFounded).false ⟨run, hdown⟩

end Problem

end SimpleTypes
