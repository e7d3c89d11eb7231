import SimpleTypes.Problem.Measure
import SimpleTypes.Substitution

/-!
# Solving unification problems

`exhaust` takes steps until no rule applies or one fails. `solve` accepts what
is left if it is in solved form: every equation in play has a variable on the
left, no variable is on the left twice, and none of them is on any right side.
If it is not, steps are tried once more before the problem is given up.
-/

namespace SimpleTypes

/-- How a run of steps ended. -/
structure Exhausted where
  events : List Event
  problem : Problem
  error? : Option TypeError
  deriving DecidableEq, Repr, Inhabited

/-- How an attempt to solve a problem ended, the equations as it left them. -/
structure Solution where
  events : List Event
  problem : Problem
  result : Except TypeError Substitution

namespace Problem

/-- The equations in play. -/
def active (p : Problem) : List Equation := p.filter fun e => !e.deleted

def exhaust (p : Problem) : Exhausted :=
  match _h : p.step with
  | .error failure => ⟨[], failure.problem, some failure.error⟩
  | .ok none => ⟨[], p, none⟩
  | .ok (some move) =>
    let rest := exhaust move.next
    { rest with events := move.event :: rest.events }
termination_by (distinctCount p.pending, p.weight)
decreasing_by exact below_of_step _h

/-- The first of `equations` that is not in solved form, given the left
variables before it and all equations in play. -/
def firstUnsolvedAfter (active : List Equation) (seen : List TyVar) :
    List Equation → Option Equation
  | [] => none
  | e :: rest =>
    match e.left with
    | .arrow .. => some e
    | .var v =>
      if e.sidesEqual || seen.contains v || active.any (·.right.occurs v) then some e
      else firstUnsolvedAfter active (v :: seen) rest

def firstUnsolved? (p : Problem) : Option Equation := firstUnsolvedAfter p.active [] p.active

theorem exhaust_of_error {p : Problem} {failure : Failure} (h : p.step = .error failure) :
    p.exhaust = ⟨[], p, some failure.error⟩ := by
  have hleft := problem_of_step_error h
  rw [exhaust]
  split <;> simp_all

theorem exhaust_of_none {p : Problem} (h : p.step = .ok none) : p.exhaust = ⟨[], p, none⟩ := by
  rw [exhaust]
  split <;> simp_all

theorem exhaust_of_move {p : Problem} {move : Move} (h : p.step = .ok (some move)) :
    p.exhaust =
      ⟨move.event :: (exhaust move.next).events, (exhaust move.next).problem,
        (exhaust move.next).error?⟩ := by
  rw [exhaust]
  split <;> simp_all

/-- Without an event there was no step. -/
theorem exhaust_problem {p : Problem} (h : p.exhaust.events = []) : p.exhaust.problem = p := by
  rcases hstep : p.step with failure | _ | move
  · rw [exhaust_of_error hstep]
  · rw [exhaust_of_none hstep]
  · simp [exhaust_of_move hstep] at h

theorem exhaust_below {p : Problem} (h : p.exhaust.events ≠ []) : Below p.exhaust.problem p := by
  fun_induction exhaust p with
  | case1 p failure hstep => exact absurd rfl h
  | case2 p hstep => exact absurd rfl h
  | case3 p move hstep rest ih =>
    have hmove := below_of_step hstep
    by_cases hr : rest.events = []
    · rwa [exhaust_problem hr]
    · exact (ih hr).trans hmove

/-- Takes steps until none is left, then reads the solution off. -/
def solve (p : Problem) : Solution :=
  let run := p.exhaust
  match run.error? with
  | some error => ⟨run.events, run.problem, .error error⟩
  | none =>
    match run.problem.firstUnsolved? with
    | none => ⟨run.events, run.problem, .ok (Substitution.ofEquations run.problem)⟩
    | some e =>
      if _h : run.events = [] then
        ⟨run.events, run.problem, .error (.unsolvable e.left e.right)⟩
      else
        let again := solve run.problem
        { again with events := run.events ++ .rescan e :: again.events }
termination_by (distinctCount p.pending, p.weight)
decreasing_by exact exhaust_below _h

end Problem

end SimpleTypes
