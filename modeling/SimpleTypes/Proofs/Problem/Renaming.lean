import SimpleTypes.Proofs.Problem.Solution
import SimpleTypes.Proofs.Ty.Renaming

/-!
# Solving does not look at the numbers of variables

A renaming that keeps different variables different can be done before or after
every stage of solving: choosing a rule, firing it, taking steps to the end,
checking what is left, and reading the substitution off. Hence a problem and
its renamed form run side by side, with the same rule at the same place in each
step, and end in the same way (`Problem.solve_rename`).
-/

namespace SimpleTypes

variable {f : TyVar → TyVar}

-- ---------------------------------------------------------------------------
-- Renaming what solving works on
-- ---------------------------------------------------------------------------

def Equation.rename (f : TyVar → TyVar) (e : Equation) : Equation :=
  { e with left := e.left.rename f, right := e.right.rename f }

def Rule.rename (f : TyVar → TyVar) : Rule → Rule
  | .orient => .orient
  | .delete => .delete
  | .decompose domains codomains => .decompose (domains.rename f) (codomains.rename f)
  | .eliminate v => .eliminate (f v)

def Event.rename (f : TyVar → TyVar) : Event → Event
  | .orient turned => .orient (turned.rename f)
  | .delete e => .delete (e.rename f)
  | .decompose e domains codomains =>
    .decompose (e.rename f) (domains.rename f) (codomains.rename f)
  | .eliminate v ty => .eliminate (f v) (ty.rename f)
  | .rescan e => .rescan (e.rename f)

def TypeError.rename (f : TyVar → TyVar) : TypeError → TypeError
  | .infiniteType v ty => .infiniteType (f v) (ty.rename f)
  | .unsolvable left right => .unsolvable (left.rename f) (right.rename f)

def Substitution.rename (f : TyVar → TyVar) (σ : Substitution) : Substitution :=
  Table.ofList (σ.entries.map fun entry => (f entry.1, entry.2.rename f))

def Problem.rename (f : TyVar → TyVar) (p : Problem) : Problem := p.map (Equation.rename f)

def Focus.rename (f : TyVar → TyVar) (focus : Focus) : Focus :=
  ⟨focus.before.rename f, focus.equation.rename f, focus.rule.rename f, focus.after.rename f⟩

def Move.rename (f : TyVar → TyVar) (move : Move) : Move :=
  ⟨move.event.rename f, move.next.rename f⟩

def Failure.rename (f : TyVar → TyVar) (failure : Failure) : Failure :=
  ⟨failure.error.rename f, failure.problem.rename f⟩

def Exhausted.rename (f : TyVar → TyVar) (run : Exhausted) : Exhausted :=
  ⟨run.events.map (Event.rename f), run.problem.rename f, run.error?.map (TypeError.rename f)⟩

def Solution.rename (f : TyVar → TyVar) (solution : Solution) : Solution :=
  ⟨solution.events.map (Event.rename f), solution.problem.rename f,
    (solution.result.map (Substitution.rename f)).mapError (TypeError.rename f)⟩

namespace Problem

theorem rename_append (p q : Problem) : rename f (p ++ q) = p.rename f ++ q.rename f :=
  List.map_append

theorem rename_cons (e : Equation) (p : Problem) :
    rename f (e :: p) = e.rename f :: p.rename f := rfl

theorem active_rename (p : Problem) : (p.rename f).active = p.active.map (Equation.rename f) := by
  simp only [active, rename, List.filter_map]
  rfl

theorem bindings_rename (p : Problem) :
    (p.rename f).bindings = p.bindings.map fun entry => (f entry.1, entry.2.rename f) := by
  unfold bindings rename
  rw [List.filterMap_map, List.map_filterMap]
  congr 1
  funext e
  cases hd : e.deleted <;> cases hl : e.left <;>
    simp [Equation.rename, hd, hl, Ty.rename, Ty.instantiate, Ty.asVar?]

end Problem

section

variable (hf : Function.Injective f)
include hf

-- ---------------------------------------------------------------------------
-- One equation
-- ---------------------------------------------------------------------------

namespace Equation

theorem sidesEqual_rename (e : Equation) : (e.rename f).sidesEqual = e.sidesEqual :=
  (Ty.rename_injective hf).beq_eq

theorem rename_replace (e : Equation) (v : TyVar) (ty : Ty) :
    (e.replace v ty).rename f = (e.rename f).replace (f v) (ty.rename f) := by
  cases hd : e.deleted with
  | true => simp [replace, rename, hd]
  | false => simp [replace, rename, hd, Ty.rename_replace hf]

theorem rule?_rename (e : Equation) : (e.rename f).rule? = e.rule?.map (Rule.rename f) := by
  unfold rule?
  rw [sidesEqual_rename hf]
  generalize e.sidesEqual = same
  obtain ⟨left, right, used, deleted⟩ := e
  cases deleted with
  | true => rfl
  | false =>
    cases left with
    | var v => cases same <;> cases used <;> rfl
    | arrow a b =>
      cases right with
      | var w => rfl
      | arrow c d => cases same <;> rfl

end Equation

-- ---------------------------------------------------------------------------
-- Steps and runs
-- ---------------------------------------------------------------------------

theorem Problem.focus?_rename (p : Problem) :
    (p.rename f).focus? = p.focus?.map (Focus.rename f) := by
  induction p with
  | nil => rfl
  | cons e rest ih =>
    have hrule := Equation.rule?_rename hf e
    unfold Problem.rename at ih ⊢
    simp only [List.map_cons, focus?, hrule]
    cases e.rule? with
    | some rule => rfl
    | none =>
      simp only [Option.map_none, ih, Option.map_map]
      rfl

theorem Problem.rename_map_replace (p : Problem) (v : TyVar) (ty : Ty) :
    Problem.rename f (p.map (·.replace v ty)) =
      (p.rename f).map (·.replace (f v) (ty.rename f)) := by
  simp only [Problem.rename, List.map_map, Function.comp_def, Equation.rename_replace hf]

theorem Focus.fire_rename (focus : Focus) :
    (focus.rename f).fire =
      (focus.fire.map (Move.rename f)).mapError (Failure.rename f) := by
  obtain ⟨before, e, rule, after⟩ := focus
  cases rule with
  | eliminate v =>
    have hoccurs : (e.rename f).right.occurs (f v) = e.right.occurs v :=
      Ty.occurs_rename hf v e.right
    simp only [fire, Focus.rename, Rule.rename, hoccurs]
    split
    · simp only [Except.map, Except.mapError, Failure.rename, Problem.rename_append,
        Problem.rename_cons]
      rfl
    · simp only [Except.map, Except.mapError, Move.rename, Problem.rename_append,
        Problem.rename_cons, Problem.rename_map_replace hf]
      rfl
  | _ =>
    -- The other rules leave the rest of the problem alone.
    simp only [fire, Focus.rename, Rule.rename, Except.map, Except.mapError, Move.rename,
      Problem.rename_append]
    rfl

theorem Problem.step_rename (p : Problem) :
    (p.rename f).step =
      (p.step.map (Option.map (Move.rename f))).mapError (Failure.rename f) := by
  unfold step
  rw [focus?_rename hf]
  cases p.focus? with
  | none => rfl
  | some focus =>
    simp only [Option.map_some, Focus.fire_rename hf]
    cases focus.fire <;> rfl

theorem Problem.exhaust_rename (p : Problem) : (p.rename f).exhaust = p.exhaust.rename f := by
  fun_induction exhaust p with
  | case1 p failure hstep =>
    have hrenamed := step_rename hf p
    rw [hstep] at hrenamed
    rw [problem_of_step_error hstep]
    exact exhaust_of_error hrenamed
  | case2 p hstep =>
    have hrenamed := step_rename hf p
    rw [hstep] at hrenamed
    exact exhaust_of_none hrenamed
  | case3 p move hstep rest ih =>
    have hrenamed := step_rename hf p
    rw [hstep] at hrenamed
    rw [exhaust_of_move hrenamed]
    exact congrArg
      (fun run : Exhausted => { run with events := move.event.rename f :: run.events }) ih

-- ---------------------------------------------------------------------------
-- What is left
-- ---------------------------------------------------------------------------

theorem Problem.firstUnsolvedAfter_rename (active equations : List Equation) (seen : List TyVar) :
    firstUnsolvedAfter (active.map (Equation.rename f)) (seen.map f)
        (equations.map (Equation.rename f)) =
      (firstUnsolvedAfter active seen equations).map (Equation.rename f) := by
  induction equations generalizing seen with
  | nil => rfl
  | cons e rest ih =>
    cases hl : e.left with
    | arrow a b => simp [firstUnsolvedAfter, hl, Equation.rename, Ty.rename, Ty.instantiate]
    | var v =>
      have hleft : (e.rename f).left = .var (f v) := by
        rw [Equation.rename, hl]
        rfl
      have hseen : (seen.map f).contains (f v) = seen.contains v := by
        simp [hf.eq_iff]
      have hright : (active.map (Equation.rename f)).any (·.right.occurs (f v)) =
          active.any (·.right.occurs v) := by
        rw [List.any_map]
        congr 1
        funext e'
        exact Ty.occurs_rename hf v e'.right
      have hrest := ih (v :: seen)
      rw [List.map_cons] at hrest
      simp only [List.map_cons, firstUnsolvedAfter, hl, hleft, Equation.sidesEqual_rename hf, hseen,
        hright, hrest]
      split <;> rfl

theorem Problem.firstUnsolved?_rename (p : Problem) :
    (p.rename f).firstUnsolved? = p.firstUnsolved?.map (Equation.rename f) := by
  unfold firstUnsolved?
  rw [active_rename]
  exact firstUnsolvedAfter_rename hf p.active p.active []

-- ---------------------------------------------------------------------------
-- The substitution
-- ---------------------------------------------------------------------------

namespace Substitution

variable {σ : Substitution} {v w : TyVar} {ty : Ty}

theorem get?_rename :
    (σ.rename f).get? w = some ty ↔ ∃ v t, σ.get? v = some t ∧ f v = w ∧ t.rename f = ty := by
  have hkeys : (σ.entries.map Prod.fst).Nodup :=
    List.pairwise_map.mpr (σ.increasing.imp fun hlt heq => by simp [heq] at hlt)
  have hrenamed : ((σ.entries.map fun entry => (f entry.1, entry.2.rename f)).map
      Prod.fst).Nodup := by
    have hmap := hkeys.map hf
    rwa [List.map_map] at hmap ⊢
  rw [rename, Table.get?_ofList_eq_some_iff hrenamed]
  simp only [List.mem_map, Prod.mk.injEq, Prod.exists, Table.get?_eq_some_iff]

theorem get?_rename_apply :
    (σ.rename f).get? (f v) = some (ty.rename f) ↔ σ.get? v = some ty := by
  rw [get?_rename hf]
  constructor
  · rintro ⟨w, t, ht, hw, hty⟩
    rwa [← hf hw, ← Ty.rename_injective hf hty]
  · intro h
    exact ⟨v, ty, h, rfl, rfl⟩

theorem rename_injective : Function.Injective (Substitution.rename f) := by
  intro σ τ h
  apply Table.ext_get?
  intro v
  apply Option.ext
  intro ty
  rw [← get?_rename_apply hf, h, get?_rename_apply hf]

theorem rename_insert (σ : Substitution) (v : TyVar) (ty : Ty) :
    Substitution.rename f (σ.insert v ty) = (σ.rename f).insert (f v) (ty.rename f) := by
  apply Table.ext_get?
  intro w
  apply Option.ext
  intro ty'
  rw [get?_rename hf, Table.get?_insert]
  by_cases hw : w = f v
  · subst hw
    simp only [if_true, Option.some.injEq]
    constructor
    · rintro ⟨u, t, ht, hu, rfl⟩
      obtain rfl := hf hu
      obtain rfl : ty = t := by simpa using ht
      rfl
    · rintro rfl
      exact ⟨v, ty, by simp, rfl, rfl⟩
  · have hother {u : TyVar} (hu : f u = w) : (σ.insert v ty).get? u = σ.get? u := by
      have hne : u ≠ v := fun heq => hw (heq ▸ hu.symm)
      simp [hne]
    rw [if_neg hw, get?_rename hf]
    constructor
    · rintro ⟨u, t, ht, hu, rfl⟩
      exact ⟨u, t, (hother hu).symm.trans ht, hu, rfl⟩
    · rintro ⟨u, t, ht, hu, rfl⟩
      exact ⟨u, t, (hother hu).trans ht, hu, rfl⟩

theorem rename_insertAll (σ : Substitution) (entries : List (TyVar × Ty)) :
    Substitution.rename f (σ.insertAll entries) =
      (σ.rename f).insertAll (entries.map fun entry => (f entry.1, entry.2.rename f)) := by
  induction entries generalizing σ with
  | nil => rfl
  | cons entry rest ih =>
    have hrest := ih (σ.insert entry.1 entry.2)
    rw [rename_insert hf] at hrest
    exact hrest

theorem ofEquations_rename (p : Problem) :
    ofEquations (p.rename f) = (ofEquations p).rename f :=
  calc ofEquations (p.rename f)
      = Table.ofList (p.rename f).bindings := rfl
    _ = Table.ofList (p.bindings.map fun entry => (f entry.1, entry.2.rename f)) := by
      rw [Problem.bindings_rename]
    _ = Substitution.rename f (Table.ofList p.bindings) :=
      (rename_insertAll hf Table.empty p.bindings).symm

end Substitution

theorem TypeError.rename_injective : Function.Injective (TypeError.rename f) := by
  intro e e' h
  have hty := Ty.rename_injective hf
  cases e <;> cases e' <;> simp_all [TypeError.rename, hf.eq_iff, hty.eq_iff]

-- ---------------------------------------------------------------------------
-- Solving
-- ---------------------------------------------------------------------------

theorem Exhausted.conclude_rename (run : Exhausted) :
    (run.rename f).conclude = run.conclude.rename f := by
  obtain ⟨events, problem, error?⟩ := run
  simp only [conclude, Exhausted.rename, Problem.firstUnsolved?_rename hf]
  cases error? with
  | some error => rfl
  | none =>
    cases problem.firstUnsolved? with
    | none =>
      simp only [Option.map_none, Substitution.ofEquations_rename hf]
      rfl
    | some e => cases events <;> simp [Solution.rename, Event.rename] <;> rfl

theorem Problem.solve_rename (p : Problem) : (p.rename f).solve = p.solve.rename f := by
  rw [solve_eq_conclude, exhaust_rename hf, Exhausted.conclude_rename hf, solve_eq_conclude]

end

/-- A problem and its renamed form are solved in the same way: one has a
solution or an error if the other has it renamed, and the equations that are
left correspond place by place, marks included. -/
theorem Problem.solve_renamed (hf : Function.Injective f) (p : Problem) :
    (∀ σ : Substitution, (p.rename f).solve.result = .ok (σ.rename f) ↔ p.solve.result = .ok σ) ∧
    (∀ error : TypeError, (p.rename f).solve.result = .error (error.rename f) ↔
      p.solve.result = .error error) ∧
    (p.rename f).solve.problem = p.solve.problem.rename f := by
  have hσ := Substitution.rename_injective hf
  have herror := TypeError.rename_injective hf
  rw [solve_rename hf]
  refine ⟨?_, ?_, rfl⟩
  · intro σ
    cases h : p.solve.result <;>
      simp [Solution.rename, h, Except.map, Except.mapError, hσ.eq_iff]
  · intro error
    cases h : p.solve.result <;>
      simp [Solution.rename, h, Except.map, Except.mapError, herror.eq_iff]

/-- Two variables exchanged, in a problem with a solution, in one with an
infinite type and in one whose used equations disagree. -/
theorem Problem.solve_renamed_swapped :
    let f : TyVar → TyVar := Equiv.swap 1 2
    let p : Problem := [{ left := .var 1, right := .arrow (.var 2) (.var 3) },
      { left := .var 3, right := .var 1, deleted := true }]
    let q : Problem := [{ left := .var 1, right := .arrow (.var 1) (.var 2) }]
    let r : Problem := [{ left := .var 1, right := .arrow (.var 2) (.var 2), used := true },
      { left := .var 1, right := .arrow (.var 3) (.var 3), used := true }]
    Function.Injective f ∧
      (p.rename f).solve.result = .ok (Table.ofList [(2, .arrow (.var 1) (.var 3))]) ∧
      (q.rename f).solve.result = .error (.infiniteType 2 (.arrow (.var 2) (.var 1))) ∧
      (r.rename f).solve.result = .error (.unsolvable (.var 2) (.arrow (.var 3) (.var 3))) ∧
      (r.rename f).solve.problem = r.rename f := by
  intro f p q r
  have hf : Function.Injective f := (Equiv.swap 1 2).injective
  have hp : p.solve.result = .ok (Table.ofList [(1, .arrow (.var 2) (.var 3))]) := by cbv
  have hq : q.solve.result = .error (.infiniteType 1 (.arrow (.var 1) (.var 2))) := by cbv
  have hr : r.solve.result = .error (.unsolvable (.var 1) (.arrow (.var 3) (.var 3))) := by cbv
  have hleft : r.solve.problem = r := by cbv
  refine ⟨hf, ((solve_renamed hf p).1 _).mpr hp, ((solve_renamed hf q).2.1 _).mpr hq,
    ((solve_renamed hf r).2.1 _).mpr hr, ?_⟩
  exact (solve_renamed hf r).2.2.trans (congrArg (Problem.rename f) hleft)

end SimpleTypes
