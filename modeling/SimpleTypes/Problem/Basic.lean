import SimpleTypes.Equation
import SimpleTypes.TypeError

/-!
# Rewriting unification problems

A problem is a list of equations. One step takes the first equation that a
rule applies to: an equation with its variable on the right is turned around,
one with equal sides is deleted, one between arrows is deleted and its parts
are added behind all others, and one with a variable on the left that has not
been used replaces that variable everywhere else. Equations are never removed
from the list or moved in it.
-/

namespace SimpleTypes

abbrev Problem := List Equation

inductive Rule where
  | orient
  | delete
  | decompose (domains codomains : Equation)
  | eliminate (v : TyVar)
  deriving DecidableEq, Repr, Inhabited

/-- What a run reports. -/
inductive Event where
  | orient (turned : Equation)
  | delete (e : Equation)
  | decompose (e domains codomains : Equation)
  | eliminate (v : TyVar) (ty : Ty)
  /-- No rule applies any more, and this equation is not in solved form. -/
  | rescan (e : Equation)
  deriving DecidableEq, Repr, Inhabited

def Event.render : Event → String
  | .orient turned => "orient: " ++ turned.render
  | .delete e => "delete: " ++ e.render
  | .decompose e domains codomains =>
    "decompose: " ++ e.render ++ " into " ++ domains.render ++ " and " ++ codomains.render
  | .eliminate v ty => "eliminate: " ++ TyVar.render v ++ " := " ++ ty.render
  | .rescan e => "system not solved at " ++ e.render ++ ", rescanning"

/-- The rule an equation is ready for. -/
def Equation.rule? (e : Equation) : Option Rule :=
  if e.deleted then none
  else
    match e.left, e.right with
    | .arrow .., .var _ => some .orient
    | .arrow a b, .arrow c d =>
      if e.sidesEqual then some .delete
      else some (.decompose { left := a, right := c } { left := b, right := d })
    | .var v, _ =>
      if e.sidesEqual then some .delete else if e.used then none else some (.eliminate v)

/-- A problem divided at the first equation that is ready for a rule. -/
structure Focus where
  before : Problem
  equation : Equation
  rule : Rule
  after : Problem
  deriving DecidableEq, Repr, Inhabited

structure Move where
  event : Event
  next : Problem
  deriving DecidableEq, Repr, Inhabited

/-- An error, and the problem as it is left. -/
structure Failure where
  error : TypeError
  problem : Problem
  deriving DecidableEq, Repr, Inhabited

/-- Applies the rule. Elimination fails on a variable that occurs in its own
replacement, before it has changed anything. -/
def Focus.fire (f : Focus) : Except Failure Move :=
  match f.rule with
  | .orient => .ok ⟨.orient f.equation.swap, f.before ++ f.equation.swap :: f.after⟩
  | .delete => .ok ⟨.delete f.equation, f.before ++ { f.equation with deleted := true } :: f.after⟩
  | .decompose domains codomains =>
    .ok ⟨.decompose f.equation domains codomains,
      f.before ++ { f.equation with deleted := true } :: f.after ++ [domains, codomains]⟩
  | .eliminate v =>
    let ty := f.equation.right
    if ty.occurs v then .error ⟨.infiniteType v ty, f.before ++ f.equation :: f.after⟩
    else
      .ok ⟨.eliminate v ty,
        f.before.map (·.replace v ty) ++ { f.equation with used := true } ::
          f.after.map (·.replace v ty)⟩

namespace Problem

def focus? : Problem → Option Focus
  | [] => none
  | e :: rest =>
    match e.rule? with
    | some rule => some ⟨[], e, rule, rest⟩
    | none => (focus? rest).map fun f => { f with before := e :: f.before }

/-- One step, or nothing if no rule applies. -/
def step (p : Problem) : Except Failure (Option Move) :=
  match p.focus? with
  | none => .ok none
  | some f => f.fire.map some

/-- A focus divides the problem, and its rule is that of its equation. -/
theorem focus?_eq_some {p : Problem} {f : Focus} (h : p.focus? = some f) :
    p = f.before ++ f.equation :: f.after ∧ f.equation.rule? = some f.rule ∧
      ∀ e ∈ f.before, e.rule? = none := by
  induction p generalizing f with
  | nil => simp [focus?] at h
  | cons e rest ih =>
    unfold focus? at h
    split at h
    · next rule hrule =>
      cases h
      exact ⟨rfl, hrule, by simp⟩
    · next hrule =>
      obtain ⟨g, hg, rfl⟩ := Option.map_eq_some_iff.mp h
      obtain ⟨hp, hg, hbefore⟩ := ih hg
      refine ⟨by simp [← hp], hg, ?_⟩
      intro e' he'
      rcases List.mem_cons.mp he' with rfl | he'
      · exact hrule
      · exact hbefore e' he'

theorem focus?_eq_none_iff {p : Problem} : p.focus? = none ↔ ∀ e ∈ p, e.rule? = none := by
  induction p with
  | nil => simp [focus?]
  | cons e rest ih =>
    unfold focus?
    split
    · next h => simp [h]
    · next h => simp [h, ih]

end Problem

-- ---------------------------------------------------------------------------
-- What a step does
-- ---------------------------------------------------------------------------

/-- What its rule says about the sides and marks of an equation. -/
inductive Equation.Ready (e : Equation) : Option Rule → Prop
  | orient {a b : Ty} {v : TyVar} : e.deleted = false → e.left = .arrow a b → e.right = .var v →
      Ready e (some .orient)
  | delete : e.deleted = false → e.left = e.right → Ready e (some .delete)
  | decompose {a b c d : Ty} : e.deleted = false → e.left = .arrow a b → e.right = .arrow c d →
      Ready e (some (.decompose { left := a, right := c } { left := b, right := d }))
  | eliminate {v : TyVar} : e.deleted = false → e.used = false → e.left = .var v →
      e.left ≠ e.right → Ready e (some (.eliminate v))
  | used {v : TyVar} : e.used = true → e.left = .var v → Ready e none
  | deleted : e.deleted = true → Ready e none

theorem Equation.ready_rule? (e : Equation) : e.Ready e.rule? := by
  unfold rule?
  split
  · next hd => exact .deleted hd
  · next hd =>
    replace hd : e.deleted = false := by simpa using hd
    simp only [sidesEqual, beq_iff_eq]
    split
    · next hl hr => exact .orient hd hl hr
    · next hl hr =>
      split
      · next heq => exact .delete hd heq
      · exact .decompose hd hl hr
    · next hl =>
      split
      · next heq => exact .delete hd heq
      · next hne =>
        split
        · next hused => exact .used hused hl
        · next hused => exact .eliminate hd (by simpa using hused) hl hne

namespace Problem

/-- One rule applied to one equation in play, wherever it stands. -/
inductive Fires : Problem → Move → Prop
  | orient {before after : Problem} {e : Equation} {a b : Ty} {v : TyVar} :
      e.deleted = false → e.left = .arrow a b → e.right = .var v →
      Fires (before ++ e :: after) ⟨.orient e.swap, before ++ e.swap :: after⟩
  | delete {before after : Problem} {e : Equation} :
      e.deleted = false → e.left = e.right →
      Fires (before ++ e :: after) ⟨.delete e, before ++ { e with deleted := true } :: after⟩
  | decompose {before after : Problem} {e : Equation} {a b c d : Ty} :
      e.deleted = false → e.left = .arrow a b → e.right = .arrow c d →
      Fires (before ++ e :: after)
        ⟨.decompose e { left := a, right := c } { left := b, right := d },
          before ++ { e with deleted := true } :: after ++
            [{ left := a, right := c }, { left := b, right := d }]⟩
  | eliminate {before after : Problem} {e : Equation} {v : TyVar} :
      e.deleted = false → e.used = false → e.left = .var v → v ∉ e.right.leaves →
      Fires (before ++ e :: after)
        ⟨.eliminate v e.right, before.map (·.replace v e.right) ++ { e with used := true } ::
          after.map (·.replace v e.right)⟩

/-- The ways in which a step can end. -/
inductive Steps (p : Problem) : Except Failure (Option Move) → Prop
  | rest : (∀ e ∈ p, e.deleted = false → e.used = true ∧ ∃ v, e.left = .var v) →
      Steps p (.ok none)
  | move {m : Move} : Fires p m → Steps p (.ok (some m))
  | fail {e : Equation} {v : TyVar} : e ∈ p → e.deleted = false → e.left = .var v →
      e.left ≠ e.right → v ∈ e.right.leaves → Steps p (.error ⟨.infiniteType v e.right, p⟩)

theorem steps_step (p : Problem) : Steps p p.step := by
  unfold step
  split
  · next hnone =>
    refine .rest ?_
    intro e he hd
    have hready := e.ready_rule?
    rw [focus?_eq_none_iff.mp hnone e he] at hready
    cases hready with
    | used hused hl => exact ⟨hused, _, hl⟩
    | deleted h => cases hd.symm.trans h
  · next f hf =>
    obtain ⟨rfl, hrule, -⟩ := focus?_eq_some hf
    obtain ⟨before, e, rule, after⟩ := f
    have hready := e.ready_rule?
    rw [hrule] at hready
    cases hready with
    | orient hd hl hr => exact .move (.orient hd hl hr)
    | delete hd heq => exact .move (.delete hd heq)
    | decompose hd hl hr => exact .move (.decompose hd hl hr)
    | eliminate hd hused hl hne =>
      simp only [Focus.fire]
      split
      · next hoccurs => exact .fail (by simp) hd hl hne (Ty.occurs_iff.mp hoccurs)
      · next hoccurs =>
        exact .move (.eliminate hd hused hl fun hv => hoccurs (Ty.occurs_iff.mpr hv))

theorem fires_of_step {p : Problem} {m : Move} (h : p.step = .ok (some m)) : Fires p m := by
  have hsteps := p.steps_step
  rw [h] at hsteps
  cases hsteps with
  | move hfires => exact hfires

/-- A step that fails leaves the problem as it was. -/
theorem problem_of_step_error {p : Problem} {failure : Failure} (h : p.step = .error failure) :
    failure.problem = p := by
  have hsteps := p.steps_step
  rw [h] at hsteps
  cases hsteps with
  | fail => rfl

end Problem

end SimpleTypes
