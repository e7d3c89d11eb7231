import Mathlib.Data.List.Permutation
import SimpleTypes.Proofs.Problem.Unifier

/-!
# The history of a run

The list of a problem is a record of its run. A firing leaves every equation at
its place and touches none that is deleted (`Fires.grows`); what it adds are the
parts of an equation that it deletes. So the states of a run extend each other
(`extends_of_reaches`), and for every later place there is one step in which its
equation entered (`Reaches.enters`).

A run goes on from each of its states to the same end. Where it ends, no rule
applies or the occurs check fails, and both are found again by a second run.
-/

namespace SimpleTypes

-- ---------------------------------------------------------------------------
-- One equation
-- ---------------------------------------------------------------------------

namespace Equation

/-- The equations between the parts of two arrows; there are none for other
sides. -/
def parts (e : Equation) : List Equation :=
  match e.left, e.right with
  | .arrow a b, .arrow c d => [{ left := a, right := c }, { left := b, right := d }]
  | _, _ => []

/-- What a run may make of an equation: it changes only while it is in play, and
it stays used once it is. -/
structure Becomes (e e' : Equation) : Prop where
  deleted : e.deleted = true → e' = e
  used : e.used = true → e'.used = true

theorem Becomes.refl (e : Equation) : e.Becomes e := ⟨fun _ => rfl, id⟩

theorem Becomes.trans {e e' e'' : Equation} (h : e.Becomes e') (h' : e'.Becomes e'') :
    e.Becomes e'' := by
  refine ⟨?_, fun hused => h'.used (h.used hused)⟩
  intro hd
  obtain rfl := h.deleted hd
  exact h'.deleted hd

theorem Becomes.of_active {e e' : Equation} (hd : e.deleted = false)
    (hused : e.used = true → e'.used = true) : e.Becomes e' :=
  ⟨fun hd' => (nomatch hd.symm.trans hd'), hused⟩

theorem becomes_replace (e : Equation) (v : TyVar) (ty : Ty) : e.Becomes (e.replace v ty) := by
  refine ⟨?_, fun hused => by simpa using hused⟩
  intro hd
  simp [replace, hd]

end Equation

namespace Problem

variable {p q r : Problem} {m : Move} {i : Nat}

-- ---------------------------------------------------------------------------
-- One firing
-- ---------------------------------------------------------------------------

/-- What a firing makes of a problem. The equations stay where they are, and it
adds none or the parts of one that it deletes. -/
inductive Grows (p : Problem) : Problem → Prop
  | keep {kept : Problem} : List.Forall₂ Equation.Becomes p kept → Grows p kept
  | split {kept : Problem} {k : Nat} {e : Equation} : List.Forall₂ Equation.Becomes p kept →
      p[k]? = some e → e.deleted = false → kept[k]? = some { e with deleted := true } →
      Grows p (kept ++ e.parts)

theorem forall₂_becomes {e e' : Equation} {g : Equation → Equation}
    (hg : ∀ r : Equation, r.Becomes (g r)) (he : e.Becomes e') (before after : Problem) :
    List.Forall₂ Equation.Becomes (before ++ e :: after)
      (before.map g ++ e' :: after.map g) := by
  have hmap (l : Problem) : List.Forall₂ Equation.Becomes l (l.map g) :=
    List.forall₂_map_right_iff.mpr (List.forall₂_same.mpr fun r _ => hg r)
  exact List.rel_append (hmap before) (.cons he (hmap after))

theorem forall₂_becomes_of_active {e e' : Equation} (hd : e.deleted = false)
    (hused : e'.used = e.used) (before after : Problem) :
    List.Forall₂ Equation.Becomes (before ++ e :: after) (before ++ e' :: after) := by
  have he : e.Becomes e' := .of_active hd fun h => hused.trans h
  simpa using forall₂_becomes Equation.Becomes.refl he before after

theorem Fires.grows (h : Fires p m) : Grows p m.next := by
  cases h with
  | orient hd hl hr => exact .keep (forall₂_becomes_of_active hd (by rfl) _ _)
  | delete hd heq => exact .keep (forall₂_becomes_of_active hd (by rfl) _ _)
  | @decompose before after e a b c d hd hl hr =>
    have hparts : e.parts = [{ left := a, right := c }, { left := b, right := d }] := by
      simp [Equation.parts, hl, hr]
    have hkept : List.Forall₂ Equation.Becomes (before ++ e :: after)
        (before ++ { e with deleted := true } :: after) :=
      forall₂_becomes_of_active hd (by rfl) before after
    rw [← hparts]
    exact .split (k := before.length) hkept (by simp) hd (by simp)
  | @eliminate before after e v hd hused hl hoccurs =>
    refine .keep (forall₂_becomes (fun r => r.becomes_replace v e.right) ?_ before after)
    exact .of_active hd fun _ => rfl

-- ---------------------------------------------------------------------------
-- Places of a run
-- ---------------------------------------------------------------------------

/-- At every place of the first problem the second has what a run may make of
the equation there. -/
def Extends (p q : Problem) : Prop :=
  ∀ (i : Nat) (e : Equation), p[i]? = some e → ∃ e', q[i]? = some e' ∧ e.Becomes e'

theorem Extends.refl (p : Problem) : Extends p p := fun _ e he => ⟨e, he, .refl e⟩

theorem Extends.trans (h : Extends p q) (h' : Extends q r) : Extends p r := by
  intro i e he
  obtain ⟨e', he', hbecomes⟩ := h i e he
  obtain ⟨e'', he'', hbecomes'⟩ := h' i e' he'
  exact ⟨e'', he'', hbecomes.trans hbecomes'⟩

theorem Extends.length_le (h : Extends p q) : p.length ≤ q.length := by
  by_contra hlt
  obtain ⟨e', he', -⟩ := h q.length _ (List.getElem?_eq_getElem (Nat.lt_of_not_le hlt))
  simp at he'

theorem extends_append {kept : Problem} (h : List.Forall₂ Equation.Becomes p kept)
    (added : Problem) : Extends p (kept ++ added) := by
  intro i e he
  obtain ⟨hi, rfl⟩ := List.getElem?_eq_some_iff.mp he
  have hk : i < kept.length := h.length_eq ▸ hi
  refine ⟨kept[i], ?_, h.get hi hk⟩
  rw [List.getElem?_append_left hk, List.getElem?_eq_getElem hk]

theorem extends_of_fires (h : Fires p m) : Extends p m.next := by
  have hgrows := h.grows
  generalize m.next = next at hgrows ⊢
  cases hgrows with
  | keep hkept => simpa using extends_append hkept []
  | @split kept k e hkept => exact extends_append hkept e.parts

theorem extends_of_reaches (h : Reaches p q) : Extends p q :=
  h.invariant (P := Extends p) (fun hf ih => ih.trans (extends_of_fires hf)) (.refl p)

/-- The step from the first problem to the second deletes an equation between
arrows and puts one of its parts at the place `i`, which is new. -/
def Enters (i : Nat) (p q : Problem) : Prop :=
  ∃ (k : Nat) (e part : Equation), p[k]? = some e ∧ e.deleted = false ∧
    q[k]? = some { e with deleted := true } ∧ part ∈ e.parts ∧ p[i]? = none ∧ q[i]? = some part

theorem Fires.enters (h : Fires p m) (hi : p.length ≤ i) (hlt : i < m.next.length) :
    Enters i p m.next := by
  have hgrows := h.grows
  generalize m.next = next at hgrows hlt ⊢
  cases hgrows with
  | keep hkept => exact absurd (hkept.length_eq ▸ hlt) (Nat.not_lt_of_le hi)
  | @split kept k e hkept hk hd hdeleted =>
    have hlength : kept.length ≤ i := hkept.length_eq ▸ hi
    have hat : (kept ++ e.parts)[i]? = some (kept ++ e.parts)[i] := List.getElem?_eq_getElem hlt
    refine ⟨k, e, (kept ++ e.parts)[i], hk, hd, ?_, ?_, List.getElem?_eq_none hi, hat⟩
    · rw [List.getElem?_append_left (List.getElem?_eq_some_iff.mp hdeleted).1, hdeleted]
    · rw [List.getElem?_append_right hlength] at hat
      exact List.mem_of_getElem? hat

theorem Reaches.enters (h : Reaches p q) (hi : p.length ≤ i) (hlt : i < q.length) :
    ∃ s t, Reaches p s ∧ (∃ event, s.step = .ok (some ⟨event, t⟩)) ∧ Reaches t q ∧
      Enters i s t := by
  -- The step in question is the first after which the list is longer than `i`.
  induction h with
  | refl => exact absurd hlt (Nat.not_lt_of_le hi)
  | @tail s t hs hstep ih =>
    by_cases hlong : i < s.length
    · obtain ⟨s', t', hs', hstep', ht', henters⟩ := ih hlong
      exact ⟨s', t', hs', hstep', ht'.tail hstep, henters⟩
    · refine ⟨s, t, hs, hstep, .refl, ?_⟩
      obtain ⟨event, hstep⟩ := hstep
      exact (fires_of_step hstep).enters (Nat.le_of_not_lt hlong) hlt

/-- The list of a problem is a record. Of two states of one run the later is at
least as long as the earlier, has its deleted equations unchanged at their
places, and keeps its marks of use; and every further equation is one of the
parts of an equation between arrows that was deleted when it entered. The run
ends with the list that `solve` leaves. -/
theorem solve_history (p : Problem) :
    (∀ q, Reaches p q → Reaches q p.solve.problem) ∧
    ∀ q r, Reaches p q → Reaches q r →
      q.length ≤ r.length ∧
      (∀ (i : Nat) (e : Equation), q[i]? = some e → e.deleted = true → r[i]? = some e) ∧
      (∀ (i : Nat) (e : Equation), q[i]? = some e → e.used = true →
        ∃ e', r[i]? = some e' ∧ e'.used = true) ∧
      ∀ i, q.length ≤ i → i < r.length →
        ∃ s t, Reaches q s ∧ (∃ event, s.step = .ok (some ⟨event, t⟩)) ∧ Reaches t r ∧
          Enters i s t := by
  refine ⟨fun q h => h.reaches_solve, ?_⟩
  intro q r _ h
  have hextends := extends_of_reaches h
  refine ⟨hextends.length_le, ?_, ?_, fun i => h.enters⟩
  · intro i e he hd
    obtain ⟨e', he', hbecomes⟩ := hextends i e he
    rwa [hbecomes.deleted hd] at he'
  · intro i e he hused
    obtain ⟨e', he', hbecomes⟩ := hextends i e he
    exact ⟨e', he', hbecomes.used hused⟩

/-- An equation between arrows, and a deleted one that is used. The first is
deleted, and its parts stand behind the second. -/
theorem solve_history_split :
    let p : Problem :=
      [{ left := .arrow (.var 1) (.var 2), right := .arrow (.var 3) (.var 1) },
        { left := .var 1, right := .arrow (.var 1) (.var 1), used := true, deleted := true }]
    Reaches p p.solve.problem ∧
      p.solve.problem[1]? =
        some { left := .var 1, right := .arrow (.var 1) (.var 1), used := true, deleted := true } ∧
      p.solve.problem.length = 4 ∧
        ∃ s t, Reaches p s ∧ Reaches t p.solve.problem ∧ Enters 3 s t := by
  intro p
  have hrun := (solve_history p).1 p .refl
  have hlength : p.solve.problem.length = 4 := by cbv
  obtain ⟨-, hdeleted, -, hentered⟩ := (solve_history p).2 p p.solve.problem .refl hrun
  obtain ⟨s, t, hs, -, ht, henters⟩ := hentered 3 (by decide) (by rw [hlength]; decide)
  exact ⟨hrun, hdeleted 1 _ rfl rfl, hlength, s, t, hs, ht, henters⟩

-- ---------------------------------------------------------------------------
-- Solving again
-- ---------------------------------------------------------------------------

theorem conclude_again (run : Exhausted) :
    Exhausted.conclude ⟨[], run.problem, run.error?⟩ = ⟨[], run.problem, run.conclude.result⟩ := by
  unfold Exhausted.conclude
  cases run.error? with
  | some error => rfl
  | none => cases run.problem.firstUnsolved? <;> rfl

theorem Reaches.solve_of_error {failure : Failure} (h : Reaches p q)
    (hstep : q.step = .error failure) :
    p.solve.problem = q ∧ p.solve.result = .error failure.error := by
  obtain ⟨hproblem, herror⟩ := h.exhaust_eq
  rw [exhaust_of_error hstep] at hproblem herror
  refine ⟨(solve_problem p).trans hproblem, ?_⟩
  rw [solve_eq_conclude, Exhausted.conclude, herror]

/-- Solving what was left makes no step and gives the same answer. A run that
fails leaves the problem as it was when the step that fails was tried. -/
theorem solve_solve (p : Problem) :
    p.solve.problem.solve = ⟨[], p.solve.problem, p.solve.result⟩ ∧
      ∀ q failure, Reaches p q → q.step = .error failure →
        failure.problem = q ∧ p.solve.problem = q ∧ p.solve.result = .error failure.error := by
  refine ⟨?_, fun q failure h hstep => ⟨problem_of_step_error hstep, h.solve_of_error hstep⟩⟩
  calc p.solve.problem.solve
      = p.exhaust.problem.exhaust.conclude := by rw [solve_problem, solve_eq_conclude]
    _ = Exhausted.conclude ⟨[], p.exhaust.problem, p.exhaust.error?⟩ := by rw [exhaust_exhaust]
    _ = ⟨[], p.exhaust.problem, p.exhaust.conclude.result⟩ := conclude_again p.exhaust
    _ = ⟨[], p.solve.problem, p.solve.result⟩ := by rw [solve_problem, solve_eq_conclude]

/-- After the first step the occurs check fails, and the list stays as that step
left it. -/
theorem solve_solve_failed :
    let p : Problem := [{ left := .var 1, right := .var 2 },
      { left := .var 2, right := .arrow (.var 1) (.var 3) }]
    let q : Problem := [{ left := .var 1, right := .var 2, used := true },
      { left := .var 2, right := .arrow (.var 2) (.var 3) }]
    p.solve.problem = q ∧ q.solve.problem = q ∧
      q.solve.result = .error (.infiniteType 2 (.arrow (.var 2) (.var 3))) := by
  intro p q
  have hstep : p.step = .ok (some ⟨.eliminate 1 (.var 2), q⟩) := by rfl
  obtain ⟨-, hproblem, hresult⟩ := (solve_solve p).2 q
    ⟨.infiniteType 2 (.arrow (.var 2) (.var 3)), q⟩ (.single ⟨_, hstep⟩) rfl
  have hagain := (solve_solve p).1
  rw [hproblem, hresult] at hagain
  exact ⟨hproblem, congrArg Solution.problem hagain, congrArg Solution.result hagain⟩

end Problem

end SimpleTypes
