import SimpleTypes.Proofs.Problem.Solution

/-!
# Used equations retire their variables

Eliminating a variable leaves it in one place: the left side of the equation
that was used. It stays there in every later state (`Fires.retired`), whatever
marks the problem started with, so no variable is eliminated twice in a run
(`solve_retires`).

In a problem that starts without used equations every used equation has come
about in this way. Such a problem is tidy, and a tidy problem without a rule
left is solved: for it the check at the end of a round always succeeds, and
`solve` fails only where nothing unifies the equations.
-/

namespace SimpleTypes

def Event.eliminated? : Event → Option TyVar
  | .eliminate v _ => some v
  | _ => none

theorem Event.eliminated?_eq_some_iff {event : Event} {v : TyVar} :
    event.eliminated? = some v ↔ ∃ ty, event = .eliminate v ty := by
  cases event <;> simp [eliminated?]

namespace Problem

variable {p q : Problem} {m : Move} {i k : Nat} {v : TyVar} {e e' : Equation}

/-- The equation at `i` has been used for `v`, and `v` is nowhere else. -/
structure Retired (p : Problem) (i : Nat) (v : TyVar) : Prop where
  used : ∃ e, p[i]? = some e ∧ e.deleted = false ∧ e.used = true ∧ e.left = .var v ∧
    v ∉ e.right.leaves
  elsewhere : ∀ j e, j ≠ i → p[j]? = some e → v ∉ e.leaves

theorem Retired.at (h : Retired p i v) (hi : p[i]? = some e) :
    e.deleted = false ∧ e.used = true ∧ e.left = .var v ∧ v ∉ e.right.leaves := by
  obtain ⟨e', he', hrest⟩ := h.used
  obtain rfl : e = e' := Option.some.inj (hi.symm.trans he')
  exact hrest

-- ---------------------------------------------------------------------------
-- One firing
-- ---------------------------------------------------------------------------

/-- The equation is rewritten to another one with no more variables, and unused
equations of these are added. With a variable on the left this happens only if
the variable is also on the right. -/
structure Rewrites (e e' : Equation) (added : Problem) : Prop where
  leaves_subset : e'.leaves ⊆ e.leaves
  added_subset : leaves added ⊆ e.leaves
  added_unused : ∀ a ∈ added, a.used = false
  used_eq : e'.deleted = false → e'.used = e.used
  occurs : ∀ v, e.left = .var v → v ∈ e.right.leaves

/-- A firing told by the place of its equation. -/
inductive FiresAt (p : Problem) (k : Nat) (e : Equation) : Problem → Prop
  | rewrite {e' : Equation} {added : Problem} : Rewrites e e' added →
      FiresAt p k e (p.set k e' ++ added)
  | eliminate {v : TyVar} : e.used = false → e.left = .var v → v ∉ e.right.leaves →
      FiresAt p k e ((p.map (·.replace v e.right)).set k { e with used := true })

theorem Fires.place (h : Fires p m) :
    ∃ k e, p[k]? = some e ∧ e.deleted = false ∧ FiresAt p k e m.next := by
  cases h with
  | @orient before after e a b w hd hl hr =>
    refine ⟨before.length, e, by simp, hd, ?_⟩
    have hrewrites : Rewrites e e.swap [] :=
      ⟨e.leaves_swap_subset, List.nil_subset _, by simp, fun _ => rfl, by simp [hl]⟩
    simpa using FiresAt.rewrite (p := before ++ e :: after) (k := before.length) hrewrites
  | @delete before after e hd heq =>
    refine ⟨before.length, e, by simp, hd, ?_⟩
    have hrewrites : Rewrites e { e with deleted := true } [] :=
      ⟨List.nil_subset _, List.nil_subset _, by simp, by simp, fun v hv => by
        simp [← heq, hv, Ty.leaves]⟩
    simpa using FiresAt.rewrite (p := before ++ e :: after) (k := before.length) hrewrites
  | @decompose before after e a b c d hd hl hr =>
    refine ⟨before.length, e, by simp, hd, ?_⟩
    have hrewrites : Rewrites e { e with deleted := true }
        [{ left := a, right := c }, { left := b, right := d }] :=
      ⟨List.nil_subset _, leaves_parts_subset hd hl hr, by simp, by simp, by simp [hl]⟩
    simpa using FiresAt.rewrite (p := before ++ e :: after) (k := before.length) hrewrites
  | @eliminate before after e v hd hused hl hoccurs =>
    refine ⟨before.length, e, by simp, hd, ?_⟩
    simpa using FiresAt.eliminate (p := before ++ e :: after) (k := before.length) hused hl hoccurs

theorem getElem?_set_append_cases {added : Problem} {j : Nat} {r : Equation}
    (h : (p.set k e' ++ added)[j]? = some r) :
    (j = k ∧ r = e') ∨ (j ≠ k ∧ p[j]? = some r) ∨ r ∈ added := by
  by_cases hj : j < p.length
  · rw [List.getElem?_append_left (by simpa using hj)] at h
    by_cases hjk : j = k
    · subst hjk
      rw [List.getElem?_set_self hj] at h
      cases h
      exact .inl ⟨rfl, rfl⟩
    · rw [List.getElem?_set_ne (Ne.symm hjk)] at h
      exact .inr (.inl ⟨hjk, h⟩)
  · rw [List.getElem?_append_right (by simpa using hj)] at h
    exact .inr (.inr (List.mem_of_getElem? h))

theorem Retired.set {added : Problem} (h : Retired p i v) (hk : p[k]? = some e) (hki : k ≠ i)
    (hsub : e'.leaves ⊆ e.leaves) (hadded : leaves added ⊆ e.leaves) :
    Retired (p.set k e' ++ added) i v := by
  have hv : v ∉ e.leaves := h.elsewhere k e hki hk
  constructor
  · obtain ⟨r, hr, hrest⟩ := h.used
    refine ⟨r, ?_, hrest⟩
    rw [List.getElem?_append_left, List.getElem?_set_ne hki, hr]
    simpa using (List.getElem?_eq_some_iff.mp hr).1
  · intro j r hji hr hmem
    rcases getElem?_set_append_cases hr with ⟨-, rfl⟩ | ⟨-, hr⟩ | hr
    · exact hv (hsub hmem)
    · exact h.elsewhere j r hji hr hmem
    · exact hv (hadded (mem_leaves.mpr ⟨r, hr, hmem⟩))

theorem Retired.eliminate {w : TyVar} (h : Retired p i v) (hk : p[k]? = some e) (hki : k ≠ i)
    (hd : e.deleted = false) (hl : e.left = .var w) :
    Retired ((p.map (·.replace w e.right)).set k { e with used := true }) i v := by
  have hv : v ∉ e.leaves := h.elsewhere k e hki hk
  rw [Equation.mem_leaves hd, hl, not_or] at hv
  have hvw : v ≠ w := by simpa [Ty.leaves] using hv.1
  constructor
  · obtain ⟨r, hr, hrd, hused, hrl, hright⟩ := h.used
    refine ⟨r.replace w e.right, ?_, by simpa using hrd, by simpa using hused, ?_, ?_⟩
    · rw [List.getElem?_set_ne hki, List.getElem?_map, hr]
      rfl
    · simp [Equation.left_replace hrd, hrl, Ty.replace, Ty.instantiate, Ty.single, hvw]
    · rw [Equation.right_replace hrd]
      intro hmem
      rcases Ty.mem_leaves_replace hmem with hmem | hmem
      · exact hright hmem.2
      · exact hv.2 hmem
  · intro j r hji hr hmem
    by_cases hjk : k = j
    · subst hjk
      rw [List.getElem?_set_self (by simpa using (List.getElem?_eq_some_iff.mp hk).1)] at hr
      cases hr
      exact h.elsewhere k e hki hk hmem
    · rw [List.getElem?_set_ne hjk, List.getElem?_map, Option.map_eq_some_iff] at hr
      obtain ⟨s, hs, rfl⟩ := hr
      rcases Equation.mem_leaves_replace hmem with hmem | hmem
      · exact h.elsewhere j s hji hs hmem.2
      · exact hv.2 hmem

theorem retired_of_eliminate (hk : p[k]? = some e) (hd : e.deleted = false) (hl : e.left = .var v)
    (hoccurs : v ∉ e.right.leaves) :
    Retired ((p.map (·.replace v e.right)).set k { e with used := true }) k v := by
  constructor
  · refine ⟨{ e with used := true }, ?_, hd, rfl, hl, hoccurs⟩
    exact List.getElem?_set_self (by simpa using (List.getElem?_eq_some_iff.mp hk).1)
  · intro j r hjk hr hmem
    rw [List.getElem?_set_ne (Ne.symm hjk), List.getElem?_map, Option.map_eq_some_iff] at hr
    obtain ⟨s, -, rfl⟩ := hr
    rcases Equation.mem_leaves_replace hmem with hmem | hmem
    · exact hmem.1 rfl
    · exact hoccurs hmem

theorem Fires.retired (h : Fires p m) (hr : Retired p i v) : Retired m.next i v := by
  obtain ⟨k, e, hk, hd, hfires⟩ := h.place
  generalize m.next = next at hfires ⊢
  -- No rule applies to the equation that has retired `v`, so another one fires.
  cases hfires with
  | rewrite hrewrites =>
    have hki : k ≠ i := by
      rintro rfl
      obtain ⟨-, -, hl, hfresh⟩ := hr.at hk
      exact hfresh (hrewrites.occurs v hl)
    exact hr.set hk hki hrewrites.leaves_subset hrewrites.added_subset
  | eliminate hused hl hoccurs =>
    have hki : k ≠ i := by
      rintro rfl
      obtain ⟨-, hu, -⟩ := hr.at hk
      cases hused.symm.trans hu
    exact hr.eliminate hk hki hd hl

-- ---------------------------------------------------------------------------
-- Eliminations of a run
-- ---------------------------------------------------------------------------

theorem Reaches.retired (h : Reaches p q) (hr : Retired p i v) : Retired q i v :=
  h.invariant Fires.retired hr

/-- The first equation that is ready for a rule stands at `i`, and the second
problem is what is left when it has eliminated `v`. -/
def Eliminates (i : Nat) (v : TyVar) (p q : Problem) : Prop :=
  ∃ f ty, p.focus? = some f ∧ f.before.length = i ∧ f.fire = .ok ⟨.eliminate v ty, q⟩

theorem exists_eliminates (h : p.step = .ok (some m)) (hv : m.event.eliminated? = some v) :
    ∃ i, Eliminates i v p m.next := by
  obtain ⟨event, next⟩ := m
  obtain ⟨ty, rfl⟩ := Event.eliminated?_eq_some_iff.mp hv
  unfold step at h
  split at h
  · cases h
  · next f hf =>
    cases hfire : f.fire with
    | error failure => simp [hfire, Except.map] at h
    | ok move =>
      obtain rfl : move = ⟨.eliminate v ty, next⟩ := by simpa [hfire, Except.map] using h
      exact ⟨f.before.length, f, ty, hf, rfl, hfire⟩

namespace Eliminates

theorem step (h : Eliminates i v p q) : ∃ event, p.step = .ok (some ⟨event, q⟩) := by
  obtain ⟨f, ty, hf, -, hfire⟩ := h
  exact ⟨.eliminate v ty, by simp [Problem.step, hf, hfire, Except.map]⟩

theorem place (h : Eliminates i v p q) :
    ∃ e, p[i]? = some e ∧ e.deleted = false ∧ e.used = false ∧ e.left = .var v ∧
      v ∉ e.right.leaves ∧ q = (p.map (·.replace v e.right)).set i { e with used := true } := by
  obtain ⟨⟨before, e, rule, after⟩, ty, hf, rfl, hfire⟩ := h
  obtain ⟨rfl, hrule, -⟩ := focus?_eq_some hf
  have hready := e.ready_rule?
  rw [hrule] at hready
  cases hready with
  | orient => cases hfire
  | delete => cases hfire
  | decompose => cases hfire
  | eliminate hd hused hl hne =>
    simp only [Focus.fire] at hfire
    split at hfire
    · cases hfire
    · next hoccurs =>
      cases hfire
      exact ⟨e, by simp, hd, hused, hl, fun hv => hoccurs (Ty.occurs_iff.mpr hv), by simp⟩

theorem retired (h : Eliminates i v p q) : Retired q i v := by
  obtain ⟨e, he, hd, -, hl, hoccurs, rfl⟩ := h.place
  exact retired_of_eliminate he hd hl hoccurs

end Eliminates

theorem Retired.not_eliminates (h : Retired p i v) (j : Nat) : ¬ Eliminates j v p q := by
  intro heliminates
  obtain ⟨e, he, hd, hunused, hl, -⟩ := heliminates.place
  by_cases hji : j = i
  · subst hji
    obtain ⟨-, hused, -⟩ := h.at he
    cases hunused.symm.trans hused
  · exact h.elsewhere j e hji he ((Equation.mem_leaves hd).mpr (.inl (by simp [hl, Ty.leaves])))

theorem Retired.eliminated?_ne (h : Retired p i v) {event : Event} (he : event ∈ p.exhaust.events) :
    event.eliminated? ≠ some v := by
  fun_induction exhaust p with
  | case1 p error hstep => cases he
  | case2 p hstep => cases he
  | case3 p move hstep rest ih =>
    rcases List.mem_cons.mp he with rfl | he
    · intro heq
      obtain ⟨j, hj⟩ := exists_eliminates hstep heq
      exact h.not_eliminates j hj
    · exact ih ((fires_of_step hstep).retired h) he

theorem nodup_eliminated_exhaust (p : Problem) :
    (p.exhaust.events.filterMap Event.eliminated?).Nodup := by
  fun_induction exhaust p with
  | case1 p error hstep => exact List.nodup_nil
  | case2 p hstep => exact List.nodup_nil
  | case3 p move hstep rest ih =>
    cases hv : move.event.eliminated? with
    | none => rwa [List.filterMap_cons_none hv]
    | some v =>
      -- What this step eliminates is retired for all events after it.
      rw [List.filterMap_cons_some hv, List.nodup_cons]
      refine ⟨?_, ih⟩
      obtain ⟨i, hi⟩ := exists_eliminates hstep hv
      intro hmem
      obtain ⟨event, he, heq⟩ := List.mem_filterMap.mp hmem
      exact hi.retired.eliminated?_ne he heq

theorem nodup_eliminated_solve (p : Problem) :
    (p.solve.events.filterMap Event.eliminated?).Nodup := by
  have hrun := p.nodup_eliminated_exhaust
  obtain ⟨error, -, hsolve⟩ | ⟨-, -, hsolve⟩ | ⟨e, -, -, hsolve⟩ := p.solve_cases
  · rwa [hsolve]
  · rwa [hsolve]
  · rw [hsolve]
    split
    · exact List.nodup_nil
    · have hrescan : [Event.rescan e].filterMap Event.eliminated? = [] := rfl
      simpa [hrescan] using hrun

/-- Elimination is for good. From the step on in which the equation at `i`
eliminates `v`, to the list that `solve` leaves, that equation is in play and
used, has `v` on the left, and is the only place of `v`; so no variable is
eliminated twice. -/
theorem solve_retires (p : Problem) :
    (∀ q r i v, Reaches p q → Eliminates i v q r →
      Reaches p r ∧ Retired p.solve.problem i v ∧
        ∀ s, Reaches r s → Retired s i v ∧ ∀ j t, ¬ Eliminates j v s t) ∧
    (p.solve.events.filterMap Event.eliminated?).Nodup := by
  refine ⟨?_, p.nodup_eliminated_solve⟩
  intro q r i v hq heliminates
  have hr : Reaches p r := hq.tail heliminates.step
  refine ⟨hr, hr.reaches_solve.retired heliminates.retired, ?_⟩
  intro s hs
  have hretired : Retired s i v := hs.retired heliminates.retired
  exact ⟨hretired, fun j t => hretired.not_eliminates j⟩

/-- The first equation eliminates a variable that a used equation also has on
the left, and is rewritten itself afterwards. -/
theorem solve_retires_rewritten :
    let p : Problem := [{ left := .var 1, right := .arrow (.var 2) (.var 3) },
      { left := .var 2, right := .var 4 },
      { left := .var 1, right := .var 5, used := true }]
    let r : Problem := [{ left := .var 1, right := .arrow (.var 2) (.var 3), used := true },
      { left := .var 2, right := .var 4 },
      { left := .arrow (.var 2) (.var 3), right := .var 5, used := true }]
    Eliminates 0 1 p r ∧ Retired p.solve.problem 0 1 ∧
      p.solve.problem[0]? =
        some { left := .var 1, right := .arrow (.var 4) (.var 3), used := true } := by
  intro p r
  have heliminates : Eliminates 0 1 p r := ⟨_, _, rfl, rfl, rfl⟩
  obtain ⟨-, hretired, -⟩ := (solve_retires p).1 p r 0 1 .refl heliminates
  exact ⟨heliminates, hretired, by cbv⟩

-- ---------------------------------------------------------------------------
-- Tidy problems
-- ---------------------------------------------------------------------------

/-- Every used equation in play has retired its variable. -/
def Tidy (p : Problem) : Prop :=
  ∀ i e, p[i]? = some e → e.deleted = false → e.used = true → ∃ v, Retired p i v

theorem tidy_of_unused (h : ∀ e ∈ p, e.deleted = false → e.used = false) : Tidy p := by
  intro i e he hd hused
  have hunused := h e (List.mem_of_getElem? he) hd
  cases hunused.symm.trans hused

theorem Fires.used_cases (h : Fires p m) {r : Equation} (hr : m.next[i]? = some r)
    (hd : r.deleted = false) (hused : r.used = true) :
    (∃ e, p[i]? = some e ∧ e.deleted = false ∧ e.used = true) ∨ ∃ v, Retired m.next i v := by
  -- Only elimination sets the mark, and it retires the variable at once.
  obtain ⟨k, e, hk, hed, hfires⟩ := h.place
  generalize m.next = next at hfires hr ⊢
  cases hfires with
  | rewrite hrewrites =>
    refine .inl ?_
    rcases getElem?_set_append_cases hr with ⟨rfl, rfl⟩ | ⟨-, hr⟩ | hr
    · exact ⟨e, hk, hed, (hrewrites.used_eq hd).symm.trans hused⟩
    · exact ⟨r, hr, hd, hused⟩
    · cases (hrewrites.added_unused r hr).symm.trans hused
  | @eliminate v _ hl hoccurs =>
    by_cases hik : i = k
    · subst hik
      exact .inr ⟨v, retired_of_eliminate hk hed hl hoccurs⟩
    · rw [List.getElem?_set_ne (Ne.symm hik), List.getElem?_map, Option.map_eq_some_iff] at hr
      obtain ⟨s, hs, rfl⟩ := hr
      exact .inl ⟨s, hs, by simpa using hd, by simpa using hused⟩

theorem Fires.tidy (h : Fires p m) (hp : Tidy p) : Tidy m.next := by
  intro i r hr hd hused
  rcases h.used_cases hr hd hused with ⟨e, he, hed, heused⟩ | hretired
  · obtain ⟨v, hv⟩ := hp i e he hed heused
    exact ⟨v, h.retired hv⟩
  · exact hretired

theorem Reaches.tidy (h : Reaches p q) (hp : Tidy p) : Tidy q := h.invariant Fires.tidy hp

theorem Tidy.solvedForm (h : Tidy p) (hstep : p.step = .ok none) : p.SolvedForm := by
  -- Where no rule is left every equation in play is used, so each has retired its variable.
  have hrest : ∀ e ∈ p, e.deleted = false → e.used = true ∧ ∃ v, e.left = .var v := by
    have hsteps := p.steps_step
    rw [hstep] at hsteps
    cases hsteps with
    | rest hrest => exact hrest
  have hretired {i : Nat} {e : Equation} (he : p[i]? = some e) (hd : e.deleted = false) :
      ∃ v, Retired p i v :=
    h i e he hd (hrest e (List.mem_of_getElem? he) hd).1
  refine ⟨?_, ?_, ?_⟩
  · intro e he
    obtain ⟨hmem, hd⟩ := mem_active.mp he
    exact (hrest e hmem hd).2
  · rw [List.Nodup, List.pairwise_map, active, List.pairwise_filter, List.pairwise_iff_getElem]
    intro i j hi hj hij hdi hdj heq
    obtain ⟨v, hv⟩ := hretired (List.getElem?_eq_getElem hi) (by simpa using hdi)
    have hleft := (hv.at (List.getElem?_eq_getElem hi)).2.2.1
    refine hv.elsewhere j _ (Nat.ne_of_gt hij) (List.getElem?_eq_getElem hj) ?_
    rw [Equation.mem_leaves (by simpa using hdj), ← heq, hleft]
    simp [Ty.leaves]
  · intro e he e' he' v hv hmem
    obtain ⟨hep, hd⟩ := mem_active.mp he
    obtain ⟨hep', hd'⟩ := mem_active.mp he'
    obtain ⟨i, hi⟩ := List.getElem?_of_mem hep
    obtain ⟨j, hj⟩ := List.getElem?_of_mem hep'
    obtain ⟨w, hw⟩ := hretired hi hd
    have hleft := (hw.at hi).2.2.1
    obtain rfl : v = w := by simpa [hv] using hleft
    by_cases hji : j = i
    · subst hji
      exact (hw.at hj).2.2.2 hmem
    · exact hw.elsewhere j e' hji hj ((Equation.mem_leaves hd').mpr (.inr hmem))

-- ---------------------------------------------------------------------------
-- Problems without used equations
-- ---------------------------------------------------------------------------

theorem infiniteType_of_exhaust {error : TypeError} (h : p.exhaust.error? = some error) :
    ∃ v ty, error = .infiniteType v ty := by
  have hsteps := p.exhaust.problem.steps_step
  rw [step_exhaust_of_some h] at hsteps
  cases hsteps with
  | fail => exact ⟨_, _, rfl⟩

section

variable (h : ∀ e ∈ p, e.deleted = false → e.used = false)
include h

theorem solvedForm_exhaust (herror : p.exhaust.error? = none) : p.exhaust.problem.SolvedForm :=
  ((reaches_exhaust p).tidy (tidy_of_unused h)).solvedForm (step_exhaust_of_none herror)

theorem firstUnsolved?_exhaust (herror : p.exhaust.error? = none) :
    p.exhaust.problem.firstUnsolved? = none :=
  firstUnsolved?_eq_none_iff.mpr (solvedForm_exhaust h herror)

theorem solve_cases_of_unused :
    (∃ v ty, p.exhaust.error? = some (.infiniteType v ty) ∧
      p.solve = ⟨p.exhaust.events, p.exhaust.problem, .error (.infiniteType v ty)⟩) ∨
    (p.exhaust.error? = none ∧ p.solve = ⟨p.exhaust.events, p.exhaust.problem,
      .ok (Substitution.ofEquations p.exhaust.problem)⟩) := by
  obtain ⟨error, herror, hsolve⟩ | ⟨herror, -, hsolve⟩ | ⟨e, herror, hs, -⟩ := p.solve_cases
  · obtain ⟨v, ty, rfl⟩ := infiniteType_of_exhaust herror
    exact .inl ⟨v, ty, herror, hsolve⟩
  · exact .inr ⟨herror, hsolve⟩
  · cases (firstUnsolved?_exhaust h herror).symm.trans hs

theorem solve_eq_ok_of_unifies {θ : TyVar → Ty} (hθ : Unifies θ p) :
    ∃ σ, p.solve.result = .ok σ := by
  obtain ⟨v, ty, -, hsolve⟩ | ⟨-, hsolve⟩ := solve_cases_of_unused h
  · exact absurd hθ (not_unifies_of_infiniteType (congrArg Solution.result hsolve))
  · exact ⟨_, congrArg Solution.result hsolve⟩

theorem round_of_unused (again : Problem → Solution) : p.solve = round again p := by
  obtain ⟨v, ty, herror, hsolve⟩ | ⟨herror, hsolve⟩ := solve_cases_of_unused h
  · simp [round, hsolve, herror]
  · simp [round, hsolve, herror, firstUnsolved?_exhaust h herror]

theorem events_of_unused : p.solve.events = p.exhaust.events := by
  obtain ⟨v, ty, -, hsolve⟩ | ⟨-, hsolve⟩ := solve_cases_of_unused h <;> rw [hsolve]

theorem infiniteType_of_unused {error : TypeError} (herror : p.solve.result = .error error) :
    ∃ v ty, error = .infiniteType v ty := by
  obtain ⟨v, ty, -, hsolve⟩ | ⟨-, hsolve⟩ := solve_cases_of_unused h
  · cases (congrArg Solution.result hsolve).symm.trans herror
    exact ⟨v, ty, rfl⟩
  · cases (congrArg Solution.result hsolve).symm.trans herror

end

end Problem

end SimpleTypes
