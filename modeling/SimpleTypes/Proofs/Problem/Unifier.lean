import SimpleTypes.Proofs.Problem.Run

/-!
# Steps keep the unifiers

A step changes neither the maps that unify the equations in play
(`Fires.unifies_iff`) nor brings in a variable that they did not have
(`Fires.leaves_subset`), whatever the marks of the other equations are. So the
same holds of every run, and a run that ends at an infinite type started with
equations that nothing unifies.
-/

namespace SimpleTypes

variable {θ : TyVar → Ty} {v w : TyVar} {ty : Ty}

-- ---------------------------------------------------------------------------
-- Types under a map
-- ---------------------------------------------------------------------------

namespace Ty

theorem instantiate_replace (h : θ v = ty.instantiate θ) (t : Ty) :
    (t.replace v ty).instantiate θ = t.instantiate θ := by
  unfold replace
  rw [instantiate_instantiate]
  refine instantiate_congr ?_
  intro w hw
  by_cases hwv : w = v
  · simp [single, hwv, h]
  · simp [single, hwv, instantiate]

theorem size_le_of_mem (h : v ∈ ty.leaves) : (θ v).size ≤ (ty.instantiate θ).size := by
  induction ty with
  | var w =>
    obtain rfl : v = w := by simpa [leaves] using h
    exact Nat.le_refl _
  | arrow a b iha ihb =>
    rcases List.mem_append.mp h with h | h
    · have := iha h
      simp only [instantiate, size]
      omega
    · have := ihb h
      simp only [instantiate, size]
      omega

theorem ne_instantiate_of_mem (hne : Ty.var v ≠ ty) (h : v ∈ ty.leaves) :
    θ v ≠ ty.instantiate θ := by
  intro heq
  cases ty with
  | var w =>
    obtain rfl : v = w := by simpa [leaves] using h
    exact hne rfl
  | arrow a b =>
    -- An arrow is larger than what any of its variables stands for.
    have hsize : (θ v).size < ((a.arrow b).instantiate θ).size := by
      rcases List.mem_append.mp h with h | h
      · have := size_le_of_mem (θ := θ) h
        simp only [instantiate, size]
        omega
      · have := size_le_of_mem (θ := θ) h
        simp only [instantiate, size]
        omega
    rw [heq] at hsize
    exact Nat.lt_irrefl _ hsize

end Ty

-- ---------------------------------------------------------------------------
-- Equations in play
-- ---------------------------------------------------------------------------

namespace Equation

/-- The variables of both sides, if the equation is in play. -/
def leaves (e : Equation) : List TyVar :=
  if e.deleted then [] else e.left.leaves ++ e.right.leaves

@[simp] theorem leaves_of_deleted {e : Equation} (h : e.deleted = true) : e.leaves = [] := by
  simp [leaves, h]

theorem mem_leaves {e : Equation} (h : e.deleted = false) :
    v ∈ e.leaves ↔ v ∈ e.left.leaves ∨ v ∈ e.right.leaves := by
  simp [leaves, h]

theorem leaves_swap_subset (e : Equation) : e.swap.leaves ⊆ e.leaves := by
  cases hd : e.deleted with
  | true => simp [leaves, swap, hd]
  | false => simp [leaves, swap, hd]

@[simp] theorem deleted_replace (e : Equation) : (e.replace v ty).deleted = e.deleted := by
  unfold replace
  split <;> rfl

@[simp] theorem used_replace (e : Equation) : (e.replace v ty).used = e.used := by
  unfold replace
  split <;> rfl

theorem left_replace {e : Equation} (h : e.deleted = false) :
    (e.replace v ty).left = e.left.replace v ty := by
  simp [replace, h]

theorem right_replace {e : Equation} (h : e.deleted = false) :
    (e.replace v ty).right = e.right.replace v ty := by
  simp [replace, h]

theorem mem_leaves_replace {e : Equation} (h : w ∈ (e.replace v ty).leaves) :
    (w ≠ v ∧ w ∈ e.leaves) ∨ w ∈ ty.leaves := by
  cases hd : e.deleted with
  | true => simp [hd] at h
  | false =>
    rw [mem_leaves (by simpa using hd), left_replace hd, right_replace hd] at h
    rw [mem_leaves hd]
    rcases h with h | h
    · exact (Ty.mem_leaves_replace h).imp_left fun h => ⟨h.1, .inl h.2⟩
    · exact (Ty.mem_leaves_replace h).imp_left fun h => ⟨h.1, .inr h.2⟩

theorem holds_replace_iff {e : Equation} (hd : e.deleted = false) (h : θ v = ty.instantiate θ) :
    (e.replace v ty).Holds θ ↔ e.Holds θ := by
  unfold Holds
  rw [left_replace hd, right_replace hd, Ty.instantiate_replace h, Ty.instantiate_replace h]

end Equation

@[simp] theorem unifies_nil : Unifies θ [] := by simp [Unifies]

@[simp] theorem unifies_cons {e : Equation} {p : List Equation} :
    Unifies θ (e :: p) ↔ (e.deleted = false → e.Holds θ) ∧ Unifies θ p := by
  simp [Unifies]

@[simp] theorem unifies_append {p q : List Equation} :
    Unifies θ (p ++ q) ↔ Unifies θ p ∧ Unifies θ q := by
  simp only [Unifies, List.mem_append, or_imp, forall_and]

theorem unifies_map_replace {p : List Equation} (h : θ v = ty.instantiate θ) :
    Unifies θ (p.map (·.replace v ty)) ↔ Unifies θ p := by
  induction p with
  | nil => simp
  | cons e rest ih =>
    simp only [List.map_cons, unifies_cons, Equation.deleted_replace, ih]
    refine and_congr_left fun _ => forall_congr' fun hd => ?_
    exact Equation.holds_replace_iff hd h

-- ---------------------------------------------------------------------------
-- What a firing keeps
-- ---------------------------------------------------------------------------

namespace Problem

variable {p q : Problem} {m : Move}

def leaves (p : Problem) : List TyVar := p.flatMap Equation.leaves

theorem mem_leaves : v ∈ p.leaves ↔ ∃ e ∈ p, v ∈ e.leaves := List.mem_flatMap

@[simp] theorem leaves_append : leaves (p ++ q) = p.leaves ++ q.leaves := List.flatMap_append

@[simp] theorem leaves_cons {e : Equation} : leaves (e :: p) = e.leaves ++ p.leaves :=
  List.flatMap_cons

@[simp] theorem leaves_nil : leaves [] = [] := rfl

theorem mem_leaves_map_replace (h : w ∈ leaves (p.map (·.replace v ty))) :
    (w ≠ v ∧ w ∈ p.leaves) ∨ w ∈ ty.leaves := by
  simp only [mem_leaves, List.mem_map] at h ⊢
  obtain ⟨_, ⟨e, he, rfl⟩, hw⟩ := h
  exact (Equation.mem_leaves_replace hw).imp_left fun hw => ⟨hw.1, e, he, hw.2⟩

theorem leaves_parts_subset {e : Equation} {a b c d : Ty} (hd : e.deleted = false)
    (hl : e.left = .arrow a b) (hr : e.right = .arrow c d) :
    leaves [{ left := a, right := c }, { left := b, right := d }] ⊆ e.leaves := by
  intro w hw
  rw [Equation.mem_leaves hd, hl, hr]
  simp only [leaves_cons, leaves_nil, Equation.leaves, Ty.leaves, List.mem_append] at hw ⊢
  grind

theorem Fires.unifies_iff (h : Fires p m) : Unifies θ m.next ↔ Unifies θ p := by
  cases h with
  | @orient before after e a b v hd hl hr =>
    have hswap : e.swap.Holds θ ↔ e.Holds θ := eq_comm
    have hdeleted : e.swap.deleted = e.deleted := rfl
    simp only [unifies_append, unifies_cons, hswap, hdeleted]
  | @delete before after e hd heq =>
    have hholds : e.Holds θ := by simp [Equation.Holds, heq]
    simp [hholds]
  | @decompose before after e a b c d hd hl hr =>
    have hholds : e.Holds θ ↔ a.instantiate θ = c.instantiate θ ∧
        b.instantiate θ = d.instantiate θ := by
      simp [Equation.Holds, hl, hr, Ty.instantiate]
    simp only [unifies_append, unifies_cons, unifies_nil, hd, hholds]
    simp [Equation.Holds]
    tauto
  | @eliminate before after e v hd hused hl hoccurs =>
    have hholds : e.Holds θ ↔ θ v = e.right.instantiate θ := by
      simp [Equation.Holds, hl, Ty.instantiate]
    have hmarked : Equation.Holds θ { e with used := true } ↔ θ v = e.right.instantiate θ :=
      hholds
    simp only [unifies_append, unifies_cons, hholds, hmarked]
    simp only [hd, true_imp_iff]
    constructor
    · rintro ⟨hbefore, heq, hafter⟩
      exact ⟨(unifies_map_replace heq).mp hbefore, heq, (unifies_map_replace heq).mp hafter⟩
    · rintro ⟨hbefore, heq, hafter⟩
      exact ⟨(unifies_map_replace heq).mpr hbefore, heq, (unifies_map_replace heq).mpr hafter⟩

theorem Fires.leaves_subset (h : Fires p m) : m.next.leaves ⊆ p.leaves := by
  cases h with
  | @orient before after e a b v hd hl hr =>
    have hswap := e.leaves_swap_subset
    simp only [leaves_append, leaves_cons]
    grind
  | @delete before after e hd heq => simp
  | @decompose before after e a b c d hd hl hr =>
    have hparts := leaves_parts_subset hd hl hr
    have hgone : Equation.leaves { e with deleted := true } = [] := rfl
    simp only [leaves_append, leaves_cons, hgone] at hparts ⊢
    grind
  | @eliminate before after e v hd hused hl hoccurs =>
    have hright : e.right.leaves ⊆ e.leaves := fun w hw => (Equation.mem_leaves hd).mpr (.inr hw)
    have hsame : Equation.leaves { e with used := true } = e.leaves := rfl
    intro w hw
    simp only [leaves_append, leaves_cons, List.mem_append, hsame] at hw ⊢
    rcases hw with hw | hw | hw
    · rcases mem_leaves_map_replace hw with ⟨-, hw⟩ | hw
      · exact .inl hw
      · exact .inr (.inl (hright hw))
    · exact .inr (.inl hw)
    · rcases mem_leaves_map_replace hw with ⟨-, hw⟩ | hw
      · exact .inr (.inr hw)
      · exact .inr (.inl (hright hw))

-- ---------------------------------------------------------------------------
-- What a run keeps
-- ---------------------------------------------------------------------------

theorem Reaches.unifies_iff (h : Reaches p q) : Unifies θ q ↔ Unifies θ p :=
  h.invariant (P := fun q => Unifies θ q ↔ Unifies θ p) (fun hf ih => hf.unifies_iff.trans ih)
    Iff.rfl

theorem Reaches.leaves_subset (h : Reaches p q) : q.leaves ⊆ p.leaves :=
  h.invariant (P := fun q => q.leaves ⊆ p.leaves)
    (fun hf ih => List.Subset.trans hf.leaves_subset ih) (List.Subset.refl _)

theorem not_unifies_of_step_error {failure : Failure} (h : p.step = .error failure) :
    ¬ Unifies θ p := by
  intro hunifies
  have hsteps := p.steps_step
  rw [h] at hsteps
  cases hsteps with
  | @fail e v he hd hl hne hv =>
    have heq : θ v = e.right.instantiate θ := by
      simpa [Equation.Holds, hl, Ty.instantiate] using hunifies e he hd
    exact Ty.ne_instantiate_of_mem (hl ▸ hne) hv heq

end Problem

end SimpleTypes
