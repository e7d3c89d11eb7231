import SimpleTypes.Distinct
import SimpleTypes.Problem.Basic

/-!
# Every run of steps ends

A variable is pending while it occurs in an equation in play other than as the
left side of a used one. Elimination takes one variable out of the pending
ones and no step puts one in. The steps that keep them all lower the weight,
which counts the size of the equations in play and those to be turned around.
-/

namespace SimpleTypes

namespace Equation

def pending (e : Equation) : List TyVar :=
  if e.deleted then []
  else if e.used && e.left.isVar then e.right.leaves
  else e.left.leaves ++ e.right.leaves

/-- Twice the size, and one more for a variable that stands on the right of an
arrow. -/
def weight (e : Equation) : Nat :=
  if e.deleted then 0
  else 2 * (e.left.size + e.right.size) + if !e.left.isVar && e.right.isVar then 1 else 0

theorem weight_le (e : Equation) : e.weight ≤ 2 * (e.left.size + e.right.size) + 1 := by
  unfold weight
  split
  · omega
  · split <;> omega

theorem le_weight {e : Equation} (h : e.deleted = false) :
    2 * (e.left.size + e.right.size) ≤ e.weight := by
  simp [weight, h]

theorem pending_subset (e : Equation) : e.pending ⊆ e.left.leaves ++ e.right.leaves := by
  unfold pending
  split
  · simp
  · split <;> simp

/-- All variables are pending, unless the left side is one. -/
theorem pending_of_not_isVar {e : Equation} (h : e.deleted = false) (hv : e.left.isVar = false) :
    e.pending = e.left.leaves ++ e.right.leaves := by
  simp [pending, h, hv]

theorem right_subset_pending {e : Equation} (h : e.deleted = false) :
    e.right.leaves ⊆ e.pending := by
  simp only [pending, h, Bool.false_eq_true, if_false]
  split <;> simp

/-- A variable pending after a replacement was pending before, or comes with
the replacement. -/
theorem mem_pending_replace {e : Equation} {v w : TyVar} {ty : Ty}
    (h : w ∈ (e.replace v ty).pending) : (w ≠ v ∧ w ∈ e.pending) ∨ w ∈ ty.leaves := by
  cases hd : e.deleted with
  | true => simp [replace, pending, hd] at h
  | false =>
    simp only [replace, pending, hd, Bool.false_eq_true, if_false] at h
    have hright (hw : w ∈ (e.right.replace v ty).leaves) :
        (w ≠ v ∧ w ∈ e.pending) ∨ w ∈ ty.leaves :=
      (Ty.mem_leaves_replace hw).imp_left fun hw => ⟨hw.1, right_subset_pending hd hw.2⟩
    split at h
    · exact hright h
    · next hleft =>
      rcases List.mem_append.mp h with h | h
      · rcases Ty.mem_leaves_replace h with ⟨hne, hw⟩ | hw
        · refine .inl ⟨hne, ?_⟩
          -- The left side was not the variable of a used equation, or it was `v`.
          cases hl : e.left with
          | arrow a b =>
            rw [pending_of_not_isVar hd (by simp [hl, Ty.isVar])]
            exact List.mem_append_left _ hw
          | var u =>
            obtain rfl : w = u := by simpa [hl, Ty.leaves] using hw
            have hkeep : (e.left.replace v ty).isVar = true := by
              simp [hl, Ty.replace, Ty.instantiate, Ty.single, hne, Ty.isVar]
            have hused : e.used = false := by simpa [hkeep] using hleft
            simp [pending, hd, hused, hw]
        · exact .inr hw
      · exact hright h

end Equation

namespace Problem

def pending (p : Problem) : List TyVar := p.flatMap Equation.pending

def weight : Problem → Nat
  | [] => 0
  | e :: rest => e.weight + weight rest

theorem weight_append (p q : Problem) : weight (p ++ q) = weight p + weight q := by
  induction p with
  | nil => simp [weight]
  | cons e rest ih => simp only [List.cons_append, weight, ih]; omega

/-- Fewer pending variables, or no more of them and less weight. -/
def Below (q p : Problem) : Prop :=
  Prod.Lex (· < ·) (· < ·) (distinctCount q.pending, q.weight) (distinctCount p.pending, p.weight)

theorem Below.of_weight {p q : Problem} (h : q.pending ⊆ p.pending) (hw : q.weight < p.weight) :
    Below q p := by
  rcases Nat.lt_or_eq_of_le (distinctCount_le h) with h | h
  · exact .left _ _ h
  · unfold Below
    rw [h]
    exact .right _ hw

theorem Below.trans {p q r : Problem} (h : Below r q) (h' : Below q p) : Below r p := by
  unfold Below at *
  rw [Prod.lex_def] at *
  simp only at *
  omega

/-- Replacing one equation by others of its variables and of less weight. -/
theorem below_of_split {before after added : Problem} {e e' : Equation}
    (hp : e'.pending ++ pending added ⊆ e.pending)
    (hw : e'.weight + weight added < e.weight) :
    Below (before ++ e' :: after ++ added) (before ++ e :: after) := by
  refine .of_weight ?_ ?_
  · intro v hv
    simp only [pending, List.flatMap_append, List.flatMap_cons, List.mem_append] at hv ⊢
    rcases hv with (hv | hv | hv) | hv
    · exact .inl hv
    · exact .inr (.inl (hp (List.mem_append_left _ hv)))
    · exact .inr (.inr hv)
    · exact .inr (.inl (hp (List.mem_append_right _ hv)))
  · simp only [weight_append, weight]
    omega

theorem mem_pending_map_replace {p : Problem} {v w : TyVar} {ty : Ty}
    (h : w ∈ pending (p.map (·.replace v ty))) : (w ≠ v ∧ w ∈ p.pending) ∨ w ∈ ty.leaves := by
  simp only [pending, List.flatMap_map, List.mem_flatMap] at h ⊢
  obtain ⟨e, he, hw⟩ := h
  exact (Equation.mem_pending_replace hw).imp_left fun hw => ⟨hw.1, e, he, hw.2⟩

/-- Eliminating a variable takes it out of the pending ones. -/
theorem below_eliminate {before after : Problem} {e : Equation} {v : TyVar}
    (hdeleted : e.deleted = false) (hused : e.used = false) (hleft : e.left = .var v)
    (hoccurs : v ∉ e.right.leaves) :
    Below (before.map (·.replace v e.right) ++ { e with used := true } ::
        after.map (·.replace v e.right)) (before ++ e :: after) := by
  have hold : e.pending = v :: e.right.leaves := by
    simp [Equation.pending, hdeleted, hused, hleft, Ty.leaves]
  have hnew : Equation.pending { e with used := true } = e.right.leaves := by
    simp [Equation.pending, hdeleted, hleft, Ty.isVar]
  have key : ∀ w ∈ pending (before.map (·.replace v e.right) ++ { e with used := true } ::
      after.map (·.replace v e.right)), w ≠ v ∧ w ∈ pending (before ++ e :: after) := by
    intro w hw
    have hright : w ∈ e.right.leaves → w ≠ v ∧ w ∈ pending (before ++ e :: after) := by
      intro h
      refine ⟨fun he => hoccurs (he ▸ h), ?_⟩
      simp [pending, hold, h]
    simp only [pending, List.flatMap_append, List.flatMap_cons, List.mem_append, hnew] at hw
    rcases hw with hw | hw | hw
    · rcases mem_pending_map_replace hw with ⟨hne, hw⟩ | hw
      · refine ⟨hne, ?_⟩
        simp only [pending, List.flatMap_append, List.mem_append]
        exact .inl hw
      · exact hright hw
    · exact hright hw
    · rcases mem_pending_map_replace hw with ⟨hne, hw⟩ | hw
      · refine ⟨hne, ?_⟩
        simp only [pending, List.flatMap_append, List.flatMap_cons, List.mem_append]
        exact .inr (.inr hw)
      · exact hright hw
  refine .left _ _ (distinctCount_lt (fun w hw => (key w hw).2) (a := v) ?_ ?_)
  · simp [pending, hold]
  · exact fun hw => (key v hw).1 rfl

/-- Marking an equation in play as deleted lowers the weight by its own. -/
theorem below_delete {before after added : Problem} {e : Equation}
    (hp : pending added ⊆ e.pending) (hw : weight added < e.weight) :
    Below (before ++ { e with deleted := true } :: after ++ added) (before ++ e :: after) := by
  apply below_of_split
  · simpa [Equation.pending] using hp
  · simpa [Equation.weight] using hw

theorem below_orient {before after : Problem} {e : Equation} (h : e.deleted = false)
    (hl : e.left.isVar = false) (hr : e.right.isVar = true) :
    Below (before ++ e.swap :: after) (before ++ e :: after) := by
  rw [← List.append_nil (before ++ e.swap :: after)]
  apply below_of_split
  · rw [Equation.pending_of_not_isVar h hl]
    simp only [pending, List.flatMap_nil, List.append_nil]
    refine List.Subset.trans (Equation.pending_subset _) ?_
    simp [Equation.swap]
  · simp [Equation.weight, Equation.swap, weight, h, hl, hr]
    omega

/-- Every rule goes down. -/
theorem Fires.below {p : Problem} {m : Move} (h : Fires p m) : Below m.next p := by
  cases h with
  | @orient before after e a b v hd hl hr =>
    exact below_orient hd (by simp [hl, Ty.isVar]) (by simp [hr, Ty.isVar])
  | @delete before after e hd heq =>
    have hw : weight [] < e.weight :=
      Nat.lt_of_lt_of_le (by have := e.left.size_pos; simp [weight]; omega)
        (Equation.le_weight hd)
    have hb : Below (before ++ { e with deleted := true } :: after ++ []) (before ++ e :: after) :=
      below_delete (List.nil_subset _) hw
    simpa only [List.append_nil] using hb
  | @decompose before after e a b c d hd hl hr =>
    apply below_delete
    · rw [Equation.pending_of_not_isVar hd (by simp [hl, Ty.isVar])]
      intro v hv
      simp only [pending, List.flatMap_cons, List.flatMap_nil, List.append_nil,
        List.mem_append] at hv
      simp only [hl, hr, Ty.leaves, List.mem_append]
      rcases hv with hv | hv
      · have := Equation.pending_subset _ hv
        simp only [List.mem_append] at this
        grind
      · have := Equation.pending_subset _ hv
        simp only [List.mem_append] at this
        grind
    · have h₁ := Equation.weight_le { left := a, right := c }
      have h₂ := Equation.weight_le { left := b, right := d }
      have h₃ := Equation.le_weight hd
      simp only [hl, hr, Ty.size] at h₁ h₂ h₃
      simp only [weight]
      omega
  | @eliminate before after e v hd hused hl hoccurs => exact below_eliminate hd hused hl hoccurs

theorem below_of_step {p : Problem} {m : Move} (h : p.step = .ok (some m)) : Below m.next p :=
  (fires_of_step h).below

end Problem

end SimpleTypes
