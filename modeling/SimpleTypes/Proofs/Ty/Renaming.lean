import Mathlib.Logic.Equiv.Fintype
import SimpleTypes.Distinct
import SimpleTypes.Ty.Normalized

/-!
# Renaming type variables

Types that are instances of each other, by one map for all of them in each
direction, differ by a permutation of the variables (`exists_perm_of_instances`).
The text with letters for variables is the same before and after an injective
renaming (`normalized_rename`): a variable keeps its place in the order of
first appearance. Such a renaming can be done before or after a replacement.
-/

namespace SimpleTypes

theorem eraseDups_map {α β : Type} [BEq α] [LawfulBEq α] [BEq β] [LawfulBEq β] {f : α → β}
    (hf : Function.Injective f) (l : List α) : (l.map f).eraseDups = l.eraseDups.map f := by
  match l with
  | [] => rfl
  | a :: rest =>
    have hlength : (rest.filter fun b => !b == a).length ≤ rest.length := List.length_filter_le _ _
    have hfilter : (rest.map f).filter (fun b => !b == f a) =
        (rest.filter fun b => !b == a).map f := by
      rw [List.filter_map]
      simp only [Function.comp_def, hf.beq_eq]
    rw [List.map_cons, List.eraseDups_cons, List.eraseDups_cons, hfilter, eraseDups_map hf,
      List.map_cons]
termination_by l.length

theorem idxOf_map {α β : Type} [BEq α] [LawfulBEq α] [BEq β] [LawfulBEq β] {f : α → β}
    (hf : Function.Injective f) (l : List α) (a : α) : (l.map f).idxOf (f a) = l.idxOf a := by
  simp only [List.idxOf, List.findIdx_map, Function.comp_def, hf.beq_eq]

theorem letterIn_map {f : TyVar → TyVar} (hf : Function.Injective f) (vars : List TyVar)
    (v : TyVar) : letterIn (vars.map f) (f v) = letterIn vars v := by
  rw [letterIn, idxOf_map hf, letterIn]

namespace Ty

variable {f : TyVar → TyVar} {θ φ : TyVar → Ty} {v : TyVar} {ty : Ty}

def rename (f : TyVar → TyVar) (ty : Ty) : Ty := ty.instantiate fun v => .var (f v)

-- ---------------------------------------------------------------------------
-- Letters for variables
-- ---------------------------------------------------------------------------

theorem leaves_rename (f : TyVar → TyVar) (ty : Ty) :
    (ty.rename f).leaves = ty.leaves.map f := by
  unfold rename
  induction ty with
  | var v => rfl
  | arrow a b iha ihb => simp [instantiate, leaves, iha, ihb]

theorem renderWith_rename (name : TyVar → String) (f : TyVar → TyVar) (ty : Ty) :
    (ty.rename f).renderWith name = ty.renderWith fun v => name (f v) := by
  unfold rename
  induction ty with
  | var v => rfl
  | arrow a b iha ihb => simp [instantiate, renderWith, iha, ihb]

theorem vars_rename (hf : Function.Injective f) (ty : Ty) :
    (ty.rename f).vars = ty.vars.map f := by
  rw [vars, leaves_rename, eraseDups_map hf, vars]

theorem normalized_rename (hf : Function.Injective f) (ty : Ty) :
    (ty.rename f).normalized = ty.normalized := by
  simp only [normalized, vars_rename hf, renderWith_rename, letterIn_map hf]

-- ---------------------------------------------------------------------------
-- Different variables stay different
-- ---------------------------------------------------------------------------

theorem rename_injective (hf : Function.Injective f) : Function.Injective (rename f) := by
  intro a b h
  induction a generalizing b with
  | var v =>
    cases b with
    | var w => exact congrArg var (hf (Ty.var.inj h))
    | arrow => cases h
  | arrow a₁ a₂ ih₁ ih₂ =>
    cases b with
    | var => cases h
    | arrow b₁ b₂ =>
      obtain ⟨h₁, h₂⟩ := Ty.arrow.inj h
      rw [ih₁ h₁, ih₂ h₂]

theorem occurs_rename (hf : Function.Injective f) (v : TyVar) (ty : Ty) :
    (ty.rename f).occurs (f v) = ty.occurs v := by
  induction ty with
  | var w => exact hf.beq_eq
  | arrow a b iha ihb => exact congrArg₂ or iha ihb

theorem rename_replace (hf : Function.Injective f) (ty : Ty) (v : TyVar) (replacement : Ty) :
    (ty.replace v replacement).rename f = (ty.rename f).replace (f v) (replacement.rename f) := by
  induction ty with
  | var w => by_cases h : w = v <;> simp [rename, replace, instantiate, single, h, hf.eq_iff]
  | arrow a b iha ihb => exact congrArg₂ arrow iha ihb

-- ---------------------------------------------------------------------------
-- Instances of each other
-- ---------------------------------------------------------------------------

theorem eq_of_instantiate_eq (h : ty.instantiate θ = ty.instantiate φ) (hv : v ∈ ty.leaves) :
    θ v = φ v := by
  induction ty with
  | var w =>
    obtain rfl : v = w := by simpa [leaves] using hv
    exact h
  | arrow a b iha ihb =>
    simp only [instantiate, arrow.injEq] at h
    rcases List.mem_append.mp hv with hv | hv
    · exact iha h.1 hv
    · exact ihb h.2 hv

theorem exists_var_of_instantiate {w : TyVar} (h : ty.instantiate θ = .var w) :
    ∃ v, ty = .var v ∧ θ v = .var w := by
  cases ty with
  | var v => exact ⟨v, rfl, h⟩
  | arrow a b => cases h

theorem exists_var_of_return (h : (ty.instantiate θ).instantiate φ = ty) (hv : v ∈ ty.leaves) :
    ∃ w, θ v = .var w ∧ φ w = .var v := by
  rw [instantiate_instantiate] at h
  exact exists_var_of_instantiate (eq_of_instantiate_eq (h.trans (instantiate_var ty).symm) hv)

theorem exists_perm {vars : List TyVar} (h : ∀ v ∈ vars, ∃ w, θ v = .var w ∧ φ w = .var v) :
    ∃ π : Equiv.Perm TyVar, ∀ v ∈ vars, θ v = .var (π v) := by
  choose target htarget using h
  let onVars (v : {v // v ∈ vars}) : TyVar := target v.1 v.2
  have hinjective : Function.Injective onVars := by
    intro v w heq
    have hv := (htarget v.1 v.2).2
    have hw := (htarget w.1 w.2).2
    have hback : Ty.var v.1 = .var w.1 := hv.symm.trans ((congrArg φ heq).trans hw)
    exact Subtype.ext (Ty.var.inj hback)
  obtain ⟨π, hπ⟩ :=
    Equiv.Perm.exists_extending_pair Subtype.val onVars Subtype.val_injective hinjective
  refine ⟨π, ?_⟩
  intro v hv
  rw [(htarget v hv).1, hπ ⟨v, hv⟩]

theorem exists_perm_of_instances {tys : List Ty}
    (h : ∀ ty ∈ tys, (ty.instantiate θ).instantiate φ = ty) :
    ∃ π : Equiv.Perm TyVar, ∀ ty ∈ tys, ty.instantiate θ = ty.rename π := by
  obtain ⟨π, hπ⟩ : ∃ π : Equiv.Perm TyVar, ∀ v ∈ tys.flatMap leaves, θ v = .var (π v) := by
    refine exists_perm (φ := φ) ?_
    intro v hv
    obtain ⟨ty, hty, hv⟩ := List.mem_flatMap.mp hv
    exact exists_var_of_return (h ty hty) hv
  refine ⟨π, ?_⟩
  intro ty hty
  exact instantiate_congr fun v hv => hπ v (List.mem_flatMap.mpr ⟨ty, hty, hv⟩)

end Ty

end SimpleTypes
