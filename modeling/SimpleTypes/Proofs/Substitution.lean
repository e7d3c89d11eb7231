import Mathlib.Logic.Function.Iterate
import Mathlib.Logic.Relation
import SimpleTypes.Substitution

/-!
# What a substitution resolves types to

Applying a substitution is a number of rounds of `applyOnce`, one more than it
has bindings (`apply_eq_iterate`). If no variable leads back to itself through
the bindings, this is enough. A bound variable that is left after some rounds
has as many bound variables on the way to it, all different, because they lead
on to each other; and there are no more of them than bindings.

A resolution replaces bound variables until none is left. An acyclic
substitution has just one, and applies it (`apply_resolves`). A resolved
substitution, of which no type mentions a bound variable, is acyclic and needs
one round.
-/

namespace SimpleTypes.Substitution

variable {θ : TyVar → Ty} {v w : TyVar} {ty : Ty} {σ : Substitution}

theorem lookup_of_some (h : σ.get? v = some ty) : σ.lookup v = ty := by
  simp [lookup, h]

theorem lookup_of_none (h : σ.get? v = none) : σ.lookup v = .var v := by
  simp [lookup, h]

-- ---------------------------------------------------------------------------
-- Rounds
-- ---------------------------------------------------------------------------

theorem applyOnce_of_unbound (h : ∀ v ∈ ty.leaves, σ.get? v = none) : σ.applyOnce ty = ty := by
  refine (Ty.instantiate_congr ?_).trans (Ty.instantiate_var ty)
  intro v hv
  exact lookup_of_none (h v hv)

/-- A round that changes nothing would be followed by others of the kind. -/
theorem applyRounds_eq_iterate (σ : Substitution) (rounds : Nat) (ty : Ty) :
    σ.applyRounds rounds ty = σ.applyOnce^[rounds] ty := by
  induction rounds generalizing ty with
  | zero => rfl
  | succ rounds ih =>
    simp only [applyRounds]
    split
    · next hsame => exact (Function.iterate_fixed hsame (rounds + 1)).symm
    · rw [ih, Function.iterate_succ_apply]

theorem apply_eq_iterate (σ : Substitution) (ty : Ty) :
    σ.apply ty = σ.applyOnce^[σ.size + 1] ty :=
  σ.applyRounds_eq_iterate (σ.size + 1) ty

theorem iterate_arrow (σ : Substitution) (rounds : Nat) (a b : Ty) :
    σ.applyOnce^[rounds] (.arrow a b) =
      .arrow (σ.applyOnce^[rounds] a) (σ.applyOnce^[rounds] b) := by
  induction rounds with
  | zero => rfl
  | succ rounds ih => simp [Function.iterate_succ_apply', ih, applyOnce, Ty.instantiate]

theorem apply_of_unbound (h : ∀ v ∈ ty.leaves, σ.get? v = none) : σ.apply ty = ty := by
  rw [apply_eq_iterate]
  exact Function.iterate_fixed (applyOnce_of_unbound h) (σ.size + 1)

-- ---------------------------------------------------------------------------
-- Acyclic substitutions
-- ---------------------------------------------------------------------------

/-- The first variable is bound to a type that the second occurs in. -/
def Mentions (σ : Substitution) (v w : TyVar) : Prop := ∃ ty, σ.get? v = some ty ∧ w ∈ ty.leaves

def Acyclic (σ : Substitution) : Prop := ∀ v, ¬ Relation.TransGen σ.Mentions v v

theorem Mentions.mem_keys (h : σ.Mentions v w) : v ∈ σ.keys := by
  obtain ⟨ty, hv, -⟩ := h
  simp [Table.mem_keys_iff, hv]

theorem not_mem_keys_iff : v ∉ σ.keys ↔ σ.get? v = none := by
  simp [Table.mem_keys_iff]

theorem mentions_of_mem_lookup (hw : w ∈ (σ.lookup v).leaves) (hbound : w ∈ σ.keys) :
    σ.Mentions v w := by
  cases hv : σ.get? v with
  | some ty => exact ⟨ty, hv, lookup_of_some hv ▸ hw⟩
  | none =>
    obtain rfl : w = v := by simpa [lookup_of_none hv, Ty.leaves] using hw
    exact absurd hbound (not_mem_keys_iff.mpr hv)

namespace Acyclic

/-- What is bound and still there after some rounds was reached on a path with a
bound variable for each of them. -/
theorem exists_path {rounds : Nat} (hσ : σ.Acyclic)
    (hw : w ∈ (σ.applyOnce^[rounds] ty).leaves) (hbound : w ∈ σ.keys) :
    ∃ path : List TyVar, path.length = rounds ∧ path.Nodup ∧ path ⊆ σ.keys ∧
      ∀ v ∈ path, Relation.TransGen σ.Mentions v w := by
  induction rounds generalizing w with
  | zero => exact ⟨[], rfl, List.nodup_nil, List.nil_subset _, by simp⟩
  | succ rounds ih =>
    rw [Function.iterate_succ_apply'] at hw
    obtain ⟨v, hv, hw⟩ := Ty.mem_leaves_instantiate.mp hw
    have hmentions : σ.Mentions v w := mentions_of_mem_lookup hw hbound
    obtain ⟨path, hlength, hnodup, hsub, hpath⟩ := ih hv hmentions.mem_keys
    have hv : v ∉ path := fun hmem => hσ v (hpath v hmem)
    refine ⟨v :: path, by simp [hlength], List.nodup_cons.mpr ⟨hv, hnodup⟩,
      List.cons_subset.mpr ⟨hmentions.mem_keys, hsub⟩, ?_⟩
    intro u hu
    rcases List.mem_cons.mp hu with rfl | hu
    · exact .single hmentions
    · exact (hpath u hu).tail hmentions

theorem unbound_of_mem_iterate {rounds : Nat} (hσ : σ.Acyclic) (hrounds : σ.size ≤ rounds)
    (hw : w ∈ (σ.applyOnce^[rounds] ty).leaves) : σ.get? w = none := by
  rw [← not_mem_keys_iff]
  intro hbound
  obtain ⟨path, hlength, hnodup, hsub, hpath⟩ := hσ.exists_path hw hbound
  have hnew : w ∉ path := fun hmem => hσ w (hpath w hmem)
  have hle : (w :: path).length ≤ σ.keys.length :=
    (List.nodup_cons.mpr ⟨hnew, hnodup⟩).length_le_of_subset (List.cons_subset.mpr ⟨hbound, hsub⟩)
  have hkeys : σ.keys.length = σ.size := List.length_map _
  rw [List.length_cons] at hle
  omega

theorem unbound_of_mem_apply (hσ : σ.Acyclic) (hw : w ∈ (σ.apply ty).leaves) :
    σ.get? w = none := by
  rw [apply_eq_iterate] at hw
  exact hσ.unbound_of_mem_iterate (Nat.le_succ _) hw

theorem not_mem_apply (hσ : σ.Acyclic) (hv : v ∈ σ.keys) (ty : Ty) : v ∉ (σ.apply ty).leaves :=
  fun hmem => not_mem_keys_iff.mpr (hσ.unbound_of_mem_apply hmem) hv

theorem apply_eq_iterate_size (hσ : σ.Acyclic) (ty : Ty) :
    σ.apply ty = σ.applyOnce^[σ.size] ty := by
  -- The last round only finds that nothing is left to do.
  rw [apply_eq_iterate, Function.iterate_succ_apply']
  exact applyOnce_of_unbound fun _ hw => hσ.unbound_of_mem_iterate (Nat.le_refl _) hw

theorem apply_of_some (hσ : σ.Acyclic) (h : σ.get? v = some ty) :
    σ.apply (.var v) = σ.apply ty := by
  have hround : σ.applyOnce (.var v) = ty := lookup_of_some h
  rw [apply_eq_iterate, Function.iterate_succ_apply, hround, hσ.apply_eq_iterate_size]

end Acyclic

-- ---------------------------------------------------------------------------
-- Resolutions
-- ---------------------------------------------------------------------------

/-- The function gives a bound variable the value of its type and keeps every
other variable. -/
structure IsResolution (σ : Substitution) (resolve : Ty → Ty) : Prop where
  bound : ∀ v ty, σ.get? v = some ty → resolve (.var v) = resolve ty
  unbound : ∀ v, σ.get? v = none → resolve (.var v) = .var v
  arrow : ∀ a b, resolve (.arrow a b) = .arrow (resolve a) (resolve b)

namespace IsResolution

variable {resolve : Ty → Ty}

theorem applyOnce (h : σ.IsResolution resolve) (ty : Ty) :
    resolve (σ.applyOnce ty) = resolve ty := by
  induction ty with
  | var v =>
    cases hv : σ.get? v with
    | some bound =>
      have hround : σ.applyOnce (.var v) = bound := lookup_of_some hv
      rw [hround, h.bound v bound hv]
    | none =>
      have hround : σ.applyOnce (.var v) = .var v := lookup_of_none hv
      rw [hround]
  | arrow a b iha ihb =>
    have hround : σ.applyOnce (.arrow a b) = .arrow (σ.applyOnce a) (σ.applyOnce b) := rfl
    rw [hround, h.arrow, h.arrow, iha, ihb]

theorem apply (h : σ.IsResolution resolve) (ty : Ty) : resolve (σ.apply ty) = resolve ty := by
  rw [apply_eq_iterate]
  generalize σ.size + 1 = rounds
  induction rounds generalizing ty with
  | zero => rfl
  | succ rounds ih => rw [Function.iterate_succ_apply, ih, h.applyOnce]

theorem of_unbound (h : σ.IsResolution resolve) (hty : ∀ v ∈ ty.leaves, σ.get? v = none) :
    resolve ty = ty := by
  induction ty with
  | var v => exact h.unbound v (hty v (by simp [Ty.leaves]))
  | arrow a b iha ihb =>
    simp only [Ty.leaves, List.mem_append] at hty
    rw [h.arrow, iha fun v hv => hty v (.inl hv), ihb fun v hv => hty v (.inr hv)]

end IsResolution

theorem Acyclic.isResolution (hσ : σ.Acyclic) : σ.IsResolution σ.apply := by
  refine ⟨fun v ty h => hσ.apply_of_some h, ?_, ?_⟩
  · intro v hv
    exact apply_of_unbound (by simpa [Ty.leaves] using hv)
  · intro a b
    simp only [apply_eq_iterate, iterate_arrow]

/-- Of an acyclic substitution the rounds that `apply` makes are enough: it is
the resolution, and there is no other. So it leaves no bound variable, applying
it again changes nothing, and a bound variable becomes what its type becomes. -/
theorem apply_resolves (hσ : σ.Acyclic) :
    σ.IsResolution σ.apply ∧ (∀ resolve, σ.IsResolution resolve → ∀ ty, σ.apply ty = resolve ty) ∧
      (∀ v ∈ σ.keys, ∀ ty, v ∉ (σ.apply ty).leaves) ∧
      (∀ ty, σ.apply (σ.apply ty) = σ.apply ty) ∧
      ∀ v ty, σ.get? v = some ty → σ.apply ty = σ.apply (.var v) := by
  have hunbound (ty : Ty) : ∀ w ∈ (σ.apply ty).leaves, σ.get? w = none :=
    fun w hw => hσ.unbound_of_mem_apply hw
  refine ⟨hσ.isResolution, ?_, fun v hv ty => hσ.not_mem_apply hv ty,
    fun ty => apply_of_unbound (hunbound ty), fun v ty h => (hσ.apply_of_some h).symm⟩
  intro resolve hresolve ty
  exact (hresolve.of_unbound (hunbound ty)).symm.trans (hresolve.apply ty)

theorem acyclic_of_lt (h : ∀ e ∈ σ.entries, ∀ w ∈ e.2.leaves, e.1 < w) : σ.Acyclic := by
  have hlt {v w : TyVar} (hpath : Relation.TransGen σ.Mentions v w) : v < w := by
    induction hpath with
    | single hmentions =>
      obtain ⟨ty, hv, hw⟩ := hmentions
      exact h _ (Table.get?_eq_some_iff.mp hv) _ hw
    | tail _ hmentions ih =>
      obtain ⟨ty, hv, hw⟩ := hmentions
      exact Nat.lt_trans ih (h _ (Table.get?_eq_some_iff.mp hv) _ hw)
  exact fun v hpath => Nat.lt_irrefl v (hlt hpath)

/-- Each of the three bindings leads to the next, so three rounds change
something. -/
theorem apply_resolves_chain :
    let σ : Substitution := Table.ofList
      [(1, .arrow (.var 2) (.var 2)), (2, .arrow (.var 3) (.var 5)), (3, .var 4)]
    let ty : Ty := .arrow (.arrow (.var 4) (.var 5)) (.arrow (.var 4) (.var 5))
    σ.Acyclic ∧ σ.IsResolution σ.apply ∧ σ.apply (.var 1) = ty ∧ σ.apply ty = ty := by
  intro σ ty
  have hσ : σ.Acyclic := acyclic_of_lt (by decide)
  have hchain : σ.apply (.var 1) = ty := by decide
  obtain ⟨hresolves, -, -, hagain, -⟩ := apply_resolves hσ
  exact ⟨hσ, hresolves, hchain, hchain ▸ hagain (.var 1)⟩

-- ---------------------------------------------------------------------------
-- Resolved substitutions
-- ---------------------------------------------------------------------------

def Resolved (σ : Substitution) : Prop :=
  ∀ v ty, σ.get? v = some ty → ∀ w ∈ ty.leaves, σ.get? w = none

theorem Resolved.acyclic (hσ : σ.Resolved) : σ.Acyclic := by
  intro v hpath
  obtain ⟨w, hmentions, -⟩ := Relation.TransGen.head'_iff.mp hpath
  obtain ⟨u, -, ty, hu, hv⟩ := Relation.TransGen.tail'_iff.mp hpath
  exact not_mem_keys_iff.mpr (hσ u ty hu v hv) hmentions.mem_keys

theorem Resolved.unbound_of_mem_applyOnce (hσ : σ.Resolved)
    (h : w ∈ (σ.applyOnce ty).leaves) : σ.get? w = none := by
  rw [← not_mem_keys_iff]
  intro hbound
  obtain ⟨v, -, hw⟩ := Ty.mem_leaves_instantiate.mp h
  obtain ⟨bound, hv, hw⟩ := mentions_of_mem_lookup hw hbound
  exact not_mem_keys_iff.mpr (hσ v bound hv w hw) hbound

theorem Resolved.apply (hσ : σ.Resolved) (ty : Ty) : σ.apply ty = ty.instantiate σ.lookup := by
  rw [apply_eq_iterate, Function.iterate_succ_apply]
  exact Function.iterate_fixed
    (applyOnce_of_unbound fun _ hw => hσ.unbound_of_mem_applyOnce hw) σ.size

theorem Resolved.not_mem_apply (hσ : σ.Resolved) (hv : v ∈ σ.keys) (ty : Ty) :
    v ∉ (σ.apply ty).leaves :=
  hσ.acyclic.not_mem_apply hv ty

theorem Resolved.instantiate_apply (hσ : σ.Resolved)
    (hθ : ∀ v ty, σ.get? v = some ty → θ v = ty.instantiate θ) (ty : Ty) :
    (σ.apply ty).instantiate θ = ty.instantiate θ := by
  rw [hσ.apply, Ty.instantiate_instantiate]
  refine Ty.instantiate_congr ?_
  intro v _
  cases hv : σ.get? v with
  | some bound => rw [lookup_of_some hv, hθ v bound hv]
  | none => rw [lookup_of_none hv, Ty.instantiate]

end SimpleTypes.Substitution
