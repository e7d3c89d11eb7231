/-!
# Simple types

Types are built from numbered variables by arrows. Substituting is done by a
map from variables to types, defined everywhere (`instantiate`); replacing one
variable is a special case (`replace`). `substitute` replaces a variable and
tells whether there was anything to replace.
-/

namespace SimpleTypes

abbrev TyVar := Nat

def TyVar.render (v : TyVar) : String := "t" ++ Nat.repr v

inductive Ty where
  | var (v : TyVar)
  | arrow (domain codomain : Ty)
  deriving DecidableEq, Repr, Inhabited

namespace Ty

def isVar : Ty → Bool
  | .var _ => true
  | .arrow .. => false

def asVar? : Ty → Option TyVar
  | .var v => some v
  | .arrow .. => none

def occurs (v : TyVar) : Ty → Bool
  | .var w => w == v
  | .arrow a b => a.occurs v || b.occurs v

/-- The variables from left to right, as often as they occur. -/
def leaves : Ty → List TyVar
  | .var v => [v]
  | .arrow a b => a.leaves ++ b.leaves

/-- The variables in the order in which they first appear. -/
def vars (ty : Ty) : List TyVar := ty.leaves.eraseDups

/-- The number of variables and arrows. -/
def size : Ty → Nat
  | .var _ => 1
  | .arrow a b => a.size + b.size + 1

def instantiate (θ : TyVar → Ty) : Ty → Ty
  | .var v => θ v
  | .arrow a b => .arrow (a.instantiate θ) (b.instantiate θ)

/-- Sends `v` to `replacement` and keeps every other variable. -/
def single (v : TyVar) (replacement : Ty) (w : TyVar) : Ty :=
  if w = v then replacement else .var w

def replace (ty : Ty) (v : TyVar) (replacement : Ty) : Ty := ty.instantiate (single v replacement)

/-- The type with the variable replaced, and whether the variable occurs. -/
def substitute (ty : Ty) (v : TyVar) (replacement : Ty) : Ty × Bool :=
  match ty with
  | .var w => if w = v then (replacement, true) else (.var w, false)
  | .arrow a b =>
    let (domain, left) := a.substitute v replacement
    let (codomain, right) := b.substitute v replacement
    (.arrow domain codomain, left || right)

def renderWith (name : TyVar → String) : Ty → String
  | .var v => name v
  | .arrow a b => "(" ++ a.renderWith name ++ " -> " ++ b.renderWith name ++ ")"

def render (ty : Ty) : String := ty.renderWith TyVar.render

-- ---------------------------------------------------------------------------
-- Occurrences
-- ---------------------------------------------------------------------------

theorem occurs_iff {v : TyVar} {ty : Ty} : ty.occurs v = true ↔ v ∈ ty.leaves := by
  induction ty with
  | var w => simp [occurs, leaves, @eq_comm _ v w]
  | arrow a b iha ihb => simp [occurs, leaves, iha, ihb]

theorem mem_vars {v : TyVar} {ty : Ty} : v ∈ ty.vars ↔ v ∈ ty.leaves := List.mem_eraseDups

theorem size_pos (ty : Ty) : 0 < ty.size := by
  cases ty <;> simp [size]

-- ---------------------------------------------------------------------------
-- Substituting
-- ---------------------------------------------------------------------------

/-- Only the variables that occur matter. -/
theorem instantiate_congr {θ φ : TyVar → Ty} {ty : Ty} (h : ∀ v ∈ ty.leaves, θ v = φ v) :
    ty.instantiate θ = ty.instantiate φ := by
  induction ty with
  | var v => exact h v (by simp [leaves])
  | arrow a b iha ihb =>
    simp only [leaves, List.mem_append] at h
    simp [instantiate, iha fun v hv => h v (.inl hv), ihb fun v hv => h v (.inr hv)]

@[simp] theorem instantiate_var (ty : Ty) : ty.instantiate .var = ty := by
  induction ty with
  | var v => rfl
  | arrow a b iha ihb => simp [instantiate, iha, ihb]

theorem instantiate_instantiate (θ φ : TyVar → Ty) (ty : Ty) :
    (ty.instantiate θ).instantiate φ = ty.instantiate fun v => (θ v).instantiate φ := by
  induction ty with
  | var v => rfl
  | arrow a b iha ihb => simp [instantiate, iha, ihb]

theorem mem_leaves_instantiate {θ : TyVar → Ty} {w : TyVar} {ty : Ty} :
    w ∈ (ty.instantiate θ).leaves ↔ ∃ v ∈ ty.leaves, w ∈ (θ v).leaves := by
  induction ty with
  | var v => simp [instantiate, leaves]
  | arrow a b iha ihb => simp [instantiate, leaves, iha, ihb, or_and_right, exists_or]

/-- A variable of a replaced type was there before, other than the one
replaced, or comes with the replacement. -/
theorem mem_leaves_replace {v w : TyVar} {replacement ty : Ty}
    (h : w ∈ (ty.replace v replacement).leaves) :
    (w ≠ v ∧ w ∈ ty.leaves) ∨ w ∈ replacement.leaves := by
  obtain ⟨u, hu, hw⟩ := mem_leaves_instantiate.mp h
  unfold single at hw
  split at hw
  · exact .inr hw
  · next hne =>
    obtain rfl : w = u := by simpa [leaves] using hw
    exact .inl ⟨hne, hu⟩

theorem substitute_eq (ty : Ty) (v : TyVar) (replacement : Ty) :
    ty.substitute v replacement = (ty.replace v replacement, ty.occurs v) := by
  induction ty with
  | var w => by_cases h : w = v <;> simp [substitute, replace, instantiate, single, occurs, h]
  | arrow a b iha ihb => simp [substitute, iha, ihb, replace, instantiate, occurs]

end Ty

end SimpleTypes
