import Mathlib.Data.List.GetD
import Mathlib.Data.Set.Function
import SimpleTypes.Proofs.Token.Lexer
import SimpleTypes.Proofs.Ty.Renaming

/-!
# The text with letters identifies a type up to renaming

The text of a type with identifiers for its variables is read in one way only
(`renderWith_injective`): an arrow starts with a parenthesis and a name with a
letter, and behind a name stands nothing that it could go on with. Different
places have different letters (`letterName_injective`).

So the text with letters determines the type in which every variable is
numbered by its place in the order of first appearance, and two types that
become the same when they are `numbered` differ by a renaming.
-/

namespace SimpleTypes

theorem Name.append_inj {x y : Name} {rest rest' : List Char} (hx : x.isIdentifier = true)
    (hy : y.isIdentifier = true) (hrest : EndsName rest) (hrest' : EndsName rest')
    (h : x.toList ++ rest = y.toList ++ rest') : x = y ∧ rest = rest' := by
  have hxs := Name.isNameChar_of_mem hx
  have hys := Name.isNameChar_of_mem hy
  have hnames : x.toList = y.toList := by
    have htake := congrArg (List.takeWhile isNameChar) h
    simpa [List.takeWhile_append_of_pos hxs, List.takeWhile_append_of_pos hys,
      hrest.takeWhile, hrest'.takeWhile] using htake
  rw [hnames] at h
  exact ⟨String.toList_inj.mp hnames, List.append_cancel_left h⟩

-- ---------------------------------------------------------------------------
-- Letters
-- ---------------------------------------------------------------------------

theorem toList_letterName (index : Nat) :
    (letterName index).toList = Char.ofNat ('a'.toNat + index % 26) ::
      if index / 26 = 0 then [] else Nat.toDigits 10 (index / 26) := by
  unfold letterName
  split <;> simp [Char.toString, Nat.toList_repr]

theorem isNameChar_of_isDigit {c : Char} (h : c.isDigit = true) : isNameChar c = true := by
  have hrange : ('0' ≤ c && c ≤ '9') = true := h
  simp [isNameChar, hrange]

theorem isIdentifier_letterName (index : Nat) : Name.isIdentifier (letterName index) = true := by
  have hletters : ∀ i < 26, isNameStart (Char.ofNat ('a'.toNat + i)) = true := by decide
  have hstart := hletters (index % 26) (Nat.mod_lt _ (by decide))
  simp only [Name.isIdentifier, toList_letterName, hstart, Bool.true_and, List.all_eq_true]
  intro c hc
  split at hc
  · cases hc
  · exact isNameChar_of_isDigit (Nat.isDigit_of_mem_toDigits (by decide) (by decide) hc)

theorem letterName_injective : Function.Injective letterName := by
  intro i j h
  have hlist := congrArg String.toList h
  rw [toList_letterName, toList_letterName, List.cons.injEq] at hlist
  obtain ⟨hletter, hdigits⟩ := hlist
  have hmod : i % 26 = j % 26 := by
    have hcode : ∀ k < 26, (Char.ofNat ('a'.toNat + k)).toNat = 'a'.toNat + k := by decide
    have hcodes := congrArg Char.toNat hletter
    rw [hcode _ (Nat.mod_lt _ (by decide)), hcode _ (Nat.mod_lt _ (by decide))] at hcodes
    exact Nat.add_left_cancel hcodes
  have hdiv : i / 26 = j / 26 := by
    -- No digits at all stand for zero only, because every number has some.
    split at hdigits <;> split at hdigits
    · next hi hj => exact hi.trans hj.symm
    · exact absurd hdigits.symm Nat.toDigits_ne_nil
    · exact absurd hdigits Nat.toDigits_ne_nil
    · have hread := congrArg (Nat.ofDigitChars 10 · 0) hdigits
      simpa only [Nat.ofDigitChars_ten_toDigits] using hread
  omega

namespace Ty

variable {a b ty : Ty}

-- ---------------------------------------------------------------------------
-- Reading a type off its text
-- ---------------------------------------------------------------------------

theorem toList_renderWith_arrow (name : TyVar → String) (a b : Ty) (rest : List Char) :
    ((a.arrow b).renderWith name).toList ++ rest =
      '(' :: ((a.renderWith name).toList ++
        ' ' :: '-' :: '>' :: ' ' :: ((b.renderWith name).toList ++ ')' :: rest)) := by
  simp [renderWith]

theorem renderWith_append_inj {name : TyVar → String} {rest rest' : List Char}
    (hname : ∀ v, Name.isIdentifier (name v) = true) (hinj : Function.Injective name)
    (hrest : EndsName rest) (hrest' : EndsName rest')
    (h : (a.renderWith name).toList ++ rest = (b.renderWith name).toList ++ rest') :
    a = b ∧ rest = rest' := by
  have hparen (v : TyVar) {front chars : List Char} : (name v).toList ++ front ≠ '(' :: chars := by
    obtain ⟨c, tail, hlist, hstart, -⟩ := Name.exists_cons (hname v)
    rw [hlist]
    rintro ⟨⟩
    cases hstart
  induction a generalizing b rest rest' with
  | var v =>
    cases b with
    | var w =>
      obtain ⟨heq, hrest⟩ := Name.append_inj (hname v) (hname w) hrest hrest' h
      exact ⟨congrArg var (hinj heq), hrest⟩
    | arrow c d =>
      rw [toList_renderWith_arrow] at h
      exact absurd h (hparen v)
  | arrow a₁ a₂ ih₁ ih₂ =>
    cases b with
    | var w =>
      rw [toList_renderWith_arrow] at h
      exact absurd h.symm (hparen w)
    | arrow b₁ b₂ =>
      simp only [toList_renderWith_arrow, List.cons.injEq, true_and] at h
      obtain ⟨rfl, htail⟩ := ih₁ (.cons (by decide)) (.cons (by decide)) h
      simp only [List.cons.injEq, true_and] at htail
      obtain ⟨rfl, hlast⟩ := ih₂ (.cons (by decide)) (.cons (by decide)) htail
      exact ⟨rfl, List.tail_eq_of_cons_eq hlast⟩

theorem renderWith_injective {name : TyVar → String}
    (hname : ∀ v, Name.isIdentifier (name v) = true) (hinj : Function.Injective name) :
    Function.Injective (renderWith name) := by
  intro a b h
  have happend : (a.renderWith name).toList ++ [] = (b.renderWith name).toList ++ [] := by rw [h]
  exact (renderWith_append_inj hname hinj .nil .nil happend).1

-- ---------------------------------------------------------------------------
-- Types up to renaming
-- ---------------------------------------------------------------------------

/-- Every variable is numbered by its place in the order of first appearance. -/
def numbered (ty : Ty) : Ty := ty.rename ty.vars.idxOf

theorem normalized_eq_numbered (ty : Ty) : ty.normalized = ty.numbered.renderWith letterName :=
  (renderWith_rename letterName ty.vars.idxOf ty).symm

theorem normalized_eq_iff_numbered : a.normalized = b.normalized ↔ a.numbered = b.numbered := by
  rw [normalized_eq_numbered, normalized_eq_numbered]
  exact (renderWith_injective isIdentifier_letterName letterName_injective).eq_iff

def varAt (ty : Ty) (place : Nat) : TyVar := ty.vars.getD place 0

theorem varAt_idxOf {v : TyVar} (h : v ∈ ty.leaves) : ty.varAt (ty.vars.idxOf v) = v := by
  have hlt : ty.vars.idxOf v < ty.vars.length := List.idxOf_lt_length_of_mem (mem_vars.mpr h)
  rw [varAt, List.getD_eq_getElem _ _ hlt, List.getElem_idxOf]

theorem rename_rename (f g : TyVar → TyVar) (ty : Ty) :
    (ty.rename f).rename g = ty.rename fun v => g (f v) :=
  instantiate_instantiate _ _ ty

theorem rename_numbered (ty : Ty) : ty.numbered.rename ty.varAt = ty := by
  rw [numbered, rename_rename]
  refine (instantiate_congr ?_).trans (instantiate_var ty)
  intro v hv
  exact congrArg var (varAt_idxOf hv)

theorem rename_of_numbered (h : a.numbered = b.numbered) :
    a.rename (fun v => b.varAt (a.vars.idxOf v)) = b :=
  calc a.rename (fun v => b.varAt (a.vars.idxOf v))
      = a.numbered.rename b.varAt := (rename_rename _ _ a).symm
    _ = b := by rw [h, rename_numbered]

theorem exists_perm_of_numbered (h : a.numbered = b.numbered) :
    ∃ π : Equiv.Perm TyVar, a.rename π = b := by
  have hthere := rename_of_numbered h
  have hback := rename_of_numbered h.symm
  have hreturn : ∀ ty ∈ [a], (ty.instantiate fun v => .var (b.varAt (a.vars.idxOf v))).instantiate
      (fun w => .var (a.varAt (b.vars.idxOf w))) = ty :=
    List.forall_mem_singleton.mpr ((congrArg (rename _) hthere).trans hback)
  obtain ⟨π, hπ⟩ := exists_perm_of_instances hreturn
  exact ⟨π, (hπ a List.mem_cons_self).symm.trans hthere⟩

theorem exists_perm_of_injOn {f : TyVar → TyVar} (hf : Set.InjOn f {v | v ∈ ty.vars}) :
    ∃ π : Equiv.Perm TyVar, ty.rename f = ty.rename π := by
  obtain ⟨π, hπ⟩ : ∃ π : Equiv.Perm TyVar, ∀ v ∈ ty.vars, Ty.var (f v) = .var (π v) := by
    refine exists_perm (θ := fun v => .var (f v))
      (φ := fun w => .var (Function.invFunOn f {v | v ∈ ty.vars} w)) ?_
    intro v hv
    exact ⟨f v, rfl, congrArg var (hf.leftInvOn_invFunOn hv)⟩
  exact ⟨π, instantiate_congr fun v hv => hπ v (mem_vars.mpr hv)⟩

theorem bijOn_perm (π : Equiv.Perm TyVar) (ty : Ty) :
    Set.BijOn π {v | v ∈ ty.vars} {w | w ∈ (ty.rename π).vars} := by
  rw [vars_rename π.injective]
  refine ⟨fun v hv => List.mem_map_of_mem hv, π.injective.injOn, ?_⟩
  intro w hw
  obtain ⟨v, hv, rfl⟩ := List.mem_map.mp hw
  exact ⟨v, hv, rfl⟩

/-- The text with letters is the same for two types exactly if a bijection
between their variables turns one into the other. -/
theorem normalized_eq_iff (a b : Ty) :
    a.normalized = b.normalized ↔
      ∃ f : TyVar → TyVar, Set.BijOn f {v | v ∈ a.vars} {w | w ∈ b.vars} ∧ a.rename f = b := by
  constructor
  · intro h
    obtain ⟨π, rfl⟩ := exists_perm_of_numbered (normalized_eq_iff_numbered.mp h)
    exact ⟨π, bijOn_perm π a, rfl⟩
  · rintro ⟨f, hf, rfl⟩
    obtain ⟨π, hπ⟩ := exists_perm_of_injOn hf.injOn
    rw [hπ, normalized_rename π.injective]

end Ty

end SimpleTypes
