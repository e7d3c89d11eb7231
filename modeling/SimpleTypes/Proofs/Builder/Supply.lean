import Mathlib.Algebra.GroupWithZero.Nat
import Mathlib.Data.Finset.Card
import SimpleTypes.Proofs.Inference

/-!
# How much a term takes

Drafting a term takes as many type variables as it has variable occurrences,
applications and unused binders (`counter_after`), and adds one equation for
each application and one for each name free on both sides of it
(`length_added`). The variables handed out for the two sides of an application
are different. So every name in the context of a draft has a type variable of
its own (`distinct_draft`), and no name has the same type on both sides, which
would save an equation.

What holds of every node of a draft is not proved by an induction each time: a
node is the draft of a subterm, up to the unused binder that may be added to it
(`Part`).
-/

namespace SimpleTypes

variable {b : Builder} {term fn arg body : Term} {x : Name} {lo hi : Nat}

-- ---------------------------------------------------------------------------
-- Counting
-- ---------------------------------------------------------------------------

namespace Term

def subterms : Term → List Term
  | .var x => [.var x]
  | .abs x body => .abs x body :: body.subterms
  | .app fn arg => .app fn arg :: (fn.subterms ++ arg.subterms)

def isOccurrence : Term → Bool
  | .var _ => true
  | _ => false

def isApplication : Term → Bool
  | .app .. => true
  | _ => false

/-- An abstraction whose binder is not free in its body. -/
def isIdle : Term → Bool
  | .abs x body => decide (x ∉ body.freeVars)
  | _ => false

/-- The number of type variables that a term takes. -/
def supply (term : Term) : Nat :=
  term.subterms.countP isOccurrence + term.subterms.countP isApplication +
    term.subterms.countP isIdle

def shared (fn arg : Term) : Finset Name := fn.freeVars.toFinset ∩ arg.freeVars.toFinset

def demand : Term → Nat
  | .app fn arg => 1 + (shared fn arg).card
  | _ => 0

/-- The number of equations that a term adds. -/
def demands (term : Term) : Nat := (term.subterms.map demand).sum

theorem supply_app (fn arg : Term) : supply (.app fn arg) = fn.supply + arg.supply + 1 := by
  simp [supply, subterms, isOccurrence, isApplication, isIdle, List.countP_cons]
  omega

theorem supply_abs (x : Name) (body : Term) :
    supply (.abs x body) = body.supply + if x ∈ body.freeVars then 0 else 1 := by
  by_cases h : x ∈ body.freeVars <;>
    simp [supply, subterms, isOccurrence, isApplication, isIdle, h]
  omega

theorem demands_app (fn arg : Term) :
    demands (.app fn arg) = fn.demands + arg.demands + (1 + (shared fn arg).card) := by
  simp [demands, subterms, demand]
  omega

theorem demands_abs (x : Name) (body : Term) : demands (.abs x body) = body.demands := by
  simp [demands, subterms, demand]

theorem card_shared (fn arg : Term) :
    (shared fn arg).card = arg.freeVars.countP fun x => decide (x ∈ fn.freeVars) := by
  have hshared : shared fn arg =
      (arg.freeVars.filter fun x => decide (x ∈ fn.freeVars)).toFinset := by
    ext x
    simp [shared, and_comm]
  have hnodup : arg.freeVars.Nodup := arg.freeSet.nodup_keys
  rw [hshared, List.toFinset_card_of_nodup (hnodup.filter _), List.countP_eq_length_filter]

end Term

-- ---------------------------------------------------------------------------
-- Types of their own
-- ---------------------------------------------------------------------------

theorem Ty.exists_mem_leaves (ty : Ty) : ∃ v, v ∈ ty.leaves := by
  induction ty with
  | var v => exact ⟨v, List.mem_singleton_self v⟩
  | arrow a b iha _ =>
    obtain ⟨v, hv⟩ := iha
    exact ⟨v, List.mem_append_left _ hv⟩

theorem Ty.Within.ne {mid : Nat} {ty ty' : Ty} (h : ty.Within lo mid) (h' : ty'.Within mid hi) :
    ty ≠ ty' := by
  rintro rfl
  obtain ⟨v, hv⟩ := ty.exists_mem_leaves
  have hmid := (h v hv).2
  have hlt := (h' v hv).1
  omega

namespace Context

structure Distinct (ctx : Context) : Prop where
  isVar : ∀ x t, ctx.get? x = some t → ∃ v, t = .var v
  injective : ∀ x y t, ctx.get? x = some t → ctx.get? y = some t → x = y

theorem Distinct.insert_empty (x : Name) (v : TyVar) :
    Distinct (Table.empty.insert x (.var v)) := by
  have hname {y : Name} {t : Ty} (h : (Table.empty.insert x (Ty.var v)).get? y = some t) :
      y = x ∧ t = .var v := by
    by_cases hyx : y = x
    · exact ⟨hyx, by simpa [hyx, eq_comm] using h⟩
    · simp [hyx] at h
  refine ⟨fun y t ht => ⟨v, (hname ht).2⟩, ?_⟩
  intro y z t hy hz
  rw [(hname hy).1, (hname hz).1]

theorem Distinct.erase {ctx : Context} (h : Distinct ctx) (x : Name) : Distinct (ctx.erase x) := by
  have hname {y : Name} {t : Ty} (h : (ctx.erase x).get? y = some t) : ctx.get? y = some t := by
    by_cases hyx : y = x
    · simp [hyx] at h
    · simpa [hyx] using h
  exact ⟨fun y t ht => h.isVar y t (hname ht),
    fun y z t hy hz => h.injective y z t (hname hy) (hname hz)⟩

theorem Distinct.override {first second : Context} (hfirst : Distinct first)
    (hsecond : Distinct second)
    (hne : ∀ x y t t', first.get? x = some t → second.get? y = some t' → t ≠ t') :
    Distinct (second.override first) := by
  have hname {x : Name} {t : Ty} (h : (second.override first).get? x = some t) :
      first.get? x = some t ∨ second.get? x = some t := by
    rw [Table.get?_override, Option.or_eq_some_iff] at h
    exact h.imp_right And.right
  constructor
  · intro x t ht
    rcases hname ht with ht | ht
    · exact hfirst.isVar x t ht
    · exact hsecond.isVar x t ht
  · intro x y t hx hy
    rcases hname hx with hx | hx <;> rcases hname hy with hy | hy
    · exact hfirst.injective x y t hx hy
    · exact absurd rfl (hne x y t t hx hy)
    · exact absurd rfl (hne y x t t hy hx)
    · exact hsecond.injective x y t hx hy

theorem length_clashes {first second : Context}
    (h : ∀ x t, first.get? x = some t → second.get? x ≠ some t) :
    (clashes first second).length = second.keys.countP fun x => (first.get? x).isSome := by
  rw [clashes, List.length_filterMap_eq_countP, Table.keys, List.countP_map]
  refine List.countP_congr ?_
  rintro ⟨x, t'⟩ hmem
  have ht' := Table.get?_eq_some_iff.mpr hmem
  cases ht : first.get? x with
  | none => simp [ht]
  | some t =>
    have hne : t ≠ t' := by
      rintro rfl
      exact h x t ht ht'
    simp [ht, hne]

end Context

namespace Builder

theorem counter_after (b : Builder) (term : Term) :
    (b.after term).counter = b.counter + term.supply := by
  induction term generalizing b with
  | var x => rfl
  | app fn arg ihf iha =>
    rw [after_app, Term.supply_app]
    simp only [push, advance, iha, ihf]
    omega
  | abs x body ih =>
    have hfree : x ∈ body.freeVars ↔ ((b.draft body).context.get? x).isSome :=
      b.isSome_context_draft_iff.symm
    rw [Term.supply_abs]
    cases h : (b.draft body).context.get? x with
    | some param => simp [after_abs_of_some h, hfree, h, ih]
    | none => simp [after_abs_of_none h, hfree, h, advance, ih, Nat.add_assoc]

theorem ne_of_draft {y : Name} {t t' : Ty} (h : (b.draft fn).context.get? x = some t)
    (h' : ((b.after fn).draft arg).context.get? y = some t') : t ≠ t' :=
  ((b.fresh_draft fn).context x t h).ne (((b.after fn).fresh_draft arg).context y t' h')

theorem distinct_draft (b : Builder) (term : Term) : Context.Distinct (b.draft term).context := by
  induction term generalizing b with
  | var x => exact .insert_empty x (b.counter + 1)
  | app fn arg ihf iha =>
    rw [context_draft_app]
    exact (ihf b).override (iha (b.after fn)) fun x y t t' => ne_of_draft
  | abs x body ih =>
    rw [context_draft_abs]
    exact (ih b).erase x

theorem keys_draft (b : Builder) (term : Term) : (b.draft term).context.keys = term.freeVars :=
  Table.keys_eq_of_isSome (b.isSome_context_draft term)

theorem length_added (b : Builder) (term : Term) : (b.added term).length = term.demands := by
  induction term generalizing b with
  | var x => rfl
  | app fn arg ihf iha =>
    have hclashes : (Context.clashes (b.draft fn).context ((b.after fn).draft arg).context).length =
        (Term.shared fn arg).card := by
      rw [Context.length_clashes fun x t h h' => ne_of_draft h h' rfl, keys_draft,
        Term.card_shared]
      refine List.countP_congr ?_
      intro x _
      rw [isSome_context_draft_iff, decide_eq_true_iff]
    rw [added, Term.demands_app, List.length_append, List.length_append, ihf, iha, appEquations,
      List.length_cons, hclashes, Nat.add_comm 1]
  | abs x body ih => rw [added, Term.demands_abs, ih]

-- ---------------------------------------------------------------------------
-- The nodes of a draft
-- ---------------------------------------------------------------------------

/-- The derivation is drafted with variables handed out between two values of
the counter; one name may be added to its root. -/
def Part (lo hi : Nat) (d : Derivation) : Prop :=
  ∃ (b : Builder) (term : Term), lo ≤ b.counter ∧ (b.after term).counter ≤ hi ∧
    (d = b.draft term ∨ ∃ x ty, ty.Within lo hi ∧ d = (b.draft term).bind x ty)

theorem Part.mono {lo' hi' : Nat} {d : Derivation} (h : Part lo hi d) (hlo : lo' ≤ lo)
    (hhi : hi ≤ hi') : Part lo' hi' d := by
  obtain ⟨b, term, hb, hterm, hd⟩ := h
  refine ⟨b, term, Nat.le_trans hlo hb, Nat.le_trans hterm hhi, hd.imp_right ?_⟩
  rintro ⟨x, ty, hty, rfl⟩
  exact ⟨x, ty, hty.mono hlo hhi, rfl⟩

theorem mem_nodesAt_bind {d : Derivation} {ty : Ty} {depth : Nat} {node : Nat × Derivation}
    (h : node ∈ (d.bind x ty).nodesAt depth) :
    node = (depth, d.bind x ty) ∨ node ∈ d.nodesAt depth := by
  cases d with
  | var c y => exact .inl (List.mem_singleton.mp h)
  | app c f a => exact (List.mem_cons.mp h).imp_right (List.mem_cons_of_mem _)
  | abs c y d => exact (List.mem_cons.mp h).imp_right (List.mem_cons_of_mem _)

theorem part_draft (b : Builder) (term : Term) :
    Part b.counter (b.after term).counter (b.draft term) :=
  ⟨b, term, Nat.le_refl _, Nat.le_refl _, .inl rfl⟩

theorem part_of_mem {depth : Nat} {node : Nat × Derivation}
    (h : node ∈ (b.draft term).nodesAt depth) :
    Part b.counter (b.after term).counter node.2 := by
  -- The root is a part of itself; every other node is a node of a smaller draft.
  induction term generalizing b depth with
  | var x =>
    obtain rfl := List.mem_singleton.mp h
    exact b.part_draft (.var x)
  | app fn arg ihf iha =>
    have hfn := (b.fresh_draft fn).le
    have harg := ((b.after fn).fresh_draft arg).le
    have hlast : ((b.after fn).after arg).counter ≤ (b.after (.app fn arg)).counter :=
      Nat.le_succ _
    rcases List.mem_cons.mp h with rfl | h
    · exact b.part_draft (.app fn arg)
    · rcases List.mem_append.mp h with h | h
      · exact (ihf h).mono (Nat.le_refl _) (Nat.le_trans harg hlast)
      · exact (iha h).mono hfn hlast
  | abs x body ih =>
    have hroot := b.part_draft (.abs x body)
    cases hx : (b.draft body).context.get? x with
    | some param =>
      rw [draft_abs_of_some hx, after_abs_of_some hx] at hroot
      rw [draft_abs_of_some hx] at h
      rw [after_abs_of_some hx]
      rcases List.mem_cons.mp h with rfl | h
      · exact hroot
      · exact ih h
    | none =>
      have hparam := within_freshTy (b.fresh_draft body).le
      rw [draft_abs_of_none hx, after_abs_of_none hx] at hroot
      rw [draft_abs_of_none hx] at h
      rw [after_abs_of_none hx]
      rcases List.mem_cons.mp h with rfl | h
      · exact hroot
      · rcases mem_nodesAt_bind h with rfl | h
        · exact ⟨b, body, Nat.le_refl _, Nat.le_succ _, .inr ⟨x, _, hparam, rfl⟩⟩
        · exact (ih h).mono (Nat.le_refl _) (Nat.le_succ _)

theorem Part.within {d : Derivation} (h : Part lo hi d) :
    d.ty.Within lo hi ∧ ∀ x t, d.context.get? x = some t → t.Within lo hi := by
  obtain ⟨b, term, hlo, hhi, hd⟩ := h
  have hfresh := b.fresh_draft term
  have hty := hfresh.ty.mono hlo hhi
  have hcontext (x : Name) (t : Ty) (h : (b.draft term).context.get? x = some t) :
      t.Within lo hi := (hfresh.context x t h).mono hlo hhi
  rcases hd with rfl | ⟨x, ty, hbound, rfl⟩
  · exact ⟨hty, hcontext⟩
  · refine ⟨by rwa [Derivation.ty_bind], ?_⟩
    intro y t ht
    rw [Derivation.context_bind, Table.get?_insert] at ht
    split at ht
    · cases ht
      exact hbound
    · exact hcontext y t ht

theorem Part.ne_of_app {c : Judgement} {f a : Derivation} {t : Ty} (h : Part lo hi (.app c f a))
    (ht : f.context.get? x = some t) : a.context.get? x ≠ some t := by
  obtain ⟨b, term, -, -, hd⟩ := h
  have hpremises : ∃ fn arg, f = b.draft fn ∧ a = (b.after fn).draft arg := by
    cases term with
    | var y => rcases hd with hd | ⟨y, ty, -, hd⟩ <;> cases hd
    | app fn arg =>
      rw [draft_app] at hd
      rcases hd with hd | ⟨y, ty, -, hd⟩ <;> cases hd <;> exact ⟨fn, arg, rfl, rfl⟩
    | abs y body =>
      cases hy : (b.draft body).context.get? y with
      | some param =>
        rw [draft_abs_of_some hy] at hd
        rcases hd with hd | ⟨y, ty, -, hd⟩ <;> cases hd
      | none =>
        rw [draft_abs_of_none hy] at hd
        rcases hd with hd | ⟨y, ty, -, hd⟩ <;> cases hd
  obtain ⟨fn, arg, rfl, rfl⟩ := hpremises
  intro ht'
  exact ne_of_draft ht ht' rfl

/-- The counter goes up by what the term takes, and everything new is between
its old and its new value: in the equations, which are as many as the term
demands and unmarked, and at every node of the draft. The free names have type
variables of their own, and no application finds a name with one type on both
sides. -/
theorem build_supply (b : Builder) (term : Term) :
    let draft := (b.build term).1
    let last := b.counter + term.supply
    (b.build term).2.counter = last ∧
    (∀ node ∈ draft.nodes, node.2.ty.Within b.counter last ∧
      ∀ x t, node.2.context.get? x = some t → t.Within b.counter last) ∧
    draft.context.keys = term.freeVars ∧ Context.Distinct draft.context ∧
    (∃ added : List Equation, (b.build term).2.equations = b.equations ++ added ∧
      added.length = term.demands ∧ ∀ e ∈ added, e.used = false ∧ e.deleted = false ∧
        e.left.Within b.counter last ∧ e.right.Within b.counter last) ∧
    (∀ depth c fn arg, (depth, .app c fn arg) ∈ draft.nodes →
      ∀ x t, fn.context.get? x = some t → arg.context.get? x ≠ some t) ∧
    draft.term = term := by
  intro draft last
  have hlast : (b.after term).counter = last := b.counter_after term
  refine ⟨hlast, ?_, b.keys_draft term, b.distinct_draft term, ?_, ?_, b.term_build term⟩
  · intro node hnode
    exact hlast ▸ (part_of_mem hnode).within
  · refine ⟨b.added term, b.equations_after term, b.length_added term, ?_⟩
    intro e he
    obtain ⟨hused, hdeleted⟩ := unmarked_added b term he
    exact ⟨hused, hdeleted, hlast ▸ (b.fresh_draft term).equations e he⟩
  · intro depth c fn arg hnode x t
    exact (part_of_mem hnode).ne_of_app

/-- A builder that is in use; `x` is bound in the function and free in the
argument, `f` is free in both, and `y` is not used. -/
theorem build_supply_shadowed :
    let b : Builder := ⟨7, [{ left := .var 1, right := .var 2 }]⟩
    let fn : Term := .abs "x" (.abs "y" (.app (.var "x") (.var "f")))
    let arg : Term := .app (.var "f") (.var "x")
    let draft := (b.build (.app fn arg)).1
    (b.build (.app fn arg)).2.counter = 15 ∧ draft.ty.Within 7 15 ∧
      draft.context.keys = ["f", "x"] ∧ (b.build (.app fn arg)).2.equations.length = 5 ∧
      (b.draft fn).context.get? "f" = some (.var 9) ∧
      ((b.after fn).draft arg).context.get? "f" ≠ some (.var 9) := by
  intro b fn arg draft
  obtain ⟨hcounter, hnodes, hkeys, -, ⟨added, hadded, hlength, -⟩, hne, -⟩ :=
    build_supply b (.app fn arg)
  have hsupply : Term.supply (.app fn arg) = 8 := by decide
  have hdemands : Term.demands (.app fn arg) = 4 := by decide
  have hroot : (0, draft) ∈ draft.nodes := List.mem_cons_self
  have hf : (b.draft fn).context.get? "f" = some (.var 9) := by decide
  rw [hsupply] at hcounter hnodes
  refine ⟨hcounter, (hnodes _ hroot).1, hkeys.trans (by decide), ?_, hf, hne 0 _ _ _ hroot "f" _ hf⟩
  rw [hadded, List.length_append, hlength, hdemands]
  rfl

end Builder

end SimpleTypes
