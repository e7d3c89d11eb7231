import Mathlib.Data.List.Forall2
import SimpleTypes.Proofs.Inference
import SimpleTypes.Proofs.Text.Lines

/-!
# The listing of a derivation follows its term

A derivation is listed by walking through its tree; the term says by itself
what has to be listed, site by site (`Term.sites`). The two agree for every
substitution, also for one that solves nothing (`shown_draft`): each line stands
for one site, in the order of the sites, and its context has the names that are
free in the whole term or bound around the site.

For the draft alone this is not so. There a node has only its own free names;
the others are inherited when the draft is resolved, and a binder that is not
used is put into the context of the body when it is drafted.
-/

namespace SimpleTypes

namespace Term

/-- A subterm at its place. -/
structure Site where
  /-- The number of nodes above it. -/
  depth : Nat
  /-- The binders of the abstractions around it, innermost first. -/
  binders : List Name
  term : Term

/-- The sites of a term, each before those inside it, the function of an
application before its argument. -/
def sitesUnder (depth : Nat) (binders : List Name) : Term → List Site
  | .var x => [⟨depth, binders, .var x⟩]
  | .app fn arg =>
    ⟨depth, binders, .app fn arg⟩ ::
      (fn.sitesUnder (depth + 1) binders ++ arg.sitesUnder (depth + 1) binders)
  | .abs x body => ⟨depth, binders, .abs x body⟩ :: body.sitesUnder (depth + 1) (x :: binders)

def sites (term : Term) : List Site := term.sitesUnder 0 []

def rule : Term → TypingRule
  | .var _ => .var
  | .app .. => .app
  | .abs .. => .abs

end Term

open Term (Site FreeIn)

variable {b : Builder} {σ : Substitution} {inherited : Context} {free binders : List Name}
  {term : Term} {depth : Nat}

theorem Derivation.rule_eq (d : Derivation) : d.rule = d.term.rule := by
  cases d <;> rfl

-- ---------------------------------------------------------------------------
-- Names in contexts
-- ---------------------------------------------------------------------------

theorem Builder.mem_keys_resolveUnder {x : Name} :
    x ∈ ((b.draft term).resolveUnder σ inherited).context.keys ↔
      x ∈ inherited.keys ∨ FreeIn x term := by
  rw [Derivation.context_resolveUnder, Table.mem_keys_iff, Table.get?_override, Option.isSome_or,
    Substitution.get?_applyContext, Option.isSome_map, Bool.or_eq_true, isSome_context_draft_iff,
    Term.mem_freeVars_iff, ← Table.mem_keys_iff, or_comm]

-- ---------------------------------------------------------------------------
-- One node for each site
-- ---------------------------------------------------------------------------

/-- The node shows the site of a term that has these free names. -/
structure Term.Site.Shown (free : List Name) (site : Site) (node : Nat × Derivation) : Prop where
  depth : node.1 = site.depth
  term : node.2.term = site.term
  names : ∀ x, x ∈ node.2.context.keys ↔ x ∈ free ∨ x ∈ site.binders

theorem shown_root (h : ∀ x, x ∈ inherited.keys ∨ FreeIn x term ↔ x ∈ free ∨ x ∈ binders) :
    Site.Shown free ⟨depth, binders, term⟩ (depth, (b.draft term).resolveUnder σ inherited) where
  depth := rfl
  term := (Derivation.term_resolveUnder ..).trans (b.term_build term)
  names x := Builder.mem_keys_resolveUnder.trans (h x)

theorem shown_draft (h : ∀ x, x ∈ inherited.keys ∨ FreeIn x term ↔ x ∈ free ∨ x ∈ binders) :
    List.Forall₂ (Site.Shown free) (term.sitesUnder depth binders)
      (((b.draft term).resolveUnder σ inherited).nodesAt depth) := by
  induction term generalizing b inherited depth binders with
  | var y => exact .cons (shown_root h) .nil
  | app fn arg ihf iha =>
    have hroot : Site.Shown free ⟨depth, binders, .app fn arg⟩
        (depth, (b.draft (.app fn arg)).resolveUnder σ inherited) := shown_root h
    -- The premises inherit all names of the root, and have no others.
    refine .cons hroot (List.rel_append (ihf fun x => ?_) (iha fun x => ?_))
    · refine (or_congr_left (hroot.names x)).trans (or_iff_left_of_imp ?_)
      exact fun hx => (h x).mp (.inr (.fn hx))
    · refine (or_congr_left (hroot.names x)).trans (or_iff_left_of_imp ?_)
      exact fun hx => (h x).mp (.inr (.arg hx))
  | abs y body ih =>
    have hroot : Site.Shown free ⟨depth, binders, .abs y body⟩
        (depth, (b.draft (.abs y body)).resolveUnder σ inherited) := shown_root h
    have hscope (x : Name) : (x = y ∨ x ∈ free ∨ x ∈ binders) ∨ FreeIn x body ↔
        x ∈ free ∨ x ∈ y :: binders := by
      rw [List.mem_cons, or_left_comm]
      refine or_iff_left_of_imp fun hx => ?_
      by_cases hxy : x = y
      · exact .inr (.inl hxy)
      · exact ((h x).mp (.inr (.abs hxy hx))).imp_right .inr
    cases hy : (b.draft body).context.get? y with
    | some param =>
      have hfree : FreeIn y body :=
        Term.mem_freeVars_iff.mp (b.isSome_context_draft_iff.mp (by rw [hy]; rfl))
      rw [Builder.draft_abs_of_some hy] at hroot ⊢
      refine .cons hroot (ih fun x => (or_congr_left (hroot.names x)).trans ?_)
      rw [← hscope]
      constructor
      · exact Or.imp_left .inr
      · rintro ((rfl | hx) | hx)
        · exact .inr hfree
        · exact .inl hx
        · exact .inr hx
    | none =>
      rw [Builder.draft_abs_of_none hy] at hroot ⊢
      refine .cons hroot ?_
      rw [Derivation.resolveUnder_bind hy]
      refine ih fun x => ?_
      rw [Table.mem_keys_insert, ← hscope]
      exact or_congr_left (or_congr_right (hroot.names x))

-- ---------------------------------------------------------------------------
-- The lines and the text
-- ---------------------------------------------------------------------------

theorem Derivation.renderAt_eq (depth : Nat) (d : Derivation) :
    d.renderAt depth =
      Text.unlines ((d.nodesAt depth).map fun node => node.2.renderLine node.1) := by
  induction d generalizing depth with
  | var c x => simp [renderAt, nodesAt, Text.unlines]
  | app c fn arg ihf iha =>
    rw [renderAt, nodesAt, List.map_cons, List.map_append, Text.unlines_cons, Text.unlines_append,
      ihf, iha, String.append_assoc]
  | abs c x body ih => rw [renderAt, nodesAt, List.map_cons, Text.unlines_cons, ih]

theorem Context.render_eq (ctx : Context) :
    Context.render ctx =
      if ctx.entries = [] then ""
      else ", ".intercalate (ctx.entries.map fun entry => entry.1 ++ " : " ++ entry.2.render) ++
        " " := by
  rw [Context.render, Table.isEmpty]
  simp only [List.isEmpty_iff]
  rfl

/-- The node and the line stand for the site. The line is indented by the depth
and shows the names in scope, in order and with the types that the node gives
them, the subterm, its type and the number of its rule. -/
structure Term.Site.Listed (whole : Term) (site : Site) (entry : (Nat × Derivation) × String) :
    Prop where
  depth : entry.1.1 = site.depth
  term : entry.1.2.term = site.term
  increasing : entry.1.2.context.keys.Pairwise fun x y => compare x y = .lt
  names : ∀ x, x ∈ entry.1.2.context.keys ↔ x ∈ whole.freeVars ∨ x ∈ site.binders
  line : entry.2 = String.join (List.replicate site.depth "*   ") ++
    ((if entry.1.2.context.entries = [] then ""
      else ", ".intercalate
        (entry.1.2.context.entries.map fun binding => binding.1 ++ " : " ++ binding.2.render) ++
          " ") ++
      "|- " ++ site.term.render ++ " : " ++ entry.1.2.ty.render ++
        " [rule #" ++ site.term.rule.number.repr ++ "]")

theorem Term.Site.Shown.listed {site : Site} {node : Nat × Derivation}
    (h : site.Shown term.freeVars node) :
    site.Listed term (node, node.2.renderLine node.1) where
  depth := h.depth
  term := h.term
  increasing := List.pairwise_map.mpr node.2.context.increasing
  names := h.names
  line := by
    have hblank : " [rule #" = " " ++ "[rule #" := by decide
    rw [Derivation.renderLine, Derivation.renderConclusion, Derivation.rule_eq, h.term, hblank,
      ← Context.render_eq, ← h.depth]
    simp only [Derivation.indent, TypingRule.render, String.append_assoc]

theorem Derivation.zip_lines (d : Derivation) :
    d.nodes.zip d.lines = d.nodes.map fun node => (node, node.2.renderLine node.1) := by
  have hzip : (d.nodes.map id).zip d.lines =
      d.nodes.map fun node => (id node, node.2.renderLine node.1) := List.zip_map'
  rwa [List.map_id] at hzip

/-- Whatever is substituted, the nodes and the lines stand for the sites of the
term one by one, and the text is the lines with a line feed after each. -/
theorem lines_listed (b : Builder) (term : Term) (σ : Substitution) :
    let d := (b.build term).1.resolve σ
    d.lines.length = d.nodes.length ∧
      List.Forall₂ (Site.Listed term) term.sites (d.nodes.zip d.lines) ∧
      d.render = Text.unlines d.lines := by
  intro d
  have hshown : List.Forall₂ (Site.Shown term.freeVars) term.sites d.nodes := by
    refine shown_draft fun x => ?_
    simp [Term.mem_freeVars_iff, Table.keys, Table.empty]
  refine ⟨List.length_map .., ?_, Derivation.renderAt_eq 0 d⟩
  rw [Derivation.zip_lines, List.forall₂_map_right_iff]
  exact hshown.imp fun site node h => h.listed

-- The binder is not used, and is in the context of the body all the same.
example : ((Builder.build {} (.abs "y" (.var "x"))).1.resolve Table.empty).lines =
    ["x : t1 |- (\\y.x) : (t2 -> t1) [rule #3]", "*   x : t1, y : t2 |- x : t1 [rule #1]"] := by
  decide

end SimpleTypes
