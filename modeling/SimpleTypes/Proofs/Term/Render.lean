import SimpleTypes.Proofs.Term.Reader

/-!
# Printing and reading are inverse

The tokens of a printed term are an atom of the grammar (`atom_tokens`), and
its text spells them if all its names are identifiers (`spells_render`). A
term that was read has identifiers for names (`isIdentifier_of_parse`), so a
term with any other name is not read from its own text, nor from another.
-/

namespace SimpleTypes

open Grammar

namespace Term

def names : Term → List Name
  | .var x => [x]
  | .abs x body => x :: body.names
  | .app fn arg => fn.names ++ arg.names

def tokens : Term → List Token
  | .var x => [.var x]
  | .abs x body => .leftParen :: (.lambda :: .var x :: .dot :: body.tokens) ++ [.rightParen]
  | .app fn arg => .leftParen :: (fn.tokens ++ arg.tokens) ++ [.rightParen]

theorem atom_tokens (term : Term) : Atom term.tokens term := by
  induction term with
  | var x => exact .var x
  | abs x body ih => exact .group (.abstraction (.spine (.atom ih)))
  | app fn arg ihf iha => exact .group (.spine (.app (.atom ihf) iha))

theorem spine_foldl {front : List Token} {fn : Term} (h : Spine front fn) (args : List Term) :
    Spine (front ++ args.flatMap tokens) (args.foldl .app fn) := by
  induction args generalizing front fn with
  | nil => simpa using h
  | cons arg args ih => simpa using ih (.app h arg.atom_tokens)

-- ---------------------------------------------------------------------------
-- Printed terms are read back
-- ---------------------------------------------------------------------------

variable {chars : List Char} {ts : List Token}

theorem spells_render {term : Term} (hnames : ∀ x ∈ term.names, x.isIdentifier = true)
    (hend : EndsName chars) (h : Spells chars ts) :
    Spells (term.render.toList ++ chars) (term.tokens ++ ts) := by
  induction term generalizing chars ts with
  | var x => exact .name (hnames x List.mem_cons_self) hend h
  | abs x body ih =>
    obtain ⟨hx, hnames⟩ := List.forall_mem_cons.mp hnames
    -- From the right: the body ends at a parenthesis and the binder at a dot.
    have hbody := ih hnames (.cons (by decide)) (.symbol (c := ')') rfl h)
    have hbinder := Spells.name hx (.cons (by decide)) (.symbol (c := '.') rfl hbody)
    simpa [render, renderBinder, tokens] using
      Spells.symbol (c := '(') rfl (.symbol (c := '\\') rfl hbinder)
  | app fn arg ihf iha =>
    obtain ⟨hfn, harg⟩ := List.forall_mem_append.mp hnames
    have hargument := iha harg (.cons (by decide)) (.symbol (c := ')') rfl h)
    have hfunction := ihf hfn (.cons (by decide)) (.blank (c := ' ') rfl hargument)
    simpa [render, tokens] using Spells.symbol (c := '(') rfl hfunction

theorem spells_intercalate {first : Term} {rest : List Term}
    (h : ∀ term ∈ first :: rest, ∀ x ∈ term.names, x.isIdentifier = true) :
    Spells (" ".intercalate ((first :: rest).map render)).toList
      ((first :: rest).flatMap tokens) := by
  induction rest generalizing first with
  | nil => simpa using spells_render (h first List.mem_cons_self) .nil .nil
  | cons second rest ih =>
    obtain ⟨hfirst, hrest⟩ := List.forall_mem_cons.mp h
    simpa using spells_render hfirst (.cons (by decide)) (.blank (c := ' ') rfl (ih hrest))

theorem parse_intercalate {first : Term} {rest : List Term}
    (h : ∀ term ∈ first :: rest, ∀ x ∈ term.names, x.isIdentifier = true) :
    parse (" ".intercalate ((first :: rest).map render)) = .ok (rest.foldl .app first) := by
  obtain ⟨placed, hplaced, htokens⟩ := spells_intercalate h 0
  refine parse_eq_ok_iff.mpr ⟨placed, hplaced, ?_⟩
  rw [htokens, List.flatMap_cons]
  exact .spine (spine_foldl (.atom first.atom_tokens) rest)

end Term

-- ---------------------------------------------------------------------------
-- Terms that are read have identifiers for names
-- ---------------------------------------------------------------------------

namespace Grammar

variable {x : Name}

mutual

theorem Expression.var_mem : ∀ {tokens term}, Expression tokens term → x ∈ term.names →
    .var x ∈ tokens
  | _, _, .abstraction hbody, hx => by
    rcases List.mem_cons.mp hx with rfl | hx
    · simp
    · simp [hbody.var_mem hx]
  | _, _, .spine hspine, hx => hspine.var_mem hx
  | _, _, .applied hspine hbody, hx => by
    rcases List.mem_append.mp hx with hx | hx
    · simp [hspine.var_mem hx]
    · rcases List.mem_cons.mp hx with rfl | hx
      · simp
      · simp [hbody.var_mem hx]

theorem Spine.var_mem : ∀ {tokens term}, Spine tokens term → x ∈ term.names → .var x ∈ tokens
  | _, _, .atom hatom, hx => hatom.var_mem hx
  | _, _, .app hspine hatom, hx => by
    rcases List.mem_append.mp hx with hx | hx
    · simp [hspine.var_mem hx]
    · simp [hatom.var_mem hx]

theorem Atom.var_mem : ∀ {tokens term}, Atom tokens term → x ∈ term.names → .var x ∈ tokens
  | _, _, .var y, hx => by simpa [Term.names] using hx
  | _, _, .group hinner, hx => by simp [hinner.var_mem hx]

end

end Grammar

namespace Term

variable {x : Name}

theorem isIdentifier_of_parse {text : String} {term : Term} (h : parse text = .ok term)
    (hx : x ∈ term.names) : x.isIdentifier = true := by
  obtain ⟨placed, hplaced, hexpression⟩ := parse_eq_ok_iff.mp h
  obtain ⟨⟨_, position⟩, hmem, rfl⟩ := List.mem_map.mp (hexpression.var_mem hx)
  have hreading : .token (.var x) position ∈ (Lexer.ofString text).readings := by
    rw [hplaced]
    exact List.mem_map.mpr ⟨_, hmem, rfl⟩
  cases Lexer.of_mem_readings_ofString hreading with
  | symbol hat hsymbol => simpa using Token.ofSymbol?_eq_some_iff.mp hsymbol
  | name hat hname => exact hname

theorem mem_names_foldl {first : Term} {rest : List Term} :
    x ∈ (rest.foldl app first).names ↔ ∃ term ∈ first :: rest, x ∈ term.names := by
  induction rest generalizing first with
  | nil => simp
  | cons second rest ih =>
    rw [List.foldl_cons, ih]
    simp [names, or_assoc]

/-- Terms printed side by side are read as one spine, exactly if their names can
be written; so a term that was read can be printed and read again. -/
theorem parse_render_iff :
    (∀ first rest, parse (" ".intercalate ((first :: rest).map render)) =
      .ok (rest.foldl app first) ↔
        ∀ term ∈ first :: rest, ∀ x ∈ term.names, x.isIdentifier = true) ∧
    (∀ term, parse term.render = .ok term ↔ ∀ x ∈ term.names, x.isIdentifier = true) ∧
      ∀ text term, parse text = .ok term → parse term.render = .ok term := by
  have hspine (first : Term) (rest : List Term) :
      parse (" ".intercalate ((first :: rest).map render)) = .ok (rest.foldl app first) ↔
        ∀ term ∈ first :: rest, ∀ x ∈ term.names, x.isIdentifier = true := by
    refine ⟨?_, parse_intercalate⟩
    intro h term hterm x hx
    exact isIdentifier_of_parse h (mem_names_foldl.mpr ⟨term, hterm, hx⟩)
  have hone (term : Term) :
      parse term.render = .ok term ↔ ∀ x ∈ term.names, x.isIdentifier = true := by
    simpa using hspine term []
  refine ⟨hspine, hone, ?_⟩
  intro text term h
  exact (hone term).mpr fun x hx => isIdentifier_of_parse h hx

/-- Three terms side by side; a term with a blank in a name; and a term that was
read from a text with fewer parentheses than it is printed with. -/
theorem parse_render_iff_names :
    parse "f (\\x'.(x' y)) z2" =
      .ok (.app (.app (.var "f") (.abs "x'" (.app (.var "x'") (.var "y")))) (.var "z2")) ∧
    parse "(\\x.x y)" ≠ .ok (.abs "x" (.var "x y")) ∧
    parse "f \\x.x" = .ok (.app (.var "f") (.abs "x" (.var "x"))) ∧
    parse "(f (\\x.x))" = .ok (.app (.var "f") (.abs "x" (.var "x"))) := by
  have hspine : " ".intercalate ([.var "f", .abs "x'" (.app (.var "x'") (.var "y")),
      .var "z2"].map render) = "f (\\x'.(x' y)) z2" := by decide
  have hblank : render (.abs "x" (.var "x y")) = "(\\x.x y)" := by decide
  have hprint : render (.app (.var "f") (.abs "x" (.var "x"))) = "(f (\\x.x))" := by decide
  have hread : parse "f \\x.x" = .ok (.app (.var "f") (.abs "x" (.var "x"))) := by cbv
  rw [← hspine, ← hblank, ← hprint]
  refine ⟨(parse_render_iff.1 _ _).mpr (by decide), ?_, hread, parse_render_iff.2.2 _ _ hread⟩
  intro h
  exact absurd ((parse_render_iff.2.1 _).mp h) (by decide)

end Term

end SimpleTypes
