import SimpleTypes.Substitution

/-!
# Typing derivations

A derivation is the tree of a term with a context and a type at every node.
Before its equations are solved it is a draft: the context of a node has the
names free in its term, and types are still to be substituted. `resolve` does
that and completes every context by what encloses the node.

A derivation is printed with one line for each node, premises below their
conclusion and indented by one step more.
-/

namespace SimpleTypes

structure Judgement where
  context : Context
  ty : Ty
  deriving DecidableEq

inductive Derivation where
  | var (conclusion : Judgement) (name : Name)
  | app (conclusion : Judgement) (fn arg : Derivation)
  | abs (conclusion : Judgement) (binder : Name) (body : Derivation)
  deriving DecidableEq

/-- The rule a node is an instance of. -/
inductive TypingRule where
  | var
  | app
  | abs
  deriving DecidableEq, Repr, Inhabited

def TypingRule.number : TypingRule → Nat
  | .var => 1
  | .app => 2
  | .abs => 3

def TypingRule.render (rule : TypingRule) : String := "[rule #" ++ rule.number.repr ++ "]"

def Context.renderEntry (entry : Name × Ty) : String := entry.1 ++ " : " ++ entry.2.render

/-- The bindings in order, and a blank behind them if there are any. -/
def Context.render (ctx : Context) : String :=
  if ctx.isEmpty then ""
  else ", ".intercalate (ctx.entries.map Context.renderEntry) ++ " "

namespace Derivation

def conclusion : Derivation → Judgement
  | .var conclusion _ => conclusion
  | .app conclusion _ _ => conclusion
  | .abs conclusion _ _ => conclusion

def context (d : Derivation) : Context := d.conclusion.context

def ty (d : Derivation) : Ty := d.conclusion.ty

def rule : Derivation → TypingRule
  | .var .. => .var
  | .app .. => .app
  | .abs .. => .abs

def term : Derivation → Term
  | .var _ name => .var name
  | .app _ fn arg => .app fn.term arg.term
  | .abs _ binder body => .abs binder body.term

/-- Gives one more name a type at the root. -/
def bind (name : Name) (ty : Ty) : Derivation → Derivation
  | .var c x => .var { c with context := c.context.insert name ty } x
  | .app c fn arg => .app { c with context := c.context.insert name ty } fn arg
  | .abs c binder body => .abs { c with context := c.context.insert name ty } binder body

/-- The nodes with their depths, each before its premises. -/
def nodesAt (depth : Nat) : Derivation → List (Nat × Derivation)
  | .var c x => [(depth, .var c x)]
  | .app c fn arg => (depth, .app c fn arg) :: (fn.nodesAt (depth + 1) ++ arg.nodesAt (depth + 1))
  | .abs c x body => (depth, .abs c x body) :: body.nodesAt (depth + 1)

def nodes (d : Derivation) : List (Nat × Derivation) := d.nodesAt 0

def rules (d : Derivation) : List TypingRule := d.nodes.map (·.2.rule)

end Derivation

-- ---------------------------------------------------------------------------
-- Resolving
-- ---------------------------------------------------------------------------

/-- Applies a substitution; the bindings of the node itself win over those
that enclose it. -/
def Judgement.resolve (σ : Substitution) (inherited : Context) (j : Judgement) : Judgement where
  context := inherited.override (σ.applyContext j.context)
  ty := σ.apply j.ty

namespace Derivation

def resolveUnder (σ : Substitution) (inherited : Context) : Derivation → Derivation
  | .var c x => .var (c.resolve σ inherited) x
  | .app c fn arg =>
    let c' := c.resolve σ inherited
    .app c' (fn.resolveUnder σ c'.context) (arg.resolveUnder σ c'.context)
  | .abs c x body =>
    let c' := c.resolve σ inherited
    .abs c' x (body.resolveUnder σ c'.context)

def resolve (σ : Substitution) (d : Derivation) : Derivation := d.resolveUnder σ Table.empty

-- ---------------------------------------------------------------------------
-- Printing
-- ---------------------------------------------------------------------------

/-- The conclusion of the root without indentation. -/
def renderConclusion (d : Derivation) : String :=
  Context.render d.context ++ "|- " ++ d.term.render ++ " : " ++ d.ty.render ++ " " ++
    d.rule.render

def indent (depth : Nat) : String := String.join (List.replicate depth "*   ")

/-- The conclusion of the root, indented by its depth. -/
def renderLine (depth : Nat) (d : Derivation) : String := indent depth ++ d.renderConclusion

def lines (d : Derivation) : List String := d.nodes.map fun node => node.2.renderLine node.1

/-- The text of a derivation whose root is at a depth, printed on the way
through the tree. -/
def renderAt (depth : Nat) : Derivation → String
  | .var c x => renderLine depth (.var c x) ++ "\n"
  | .app c fn arg =>
    renderLine depth (.app c fn arg) ++ "\n" ++ fn.renderAt (depth + 1) ++ arg.renderAt (depth + 1)
  | .abs c x body => renderLine depth (.abs c x body) ++ "\n" ++ body.renderAt (depth + 1)

def render (d : Derivation) : String := d.renderAt 0

@[simp] theorem term_resolveUnder (σ : Substitution) (inherited : Context) (d : Derivation) :
    (d.resolveUnder σ inherited).term = d.term := by
  induction d generalizing inherited with
  | var => rfl
  | app c fn arg ihf iha => simp [resolveUnder, term, ihf, iha]
  | abs c x body ih => simp [resolveUnder, term, ih]

@[simp] theorem term_resolve (σ : Substitution) (d : Derivation) :
    (d.resolve σ).term = d.term :=
  term_resolveUnder σ Table.empty d

@[simp] theorem term_bind (name : Name) (ty : Ty) (d : Derivation) :
    (d.bind name ty).term = d.term := by
  cases d <;> rfl

end Derivation

end SimpleTypes
