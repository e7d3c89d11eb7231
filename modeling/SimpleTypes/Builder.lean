import SimpleTypes.Derivation

/-!
# Collecting equations

A builder walks a term bottom-up. Every variable occurrence, every application
and every binder that is not used gets a new type variable; every application
adds one equation for its function, and one for each name free on both of its
sides.
-/

namespace SimpleTypes

/-- The equations that make the names shared by both contexts agree, in the
order of the names. Names that agree already need none. -/
def Context.clashes (fn arg : Context) : List Equation :=
  arg.entries.filterMap fun entry =>
    match fn.get? entry.1 with
    | some ty => if ty = entry.2 then none else some { left := ty, right := entry.2 }
    | none => none

/-- The number of the last type variable handed out, and the equations so far. -/
structure Builder where
  counter : Nat := 0
  equations : List Equation := []
  deriving DecidableEq, Repr, Inhabited

namespace Builder

/-- The next type variable. -/
def freshTy (b : Builder) : Ty := .var (b.counter + 1)

def advance (b : Builder) : Builder := { b with counter := b.counter + 1 }

def push (b : Builder) (equations : List Equation) : Builder :=
  { b with equations := b.equations ++ equations }

/-- Hands out a new type variable. -/
def fresh (b : Builder) : Ty × Builder := (b.freshTy, b.advance)

/-- Hands over the equations and keeps the counter. -/
def takeEquations (b : Builder) : List Equation × Builder :=
  (b.equations, { b with equations := [] })

def reset (_ : Builder) : Builder := {}

/-- The conclusion of a variable occurrence. -/
def varConclusion (x : Name) (ty : Ty) : Judgement := ⟨Table.empty.insert x ty, ty⟩

/-- The conclusion of an application whose type is `ty`. A name free on both
sides keeps the type it has in the function. -/
def appConclusion (fn arg : Derivation) (ty : Ty) : Judgement :=
  ⟨arg.context.override fn.context, ty⟩

/-- The conclusion of an abstraction whose parameter has type `param`. -/
def absConclusion (x : Name) (param : Ty) (body : Derivation) : Judgement :=
  ⟨body.context.erase x, .arrow param body.ty⟩

def appEquations (fn arg : Derivation) (ty : Ty) : List Equation :=
  { left := fn.ty, right := .arrow arg.ty ty } :: Context.clashes fn.context arg.context

/-- Drafts the derivation of a term. -/
def build (b : Builder) : Term → Derivation × Builder
  | .var x => (.var (varConclusion x b.freshTy) x, b.advance)
  | .app fn arg =>
    let (fn, b) := b.build fn
    let (arg, b) := b.build arg
    (.app (appConclusion fn arg b.freshTy) fn arg,
      b.advance.push (appEquations fn arg b.freshTy))
  | .abs x body =>
    let (body, b) := b.build body
    match body.context.get? x with
    | some param => (.abs (absConclusion x param body) x body, b)
    | none => (.abs (absConclusion x b.freshTy body) x (body.bind x b.freshTy), b.advance)

/-- The draft has the shape of the term. -/
@[simp] theorem term_build (b : Builder) (term : Term) : (b.build term).1.term = term := by
  induction term generalizing b with
  | var x => rfl
  | app fn arg ihf iha => simp [build, Derivation.term, ihf, iha]
  | abs x body ih =>
    simp only [build]
    split <;> simp [Derivation.term, ih]

end Builder

end SimpleTypes
