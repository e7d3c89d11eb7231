import SimpleTypes.Inference

/-!
# What inference reports

The notes of a run, in order: each equation as it is collected, their number,
the steps of the solver, and the solution or the error.
-/

namespace SimpleTypes

inductive Note where
  | constraint (e : Equation)
  | collected (count : Nat) (term : Term)
  | rewriting (event : Event)
  | solved (σ : Substitution)
  | untypable (text : String) (error : TypeError)

inductive Level where
  | debug
  | trace
  deriving DecidableEq, Repr, Inhabited

def Level.render : Level → String
  | .debug => "DEBUG"
  | .trace => "TRACE"

namespace Note

def level : Note → Level
  | .constraint _ => .trace
  | _ => .debug

def message : Note → String
  | .constraint e => "constraint " ++ e.render
  | .collected count term => count.repr ++ " constraints for " ++ term.render
  | .rewriting event => event.render
  | .solved σ => "solved: " ++ Substitution.render σ
  | .untypable text error => text ++ ": " ++ error.message

def render (note : Note) : String := note.level.render ++ " " ++ note.message

end Note

def Solution.notes (solution : Solution) : List Note := solution.events.map .rewriting

def Term.notes (term : Term) : List Note :=
  let solution := Problem.solve term.equations
  let closing := match solution.result with
    | .ok σ => [.solved σ]
    | .error _ => []
  term.equations.map .constraint ++ .collected term.equations.length term ::
    (solution.notes ++ closing)

/-- The notes of checking a text that spells `term`. -/
def checkNotes (text : String) (term : Term) : List Note :=
  match term.derive with
  | .ok _ => term.notes
  | .error error => term.notes ++ [.untypable text error]

end SimpleTypes
