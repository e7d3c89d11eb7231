/-!
# Command lines

What the arguments of a command line ask for. Before `--` the names of the
commands are taken as such wherever they stand, and nothing else may begin
with a dash, except a dash alone; behind `--` every argument is a plain one.
Behind `help` there may be the name of one command and nothing else, so that
`--` is not special there.
-/

namespace SimpleTypes

inductive Invocation where
  | repl
  | expression (text : String)
  | test (input : String) (output? : Option String)
  | golden (input expected : String)
  | help
  deriving DecidableEq, Repr, Inhabited

namespace Invocation

/-- A dash with something behind it. -/
def isOption (arg : String) : Bool :=
  match arg.toList with
  | '-' :: _ :: _ => true
  | _ => false

/-- The plain arguments of a command, if there is no option among them. -/
def plain? : List String → Option (List String)
  | [] => some []
  | "--" :: rest => some rest
  | arg :: rest => if isOption arg then none else (plain? rest).map (arg :: ·)

/-- Without a command, an expression is typed if there is one. -/
def ofExpression? : Option String → Invocation
  | some text => .expression text
  | none => .repl

def ofRepl? (args : List String) : Option Invocation :=
  match plain? args with
  | some [] => some .repl
  | _ => none

def ofTest? (args : List String) : Option Invocation :=
  match plain? args with
  | some [input] => some (.test input none)
  | some [input, output] => some (.test input (some output))
  | _ => none

def ofGolden? (args : List String) : Option Invocation :=
  match plain? args with
  | some [input, expected] => some (.golden input expected)
  | _ => none

def commandNames : List String := ["repl", "test", "golden", "help"]

def ofHelp? : List String → Option Invocation
  | [] => some .help
  | [name] => if name ∈ commandNames then some .help else none
  | _ => none

/-- Reads on with the expression seen so far. A command after an expression
is obeyed, and the expression is not. -/
def ofArgsAfter? (text? : Option String) : List String → Option Invocation
  | [] => some (ofExpression? text?)
  | "repl" :: rest => ofRepl? rest
  | "test" :: rest => ofTest? rest
  | "golden" :: rest => ofGolden? rest
  | "help" :: rest => ofHelp? rest
  | "--" :: rest =>
    match text?.toList ++ rest with
    | [] => some .repl
    | [text] => some (.expression text)
    | _ => none
  | arg :: rest =>
    if isOption arg || text?.isSome then none else ofArgsAfter? (some arg) rest

def usage : String :=
  "usage: [EXPRESSION | repl | test INPUT [OUTPUT] | golden INPUT EXPECTED | help]"

/-- Nothing if the command line is malformed. -/
def ofArgs? (args : List String) : Option Invocation := ofArgsAfter? none args

end Invocation

end SimpleTypes
