import SimpleTypes.Shell.Run
import SimpleTypes.Text.Erasure

/-!
# The read-eval-print loop

Lines of bytes come in until the input ends. In each the backspaces are obeyed
first. Blank lines are passed over, and a line that is not UTF-8 ends the loop.
-/

namespace SimpleTypes.Repl

def banner : String :=
  Text.unlines
    ["Simple type reconstruction", "Type lambda terms to see their typing derivation.",
     "Examples: \\x.x, \\x.\\y.x, \\f.\\x. f (f x)", "Press Ctrl+C or Ctrl+D to exit.", ""]

def farewell : String := "Goodbye!\n"

def notTextNotice : String :=
  "Error: Io(Error \x7b kind: InvalidData, message: \"" ++ FileError.notText.message ++ "\" \x7d)\n"

/-- Answers a line without backspaces. -/
def respond (line : String) : Reply :=
  let text := Text.trim line
  if text.isEmpty then {}
  else
    match check text with
    | .ok outcome => { output := outcome.render }
    | .error error => { errors := [error.headline] }

/-- What a line of bytes does to the loop. -/
inductive Turn where
  | next (reply : Reply)
  | stop (reply : Reply)
  deriving DecidableEq, Repr, Inhabited

/-- A line in which backspaces tear a character apart is fatal. -/
def turn (line : List UInt8) : Turn :=
  match (decodeText? line).map Text.erased? with
  | none => .stop { output := notTextNotice }
  | some none => .stop { exitCode := 101 }
  | some (some text) => .next (respond text)

/-- The line feeds divide the input; behind the last one there is a line only
if it has bytes. -/
def byteLinesFrom (line : List UInt8) : List UInt8 → List (List UInt8)
  | [] => if line.isEmpty then [] else [line.reverse]
  | byte :: rest =>
    if byte = 10 then line.reverse :: byteLinesFrom [] rest else byteLinesFrom (byte :: line) rest

def byteLines (input : List UInt8) : List (List UInt8) := byteLinesFrom [] input

/-- The replies to the lines one after another, and how the loop ends. -/
def session : List (List UInt8) → Reply
  | [] => { output := farewell }
  | line :: rest =>
    match turn line with
    | .stop reply => reply
    | .next reply =>
      let later := session rest
      ⟨reply.output ++ later.output, reply.errors ++ later.errors, later.exitCode⟩

def run (input : List UInt8) : Reply :=
  let reply := session (byteLines input)
  { reply with output := banner ++ reply.output }

end SimpleTypes.Repl

namespace SimpleTypes

/-- Carries out a command line with the given input. -/
def Invocation.run {m : Type → Type} [Monad m] (files : Files m) (input : List UInt8) :
    Invocation → m Reply
  | .repl => return Repl.run input
  | .expression text => return Shell.runExpression text
  | .test source output? => Shell.runTest files source output?
  | .golden source expected => Shell.runGolden files source expected
  | .help => return .ofLines [Invocation.usage] 0

end SimpleTypes
