import SimpleTypes.Golden
import SimpleTypes.Shell.Files
import SimpleTypes.Shell.Invocation

/-!
# Commands

What each command prints, reads and writes. The commands are written over any
access to files, so the same definitions run on a disk and on a workspace in
memory.
-/

namespace SimpleTypes

/-- What a command leaves behind. -/
structure Reply where
  output : String := ""
  errors : List String := []
  exitCode : Nat := 0
  deriving DecidableEq, Repr, Inhabited

namespace Reply

def ofLines (lines : List String) (exitCode : Nat) : Reply := ⟨Text.unlines lines, [], exitCode⟩

def failed (error : String) : Reply := ⟨"", [error], 1⟩

end Reply

/-- How a syntax error is announced. -/
def ParseError.headline (error : ParseError) : String := "Error: " ++ error.message

namespace Shell

-- ---------------------------------------------------------------------------
-- A single expression
-- ---------------------------------------------------------------------------

def runTerm (term : Term) : Reply :=
  let opening := ["Parsed expression: " ++ term.render, ""]
  match Outcome.ofTerm term with
  | .typed d =>
    .ofLines (opening ++ ["Final type: " ++ d.ty.render, "", "Derivation:"] ++ d.lines) 0
  | .noType _ => .ofLines (opening ++ [noTypeText]) 1

def runExpression (text : String) : Reply :=
  match parse text with
  | .ok term => runTerm term
  | .error error => .failed error.headline

-- ---------------------------------------------------------------------------
-- Files of expressions
-- ---------------------------------------------------------------------------

def numbered (lines : List String) : List String :=
  lines.mapIdx fun index line => "Line " ++ (index + 1).repr ++ ": " ++ line

variable {m : Type → Type} [Monad m]

/-- Writes the answers and says whether that went well. -/
def save (files : Files m) (path : String) (answers : List String) : m Reply := do
  match ← files.write path (Batch.fileText answers) with
  | .ok () => return .ofLines ["Results written to " ++ path] 0
  | .error error => return ⟨"", ["Error writing to " ++ path ++ ": " ++ error.message], 0⟩

def runTest (files : Files m) (input : String) (output? : Option String) : m Reply := do
  match ← files.read input with
  | .error error => return .failed ("Error reading file " ++ input ++ ": " ++ error.message)
  | .ok content =>
    let answers := Batch.answers content
    let listing := Text.unlines (numbered answers)
    match output? with
    | none => return ⟨listing, [], 0⟩
    | some output =>
      let saved ← save files output answers
      return { saved with output := listing ++ saved.output }

-- ---------------------------------------------------------------------------
-- Expected answers
-- ---------------------------------------------------------------------------

/-- Compares the answers to one file with the lines of another. The error is
that of the first file that cannot be read. -/
def compareFiles (files : Files m) (input expected : String) :
    m (Except String Golden.Comparison) := do
  match ← files.read input with
  | .error error =>
    return .error ("Error reading input file " ++ input ++ ": " ++ error.message)
  | .ok content =>
    match ← files.read expected with
    | .error error =>
      return .error ("Error reading expected file " ++ expected ++ ": " ++ error.message)
    | .ok wanted => return .ok (Golden.compare content wanted)

def rowLines (row : Golden.Row) : List String :=
  if row.passed then ["✓ Line " ++ row.number.repr ++ ": PASS"]
  else
    ["✗ Line " ++ row.number.repr ++ ": FAIL", "  Expected: " ++ row.expected,
      "  Actual:   " ++ row.actual]

def ruler : String := String.ofList (List.replicate 39 '═')

def runGolden (files : Files m) (input expected : String) : m Reply := do
  match ← compareFiles files input expected with
  | .error message => return .failed message
  | .ok comparison =>
    let closing := if comparison.passed then "All tests PASSED!" else "Some tests FAILED!"
    return .ofLines
      (["Running golden test: " ++ input ++ " vs " ++ expected, ruler] ++
        comparison.rows.flatMap rowLines ++ [ruler, closing])
      (if comparison.passed then 0 else 1)

end Shell

end SimpleTypes
