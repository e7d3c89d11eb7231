import SimpleTypes.Batch

/-!
# Comparing answers with expected ones

The answers to a text are compared line by line with the lines of another. A
line that one side lacks is shown, and compared, as `<missing>`.
-/

namespace SimpleTypes.Golden

def missing : String := "<missing>"

structure Row where
  number : Nat
  expected : String
  actual : String
  deriving DecidableEq, Repr, Inhabited

def Row.passed (row : Row) : Bool := row.expected == row.actual

/-- Pairs the lines, numbered from `number`. -/
def rowsFrom (number : Nat) : List String → List String → List Row
  | [], [] => []
  | e :: expected, [] => ⟨number, e, missing⟩ :: rowsFrom (number + 1) expected []
  | [], a :: actual => ⟨number, missing, a⟩ :: rowsFrom (number + 1) [] actual
  | e :: expected, a :: actual => ⟨number, e, a⟩ :: rowsFrom (number + 1) expected actual

structure Comparison where
  expected : List String
  actual : List String
  deriving DecidableEq, Repr, Inhabited

/-- Compares the answers to `input` with the lines of `expected`. -/
def compare (input expected : String) : Comparison := ⟨Text.lines expected, Batch.answers input⟩

namespace Comparison

def rows (c : Comparison) : List Row := rowsFrom 1 c.expected c.actual

def passed (c : Comparison) : Bool := c.rows.all Row.passed

def renderFailure (row : Row) : String :=
  "line " ++ row.number.repr ++ ":\n  expected: " ++ row.expected ++ "\n  actual:   " ++ row.actual

/-- Nothing if every row passed, else a text that lists those that did not. -/
def failure? (c : Comparison) : Option String :=
  if c.passed then none
  else
    let failures := c.rows.filter fun row => !row.passed
    some ("Golden test failed!\n" ++ "\n".intercalate (failures.map renderFailure))

end Comparison

end SimpleTypes.Golden
