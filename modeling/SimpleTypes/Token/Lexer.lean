import SimpleTypes.ParseError
import SimpleTypes.Text

/-!
# Reading tokens

A lexer is the text still to be read and the number of characters before it.
`next` skips blanks and reads one token or one illegal character; at the end
of the text it gives the end token as often as it is asked.

`readings` lists what `next` gives before the end token. It ends because every
reading consumes a character (`length_next_lt`).
-/

namespace SimpleTypes

inductive Reading where
  | token (token : Token) (position : Nat)
  | illegal (character : Char) (position : Nat)
  deriving DecidableEq, Repr, Inhabited

def Reading.position : Reading → Nat
  | .token _ position => position
  | .illegal _ position => position

def Reading.toExcept : Reading → Except ParseError Placed
  | .token t position => .ok ⟨t, position⟩
  | .illegal c position => .error (.illegalCharacter c position)

structure Lexer where
  rest : List Char
  position : Nat := 0
  deriving DecidableEq, Repr, Inhabited

namespace Lexer

def ofString (text : String) : Lexer := { rest := text.toList }

def skipBlanks (lexer : Lexer) : Lexer where
  rest := lexer.rest.dropWhile Text.isBlank
  position := lexer.position + (lexer.rest.takeWhile Text.isBlank).length

/-- The place behind the last character. -/
def finish (lexer : Lexer) : Nat := lexer.position + lexer.rest.length

/-- Reads at `c`, a character that is not blank, with `rest` after it. A name
takes as many characters as it can. -/
def readAt (position : Nat) (c : Char) (rest : List Char) : Reading × Lexer :=
  match Token.ofSymbol? c with
  | some token => (.token token position, ⟨rest, position + 1⟩)
  | none =>
    if isNameStart c then
      let tail := rest.takeWhile isNameChar
      (.token (.var (String.ofList (c :: tail))) position,
        ⟨rest.dropWhile isNameChar, position + 1 + tail.length⟩)
    else (.illegal c position, ⟨rest, position + 1⟩)

def next (lexer : Lexer) : Reading × Lexer :=
  match lexer.skipBlanks.rest with
  | [] => (.token .endOfInput lexer.finish, lexer.skipBlanks)
  | c :: rest => readAt lexer.skipBlanks.position c rest

/-- What `count` successive calls of `next` give. -/
def take (lexer : Lexer) : Nat → List Reading
  | 0 => []
  | count + 1 => lexer.next.1 :: lexer.next.2.take count

theorem length_readAt_le (position : Nat) (c : Char) (rest : List Char) :
    (readAt position c rest).2.rest.length ≤ rest.length := by
  unfold readAt
  split
  · exact Nat.le_refl _
  · split
    · exact (List.dropWhile_sublist _).length_le
    · exact Nat.le_refl _

/-- Reading anything but the end consumes at least one character. -/
theorem length_next_lt {lexer : Lexer} {c : Char} {rest : List Char}
    (h : lexer.skipBlanks.rest = c :: rest) : lexer.next.2.rest.length < lexer.rest.length := by
  have hskip : lexer.skipBlanks.rest.length ≤ lexer.rest.length :=
    (List.dropWhile_sublist _).length_le
  have hread := length_readAt_le lexer.skipBlanks.position c rest
  rw [h, List.length_cons] at hskip
  unfold next
  rw [h]
  exact Nat.lt_of_le_of_lt hread hskip

/-- Everything up to the end of the text, which is not listed. -/
def readings (lexer : Lexer) : List Reading :=
  match _h : lexer.skipBlanks.rest with
  | [] => []
  | _ :: _ => lexer.next.1 :: lexer.next.2.readings
termination_by lexer.rest.length
decreasing_by exact length_next_lt _h

theorem readings_of_nil {lexer : Lexer} (h : lexer.skipBlanks.rest = []) : lexer.readings = [] := by
  rw [readings]
  split <;> simp_all

theorem readings_of_cons {lexer : Lexer} {c : Char} {rest : List Char}
    (h : lexer.skipBlanks.rest = c :: rest) :
    lexer.readings = lexer.next.1 :: lexer.next.2.readings := by
  rw [readings]
  split <;> simp_all

end Lexer

/-- The tokens of a text and the end token behind them, or the first illegal
character. -/
def tokenize (text : String) : Except ParseError (List Placed) := do
  let placed ← (Lexer.ofString text).readings.mapM Reading.toExcept
  return placed ++ [⟨.endOfInput, text.length⟩]

end SimpleTypes
