/-!
# Blanks and lines

The character class that separates tokens and is trimmed from lines, and the
division of a text into lines. Both work on character lists; the functions on
`String` only convert.
-/

namespace SimpleTypes.Text

/-- The White_Space property of Unicode, as ranges with both ends included. -/
def blankRanges : List (Nat × Nat) :=
  [(0x09, 0x0D), (0x20, 0x20), (0x85, 0x85), (0xA0, 0xA0), (0x1680, 0x1680),
   (0x2000, 0x200A), (0x2028, 0x2029), (0x202F, 0x202F), (0x205F, 0x205F), (0x3000, 0x3000)]

def isBlank (c : Char) : Bool :=
  blankRanges.any fun range => range.1 ≤ c.toNat && c.toNat ≤ range.2

def trimStartChars (cs : List Char) : List Char := cs.dropWhile isBlank

def trimEndChars (cs : List Char) : List Char := (cs.reverse.dropWhile isBlank).reverse

def trimChars (cs : List Char) : List Char := trimEndChars (trimStartChars cs)

/-- Removes the blanks at both ends. -/
def trim (text : String) : String := String.ofList (trimChars text.toList)

/-- A line under way, latest character first, without the carriage return
that stands right before its end. -/
def closeLine : List Char → List Char
  | '\r' :: line => line.reverse
  | line => line.reverse

/-- Lines of the remaining text, with `line` the characters of the current one,
latest first. A line ends at a line feed; a last line without one counts
unless it is empty, and keeps its carriage return. -/
def linesFrom (line : List Char) : List Char → List (List Char)
  | [] => if line.isEmpty then [] else [line.reverse]
  | '\n' :: rest => closeLine line :: linesFrom [] rest
  | c :: rest => linesFrom (c :: line) rest

def lines (text : String) : List String := (linesFrom [] text.toList).map String.ofList

/-- The lines with a line feed after each. -/
def unlines (lines : List String) : String := String.join (lines.map (· ++ "\n"))

theorem toList_trim (text : String) : (trim text).toList = trimChars text.toList := by
  simp [trim]

end SimpleTypes.Text
