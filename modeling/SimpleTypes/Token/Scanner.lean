import SimpleTypes.Token.Lexer

/-!
# Scanners

A scanner finds the lexemes of a source by their bytes. Which ones is fixed by
the rules for lexemes (`Lexes`) and by three laws: the longest match is taken, a
match of blanks is skipped, and where no rule matches one character is an error
(`Scanner.Lawful`). At the end of the source there is nothing to find.

A tokenizer asks a scanner for one lexeme after another, and turns bytes into
places by counting the characters before them. It has no answer where it would
have to cut the source inside a character.
-/

namespace SimpleTypes

namespace Text

def byteCount : List Char → Nat
  | [] => 0
  | c :: rest => c.utf8Size + byteCount rest

/-- Divides the characters at a byte offset, if that does not stand inside one
of them or behind all. -/
def splitBytes? (offset : Nat) : List Char → Option (List Char × List Char)
  | [] => if offset = 0 then some ([], []) else none
  | c :: rest =>
    if offset = 0 then some ([], c :: rest)
    else if c.utf8Size ≤ offset then
      (splitBytes? (offset - c.utf8Size) rest).map fun parts => (c :: parts.1, parts.2)
    else none

end Text

-- ---------------------------------------------------------------------------
-- What a scanner finds
-- ---------------------------------------------------------------------------

/-- The bytes from `start` up to `stop`. Without a token they are an error. -/
structure Lexeme where
  token? : Option Token
  start : Nat
  stop : Nat
  deriving DecidableEq, Repr, Inhabited

/-- Gives the first lexeme of a source that begins at a byte offset or behind
it. -/
abbrev Scanner := (source : String) → (offset : Nat) → Option Lexeme

/-- A rule matches the characters, as a token or as blanks. -/
inductive Lexes : List Char → Option Token → Prop
  | blanks {chars : List Char} : chars ≠ [] → (∀ c ∈ chars, Text.isBlank c = true) →
      Lexes chars none
  | symbol {c : Char} {token : Token} : Token.ofSymbol? c = some token → Lexes [c] (some token)
  | name {x : Name} : x.isIdentifier = true → Lexes x.toList (some (.var x))

/-- No match at the front of the characters is longer than `word`. -/
structure LexesLongest (word rest : List Char) (token? : Option Token) : Prop where
  lexes : Lexes word token?
  longest : ∀ other tail other?, word ++ rest = other ++ tail → Lexes other other? →
    other.length ≤ word.length

structure Scanner.Lawful (scan : Scanner) : Prop where
  finished : ∀ source : String, scan source (Text.byteCount source.toList) = none
  longest : ∀ (source : String) (front word rest : List Char) (token : Token),
    source.toList = front ++ (word ++ rest) → LexesLongest word rest (some token) →
    scan source (Text.byteCount front) =
      some ⟨some token, Text.byteCount front, Text.byteCount (front ++ word)⟩
  skips : ∀ (source : String) (front word rest : List Char),
    source.toList = front ++ (word ++ rest) → LexesLongest word rest none →
    scan source (Text.byteCount front) = scan source (Text.byteCount (front ++ word))
  illegal : ∀ (source : String) (front rest : List Char) (c : Char),
    source.toList = front ++ c :: rest →
    (∀ word tail token?, c :: rest = word ++ tail → ¬Lexes word token?) →
    scan source (Text.byteCount front) =
      some ⟨none, Text.byteCount front, Text.byteCount (front ++ [c])⟩

-- ---------------------------------------------------------------------------
-- From bytes to places
-- ---------------------------------------------------------------------------

/-- A source, and the byte offset up to which it has been read. -/
structure Tokenizer where
  source : String
  offset : Nat := 0
  deriving DecidableEq, Repr, Inhabited

namespace Tokenizer

def position? (t : Tokenizer) (lexeme : Lexeme) : Option Nat := do
  let (front, _) ← Text.splitBytes? lexeme.start t.source.toList
  return front.length

def slice? (t : Tokenizer) (lexeme : Lexeme) : Option (List Char) := do
  let (upTo, _) ← Text.splitBytes? lexeme.stop t.source.toList
  let (_, slice) ← Text.splitBytes? lexeme.start upTo
  return slice

def next? (scan : Scanner) (t : Tokenizer) : Option (Except ParseError Placed × Tokenizer) :=
  match scan t.source t.offset with
  | none =>
    some (.ok ⟨.endOfInput, t.source.length⟩,
      { t with offset := Text.byteCount t.source.toList })
  | some lexeme => do
    let position ← t.position? lexeme
    let after := { t with offset := lexeme.stop }
    match lexeme.token? with
    | some token => return (.ok ⟨token, position⟩, after)
    | none =>
      let slice ← t.slice? lexeme
      return (.error (.illegalCharacter (slice.headD '\uFFFD') position), after)

/-- What `count` successive calls of `next?` give. -/
def take? (scan : Scanner) (t : Tokenizer) : Nat → Option (List (Except ParseError Placed))
  | 0 => some []
  | count + 1 => do
    let (result, after) ← t.next? scan
    let results ← after.take? scan count
    return result :: results

end Tokenizer

-- ---------------------------------------------------------------------------
-- A scanner
-- ---------------------------------------------------------------------------

/-- The lexeme at `c`, which is not blank and stands behind `start` bytes. -/
def Lexeme.at (start : Nat) (c : Char) (rest : List Char) : Lexeme :=
  match Token.ofSymbol? c with
  | some token => ⟨some token, start, start + c.utf8Size⟩
  | none =>
    if isNameStart c then
      let word := c :: rest.takeWhile isNameChar
      ⟨some (.var (String.ofList word)), start, start + Text.byteCount word⟩
    else ⟨none, start, start + c.utf8Size⟩

def Scanner.byCharacters : Scanner := fun source offset => do
  let (_, back) ← Text.splitBytes? offset source.toList
  match back.dropWhile Text.isBlank with
  | [] => none
  | c :: rest => return .at (offset + Text.byteCount (back.takeWhile Text.isBlank)) c rest

end SimpleTypes
