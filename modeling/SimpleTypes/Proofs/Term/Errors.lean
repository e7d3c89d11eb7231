import SimpleTypes.Proofs.Term.Reader
import SimpleTypes.Proofs.Term.Simulation

/-!
# Which syntax errors there are

The errors of texts are those that `ParseError.Possible` lists, which are few of
those that could be written down (`Descent.run_returns`). Behind a complete
expression only a dot is unexpected; a right parenthesis there closes a group or
is trailing, and a group that is still open is noticed at the end of the text.

Conversely every error on the list is one that some text has, at one place or
another (`exists_parse_error`), so the list is as short as it can be.
-/

namespace SimpleTypes

def ParseError.moveTo (place : Nat) : ParseError → ParseError
  | .illegalCharacter c _ => .illegalCharacter c place
  | .unexpectedToken token _ production => .unexpectedToken token place production
  | .unmatchedParenthesis _ => .unmatchedParenthesis place
  | .trailingInput token _ => .trailingInput token place

def ParseError.token? : ParseError → Option Token
  | .unexpectedToken token _ _ => some token
  | .trailingInput token _ => some token
  | _ => none

theorem ParseError.Possible.token?_ne_start {length : Nat} {error : ParseError}
    (h : error.Possible length) : error.token? ≠ some .start := by
  cases h with
  | expression htoken =>
    rintro ⟨⟩
    simp at htoken
  | abstraction htoken =>
    rintro ⟨⟩
    exact htoken
  | _ => simp [token?]

-- ---------------------------------------------------------------------------
-- Every one of them is met
-- ---------------------------------------------------------------------------

theorem parse_of_reads {text : String} {readings : List Reading}
    (h : Reads 0 text.toList readings) :
    parse text = (Reader.readAll {} readings).bind (·.finish text.length) := by
  have hreadings : (Lexer.ofString text).readings = readings := h.readings_eq
  rw [parse, hreadings]
  rfl

theorem parse_illegal {c : Char} (hblank : Text.isBlank c = false)
    (hsymbol : Token.ofSymbol? c = none) (hstart : isNameStart c = false) :
    parse (String.ofList [c]) = .error (.illegalCharacter c 0) := by
  have hreads : Reads 0 (String.ofList [c]).toList [.illegal c 0] := by
    rw [String.toList_ofList]
    exact .illegal hblank hsymbol hstart .nil
  exact parse_of_reads hreads

theorem parse_second_binder {x : Name} (hx : x.isIdentifier = true) :
    parse ("\\y " ++ x) = .error (.unexpectedToken (.var x) 3 .abstraction) := by
  have hrest : Reads 3 (x.toList ++ []) [.token (.var x) 3] := .name hx .nil .nil
  have hbinder : Reads 1 ("y".toList ++ ' ' :: (x.toList ++ []))
      [.token (.var "y") 1, .token (.var x) 3] :=
    .name (by decide) (.cons (by decide)) (.blank (by decide) hrest)
  have hreads : Reads 0 ("\\y " ++ x).toList
      [.token .lambda 0, .token (.var "y") 1, .token (.var x) 3] := by
    simpa using Reads.symbol (c := '\\') rfl hbinder
  exact parse_of_reads hreads

theorem exists_parse_error {length : Nat} {error : ParseError} (h : error.Possible length) :
    ∃ text place, parse text = .error (error.moveTo place) := by
  cases h with
  | illegalCharacter hblank hsymbol hstart => exact ⟨_, 0, parse_illegal hblank hsymbol hstart⟩
  | expression htoken =>
    simp only [List.mem_cons, List.not_mem_nil, or_false] at htoken
    obtain rfl | rfl | rfl := htoken
    · exact ⟨".", 0, by cbv⟩
    · exact ⟨")", 0, by cbv⟩
    · exact ⟨"", 0, by cbv⟩
  | @abstraction token _ htoken =>
    cases token with
    | start => exact htoken.elim
    | var x => exact ⟨_, 3, parse_second_binder htoken⟩
    | lambda => exact ⟨"\\\\", 1, by cbv⟩
    | dot => exact ⟨"\\.", 1, by cbv⟩
    | leftParen => exact ⟨"\\(", 1, by cbv⟩
    | rightParen => exact ⟨"\\)", 1, by cbv⟩
    | endOfInput => exact ⟨"\\", 1, by cbv⟩
  | application => exact ⟨"x.", 1, by cbv⟩
  | unmatchedParenthesis => exact ⟨"(x", 2, by cbv⟩
  | trailingInput => exact ⟨"x)", 1, by cbv⟩

/-- The descent reads what `parse` reads. Its errors are the possible ones, none
shows the token that stands before all text, and each is met in some text, at
one place or another. -/
theorem run_error_possible :
    (∀ text, Descent.run text = parse text) ∧
    (∀ text error, Descent.run text = .error error →
      error.Possible text.length ∧ error.token? ≠ some .start) ∧
    ∀ (length : Nat) (error : ParseError), error.Possible length →
      ∃ text place, Descent.run text = .error (error.moveTo place) := by
  refine ⟨Descent.run_eq, ?_, ?_⟩
  · intro text error h
    have hpossible : error.Possible text.length := by
      have hreturns := Descent.run_returns text
      rwa [h] at hreturns
    exact ⟨hpossible, hpossible.token?_ne_start⟩
  · intro length error h
    obtain ⟨text, place, hparse⟩ := exists_parse_error h
    exact ⟨text, place, (Descent.run_eq text).trans hparse⟩

/-- A group is open inside an abstraction; an error that is met where a binder
has two names; and one that is never met, for a dot never follows a complete
text. -/
theorem run_error_possible_open :
    Descent.run "f (\\x. x y" = .error (.unmatchedParenthesis 10) ∧
    (ParseError.unmatchedParenthesis 10).Possible "f (\\x. x y".length ∧
    (∃ text place, Descent.run text = .error (.unexpectedToken (.var "x'") place .abstraction)) ∧
    ∀ text position, Descent.run text ≠ .error (.trailingInput .dot position) := by
  obtain ⟨hrun, hpossible, hmet⟩ := run_error_possible
  have hparse : parse "f (\\x. x y" = .error (.unmatchedParenthesis 10) := by cbv
  have hopen := (hrun "f (\\x. x y").trans hparse
  refine ⟨hopen, (hpossible _ _ hopen).1, ?_, ?_⟩
  · have hreadable : (Token.var "x'").Readable := show Name.isIdentifier "x'" = true by decide
    exact hmet 0 (.unexpectedToken (.var "x'") 0 .abstraction) (.abstraction hreadable)
  · intro text position h
    cases (hpossible _ _ h).1

end SimpleTypes
