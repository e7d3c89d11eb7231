import Mathlib.Data.List.Permutation
import SimpleTypes.Proofs.Term.Grammar
import SimpleTypes.Proofs.Token.Lexer
import SimpleTypes.Term.Reader

/-!
# Reading follows the grammar

`Accepts` says what a reader still has to see: the rest of the phrase that it
is in, and behind that what the frames of its stack demand. Reading a token
takes it off the front of what is accepted and nothing else
(`accepts_cons_iff`), and a text may end exactly where no further token is
demanded (`accepts_nil_iff`). So the reader accepts the expressions of the
grammar, each with its one term.

Every reader accepts something (`exists_accepts`). Hence the tokens before an
error are the beginning of a sentence, and with the token that was refused
they are not.
-/

namespace SimpleTypes

open Grammar

namespace Reader

variable {reader next : Reader} {stack : List Frame} {term whole : Term} {token : Token}
  {tokens rest : List Token}

-- ---------------------------------------------------------------------------
-- What a reader accepts
-- ---------------------------------------------------------------------------

/-- What the frames of a stack demand behind the term that they enclose, if all
together is to be `whole`. -/
def Closes (whole : Term) : List Frame → Term → List Token → Prop
  | [] => fun term tokens => tokens = [] ∧ whole = term
  | .body x :: stack => fun body => Closes whole stack (.abs x body)
  | .argument fn :: stack => fun arg => Closes whole stack (.app fn arg)
  | .group fn? :: stack =>
    Closed fun term => Then (Tail (applyTo fn? term)) (Closes whole stack)

def Accepts (reader : Reader) (tokens : List Token) (whole : Term) : Prop :=
  match reader.mode with
  | .expression => Then Expression (Closes whole reader.stack) tokens
  | .binder => ∃ x rest, tokens = .var x :: .dot :: rest ∧
      Then Expression (Closes whole (.body x :: reader.stack)) rest
  | .dot x => ∃ rest, tokens = .dot :: rest ∧
      Then Expression (Closes whole (.body x :: reader.stack)) rest
  | .spine fn => Then (Tail fn) (Closes whole reader.stack) tokens

theorem accepts_start : Accepts {} tokens whole ↔ Expression tokens whole := by
  constructor
  · rintro ⟨front, _, _, rfl, h, rfl, rfl⟩
    simpa using h
  · intro h
    exact ⟨tokens, [], whole, by simp, h, rfl, rfl⟩

-- ---------------------------------------------------------------------------
-- Closing frames
-- ---------------------------------------------------------------------------

theorem closes_unwind : Closes whole stack term tokens ↔
    Closes whole (unwind term stack).2 (unwind term stack).1 tokens := by
  fun_induction unwind term stack with
  | case1 term x stack ih => exact ih
  | case2 term fn stack ih => exact ih
  | case3 term stack _ _ => exact Iff.rfl

theorem unwind_cases (term : Term) (stack : List Frame) :
    (∃ whole, unwind term stack = (whole, [])) ∨
      ∃ inner fn? outer, unwind term stack = (inner, .group fn? :: outer) := by
  fun_induction unwind term stack with
  | case1 term x stack ih => exact ih
  | case2 term fn stack ih => exact ih
  | case3 term stack hbody hargument =>
    cases stack with
    | nil => exact .inl ⟨term, rfl⟩
    | cons frame outer =>
      cases frame with
      | group fn? => exact .inr ⟨term, fn?, outer, rfl⟩
      | body x => exact (hbody x outer rfl).elim
      | argument fn => exact (hargument fn outer rfl).elim

theorem closes_nil_iff : Closes whole stack term [] ↔ unwind term stack = (whole, []) := by
  rw [closes_unwind]
  obtain ⟨all, h⟩ | ⟨inner, fn?, outer, h⟩ := unwind_cases term stack
  · simp [h, Closes, eq_comm]
  · simp [h, Closes, Closed]

theorem closes_cons_iff (position : Nat) : Closes whole stack term (token :: rest) ↔
    token = .rightParen ∧
      ∃ next, close term stack position = .ok next ∧ Accepts next rest whole := by
  rw [closes_unwind, close]
  obtain ⟨all, h⟩ | ⟨inner, fn?, outer, h⟩ := unwind_cases term stack
  · simp [h, Closes]
  · simp [h, Closes, Closed, Accepts, and_assoc]

-- ---------------------------------------------------------------------------
-- One token
-- ---------------------------------------------------------------------------

theorem accepts_cons_iff (position : Nat) : Accepts reader (token :: rest) whole ↔
    ∃ next, reader.read token position = .ok next ∧ Accepts next rest whole := by
  obtain ⟨mode, stack⟩ := reader
  -- The equations of the grammar are recursive, so each is used once.
  cases mode with
  | expression =>
    simp only [Accepts]
    rw [then_expression_iff, then_atom_iff]
    cases token <;> simp [read, readExpression, Closes, applyTo, and_assoc]
  | binder => cases token <;> simp [read, readBinder, Accepts, and_assoc]
  | dot x => cases token <;> simp [read, readDot, Accepts]
  | spine fn =>
    simp only [Accepts]
    rw [then_tail_iff, then_atom_iff, closes_cons_iff position]
    cases token <;> simp [read, readSpine, Accepts, Closes, applyTo, and_assoc]

theorem accepts_nil_iff (position : Nat) :
    Accepts reader [] whole ↔ reader.finish position = .ok whole := by
  obtain ⟨mode, stack⟩ := reader
  cases mode with
  | expression =>
    simp only [Accepts]
    rw [then_expression_iff, then_atom_iff]
    simp [finish]
  | binder => simp [finish, Accepts]
  | dot x => simp [finish, Accepts]
  | spine fn =>
    simp only [Accepts]
    rw [then_tail_iff, then_atom_iff, closes_nil_iff]
    obtain ⟨all, h⟩ | ⟨inner, fn?, outer, h⟩ := unwind_cases fn stack <;> simp [finish, h]

theorem exists_closes (stack : List Frame) (term : Term) :
    ∃ whole tokens, Closes whole stack term tokens := by
  induction stack generalizing term with
  | nil => exact ⟨term, [], rfl, rfl⟩
  | cons frame stack ih =>
    cases frame with
    | body x => exact ih (.abs x term)
    | argument fn => exact ih (.app fn term)
    | group fn? =>
      obtain ⟨whole, tokens, h⟩ := ih (applyTo fn? term)
      exact ⟨whole, .rightParen :: tokens, tokens, rfl, [], tokens, _, rfl, .nil, h⟩

theorem exists_accepts (reader : Reader) : ∃ tokens whole, reader.Accepts tokens whole := by
  have hexpression (stack : List Frame) :
      ∃ tokens whole, Then Expression (Closes whole stack) tokens := by
    obtain ⟨whole, tokens, h⟩ := exists_closes stack (.var "x")
    exact ⟨_, whole, [.var "x"], tokens, _, rfl, .spine (.atom (.var "x")), h⟩
  obtain ⟨mode, stack⟩ := reader
  cases mode with
  | expression => exact hexpression stack
  | binder =>
    obtain ⟨tokens, whole, h⟩ := hexpression (.body "x" :: stack)
    exact ⟨_, whole, "x", tokens, rfl, h⟩
  | dot x =>
    obtain ⟨tokens, whole, h⟩ := hexpression (.body x :: stack)
    exact ⟨_, whole, tokens, rfl, h⟩
  | spine fn =>
    obtain ⟨whole, tokens, h⟩ := exists_closes stack fn
    exact ⟨tokens, whole, [], tokens, fn, rfl, .nil, h⟩

-- ---------------------------------------------------------------------------
-- One token after another
-- ---------------------------------------------------------------------------

theorem accepts_append_iff (placed : List Placed) :
    Accepts reader (placed.map Placed.token ++ rest) whole ↔
      ∃ next, reader.readAll (placed.map Placed.reading) = .ok next ∧ Accepts next rest whole := by
  induction placed generalizing reader with
  | nil => simp [readAll]
  | cons first others ih =>
    simp only [List.map_cons, List.cons_append, Placed.reading, readAll, bind_eq_ok_iff]
    rw [accepts_cons_iff first.position]
    simp only [ih]
    constructor
    · rintro ⟨middle, hread, next, hrest, h⟩
      exact ⟨next, ⟨middle, hread, hrest⟩, h⟩
    · rintro ⟨next, ⟨middle, hread, hrest⟩, h⟩
      exact ⟨middle, hread, next, hrest, h⟩

theorem exists_placed_of_readAll {readings : List Reading}
    (h : reader.readAll readings = .ok next) :
    ∃ placed : List Placed, readings = placed.map Placed.reading := by
  induction readings generalizing reader with
  | nil => exact ⟨[], rfl⟩
  | cons reading rest ih =>
    cases reading with
    | illegal c position => cases h
    | token token position =>
      obtain ⟨middle, -, hrest⟩ := bind_eq_ok_iff.mp h
      obtain ⟨placed, rfl⟩ := ih hrest
      exact ⟨⟨token, position⟩ :: placed, rfl⟩

theorem of_readAll_error {error : ParseError} {readings : List Reading}
    (h : reader.readAll readings = .error error) :
    ∃ (before : List Placed) (reading : Reading) (after : List Reading) (next : Reader),
      readings = before.map Placed.reading ++ reading :: after ∧
        reader.readAll (before.map Placed.reading) = .ok next ∧
          next.readAll [reading] = .error error := by
  induction readings generalizing reader with
  | nil => cases h
  | cons reading after ih =>
    cases reading with
    | illegal c position => exact ⟨[], _, after, reader, rfl, rfl, h⟩
    | token token position =>
      simp only [readAll] at h
      cases hread : reader.read token position with
      | error e =>
        rw [hread] at h
        exact ⟨[], _, after, reader, rfl, rfl, by rw [readAll, hread]; exact h⟩
      | ok middle =>
        rw [hread] at h
        obtain ⟨before, reading, after, next, rfl, hbefore, hlast⟩ := ih h
        refine ⟨⟨token, position⟩ :: before, reading, after, next, rfl, ?_, hlast⟩
        exact bind_eq_ok_iff.mpr ⟨middle, hread, hbefore⟩

theorem accepts_unique {whole' : Term} (h : Accepts reader tokens whole)
    (h' : Accepts reader tokens whole') : whole = whole' := by
  induction tokens generalizing reader with
  | nil =>
    rw [accepts_nil_iff 0] at h h'
    cases h.symm.trans h'
    rfl
  | cons token rest ih =>
    obtain ⟨next, hread, hrest⟩ := (accepts_cons_iff 0).mp h
    obtain ⟨next', hread', hrest'⟩ := (accepts_cons_iff 0).mp h'
    cases hread.symm.trans hread'
    exact ih hrest hrest'

theorem expression_iff (placed : List Placed) (position : Nat) :
    Expression (placed.map Placed.token) term ↔
      ∃ next, readAll {} (placed.map Placed.reading) = .ok next ∧
        next.finish position = .ok term := by
  rw [← accepts_start, ← List.append_nil (placed.map Placed.token), accepts_append_iff]
  simp only [accepts_nil_iff position]

end Reader

-- ---------------------------------------------------------------------------
-- The texts that are accepted
-- ---------------------------------------------------------------------------

theorem parse_eq_ok_iff {text : String} {term : Term} : parse text = .ok term ↔
    ∃ placed : List Placed, (Lexer.ofString text).readings = placed.map Placed.reading ∧
      Expression (placed.map Placed.token) term := by
  unfold parse
  rw [bind_eq_ok_iff]
  constructor
  · rintro ⟨next, hnext, hfinish⟩
    obtain ⟨placed, hplaced⟩ := Reader.exists_placed_of_readAll hnext
    rw [hplaced] at hnext
    exact ⟨placed, hplaced, (Reader.expression_iff placed text.length).mpr ⟨next, hnext, hfinish⟩⟩
  · rintro ⟨placed, hplaced, hexpression⟩
    rw [hplaced]
    exact (Reader.expression_iff placed text.length).mp hexpression

/-- A text is accepted for a term exactly if its tokens derive the term, and
tokens derive one term at most. -/
theorem parse_iff_expression :
    (∀ text term, parse text = .ok term ↔
      ∃ tokens, (tokenize text).map (List.map Placed.token) = .ok (tokens ++ [.endOfInput]) ∧
        Expression tokens term) ∧
      ∀ tokens term term', Expression tokens term → Expression tokens term' → term = term' := by
  refine ⟨?_, ?_⟩
  · intro text term
    rw [parse_eq_ok_iff]
    constructor
    · rintro ⟨placed, hplaced, hexpression⟩
      exact ⟨_, tokenize_eq_ok_iff.mpr ⟨placed, hplaced, rfl⟩, hexpression⟩
    · rintro ⟨tokens, htokens, hexpression⟩
      obtain ⟨placed, hplaced, rfl⟩ := tokenize_eq_ok_iff.mp htokens
      exact ⟨placed, hplaced, hexpression⟩
  · intro tokens term term' h h'
    exact Reader.accepts_unique (Reader.accepts_start.mpr h) (Reader.accepts_start.mpr h')

/-- An abstraction behind a spine is its last argument, and takes what follows. -/
theorem parse_iff_expression_applied :
    let term : Term := .app (.app (.var "f") (.var "g")) (.abs "x" (.app (.var "x") (.var "y")))
    let tokens : List Token := [.var "f", .var "g", .lambda, .var "x", .dot, .var "x", .var "y"]
    parse "f g \\x. x y" = .ok term ∧ Expression tokens term ∧
      ∀ term', Expression tokens term' → term = term' := by
  intro term tokens
  have hexpression : Expression tokens term :=
    Expression.applied (.app (.atom (.var "f")) (.var "g"))
      (.spine (.app (.atom (.var "x")) (.var "y")))
  exact ⟨(parse_iff_expression.1 _ _).mpr ⟨tokens, by cbv, hexpression⟩, hexpression,
    fun term' => parse_iff_expression.2 tokens term term' hexpression⟩

-- ---------------------------------------------------------------------------
-- The place of an error
-- ---------------------------------------------------------------------------

inductive ParseError.Reports : ParseError → Reading → Prop
  | illegalCharacter {c : Char} {position : Nat} :
      Reports (.illegalCharacter c position) (.illegal c position)
  | unexpectedToken {token : Token} {position : Nat} {production : Production} :
      Reports (.unexpectedToken token position production) (.token token position)
  | unmatchedParenthesis {token : Token} {position : Nat} :
      Reports (.unmatchedParenthesis position) (.token token position)
  | trailingInput {token : Token} {position : Nat} :
      Reports (.trailingInput token position) (.token token position)

/-- No sentence has the token, or ends, behind these tokens. -/
def Grammar.Refuses (tokens : List Token) (token : Token) : Prop :=
  if token = .endOfInput then ¬ Sentence tokens else ¬ Viable (tokens ++ [token])

namespace Reader

variable {reader next : Reader} {error : ParseError} {token : Token} {position : Nat}

theorem reports_read (h : reader.read token position = .error error) :
    error.Reports (.token token position) := by
  obtain ⟨mode, stack⟩ := reader
  cases mode with
  | expression => cases token <;> cases h <;> exact .unexpectedToken
  | binder => cases token <;> cases h <;> exact .unexpectedToken
  | dot x => cases token <;> cases h <;> exact .unexpectedToken
  | spine fn =>
    cases token with
    | rightParen =>
      simp only [read, readSpine, close] at h
      split at h <;> cases h
      exact .trailingInput
    | _ => cases h <;> exact .unexpectedToken

theorem read_of_readAll (h : reader.readAll [.token token position] = .error error) :
    reader.read token position = .error error := by
  simp only [readAll] at h
  cases hread : reader.read token position <;> rw [hread] at h <;> cases h
  rfl

theorem reports_finish (h : reader.finish position = .error error) :
    error.Reports (.token .endOfInput position) := by
  obtain ⟨mode, stack⟩ := reader
  cases mode with
  | spine fn =>
    simp only [finish] at h
    split at h <;> cases h
    exact .unmatchedParenthesis
  | _ => cases h; exact .unexpectedToken

theorem viable_of_readAll {placed : List Placed}
    (h : readAll {} (placed.map Placed.reading) = .ok next) : Viable (placed.map Placed.token) := by
  obtain ⟨rest, whole, hrest⟩ := next.exists_accepts
  exact ⟨rest, whole, accepts_start.mp ((accepts_append_iff placed).mpr ⟨next, h, hrest⟩)⟩

theorem not_viable_of_read {placed : List Placed}
    (h : readAll {} (placed.map Placed.reading) = .ok next)
    (hread : next.read token position = .error error) :
    ¬ Viable (placed.map Placed.token ++ [token]) := by
  rintro ⟨rest, whole, hwhole⟩
  rw [List.append_assoc, ← accepts_start, accepts_append_iff] at hwhole
  obtain ⟨last, hlast, haccepts⟩ := hwhole
  cases h.symm.trans hlast
  obtain ⟨_, hok, -⟩ := (accepts_cons_iff position).mp haccepts
  cases hread.symm.trans hok

theorem not_sentence_of_finish {placed : List Placed}
    (h : readAll {} (placed.map Placed.reading) = .ok next)
    (hfinish : next.finish position = .error error) : ¬ Sentence (placed.map Placed.token) := by
  rintro ⟨whole, hwhole⟩
  obtain ⟨last, hlast, hok⟩ := (expression_iff placed position).mp hwhole
  cases h.symm.trans hlast
  cases hfinish.symm.trans hok

end Reader

theorem exists_reports {text : String} {error : ParseError} (h : parse text = .error error) :
    ∃ reading, error.Reports reading ∧
      (reading ∈ (Lexer.ofString text).readings ∨
        reading = .token .endOfInput text.length) := by
  unfold parse at h
  cases hread : Reader.readAll {} (Lexer.ofString text).readings with
  | ok last =>
    rw [hread] at h
    exact ⟨_, Reader.reports_finish h, .inr rfl⟩
  | error e =>
    rw [hread] at h
    cases h
    obtain ⟨before, reading, after, next, heq, -, hlast⟩ := Reader.of_readAll_error hread
    have hmem : reading ∈ (Lexer.ofString text).readings := by simp [heq]
    cases reading with
    | illegal c position =>
      cases hlast
      exact ⟨_, .illegalCharacter, .inl hmem⟩
    | token token position =>
      exact ⟨_, Reader.reports_read (Reader.read_of_readAll hlast), .inl hmem⟩

/-- An error is about the first reading that no sentence goes on with: all
before it are tokens that a sentence may begin with. -/
theorem parse_error_first {text : String} {error : ParseError} (h : parse text = .error error) :
    ∃ (before : List Placed) (reading : Reading),
      (Lexer.ofString text).take (before.length + 1) = before.map Placed.reading ++ [reading] ∧
        error.Reports reading ∧ Viable (before.map Placed.token) ∧
        match reading with
        | .token token _ => Refuses (before.map Placed.token) token
        | .illegal c position => (Reading.illegal c position).Of text.toList := by
  unfold parse at h
  cases hread : Reader.readAll {} (Lexer.ofString text).readings with
  | ok last =>
    rw [hread] at h
    obtain ⟨placed, hplaced⟩ := Reader.exists_placed_of_readAll hread
    have htake := Lexer.take_end hplaced
    rw [List.length_map, Lexer.finish_ofString] at htake
    rw [hplaced] at hread
    -- All readings are tokens, and the text may not end behind them.
    exact ⟨placed, _, htake, Reader.reports_finish h, Reader.viable_of_readAll hread,
      Reader.not_sentence_of_finish hread h⟩
  | error e =>
    rw [hread] at h
    cases h
    obtain ⟨before, reading, after, next, heq, hbefore, hlast⟩ := Reader.of_readAll_error hread
    have hmem : reading ∈ (Lexer.ofString text).readings := by simp [heq]
    have htake := Lexer.take_of_readings
      (heq.trans (List.append_cons (before.map Placed.reading) reading after))
    rw [List.length_append, List.length_map] at htake
    have hviable := Reader.viable_of_readAll hbefore
    cases reading with
    | illegal c position =>
      cases hlast
      exact ⟨before, _, htake, .illegalCharacter, hviable, Lexer.of_mem_readings_ofString hmem⟩
    | token token position =>
      have hrefused := Reader.read_of_readAll hlast
      have hne : token ≠ .endOfInput := by
        rintro rfl
        exact Lexer.endOfInput_not_mem text position hmem
      refine ⟨before, _, htake, Reader.reports_read hrefused, hviable, ?_⟩
      simpa [Refuses, hne] using Reader.not_viable_of_read hbefore hrefused

/-- The parenthesis that closes nothing stands before an illegal character. -/
theorem parse_error_first_trailing :
    parse "f (\\x. x)) #" = .error (.trailingInput .rightParen 9) ∧
      ∃ (before : List Placed) (reading : Reading),
        (Lexer.ofString "f (\\x. x)) #").take (before.length + 1) =
            before.map Placed.reading ++ [reading] ∧
          (ParseError.trailingInput .rightParen 9).Reports reading ∧
          Viable (before.map Placed.token) ∧
          match reading with
          | .token token _ => Refuses (before.map Placed.token) token
          | .illegal c position => (Reading.illegal c position).Of "f (\\x. x)) #".toList :=
  ⟨by cbv, parse_error_first (by cbv)⟩

end SimpleTypes
