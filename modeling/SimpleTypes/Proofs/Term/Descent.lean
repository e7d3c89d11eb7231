import SimpleTypes.Proofs.Token.Lexer
import SimpleTypes.Term.Descent

/-!
# What a descent leaves

The lookahead behind an expression is the end of the text or a right parenthesis
(`Descent.Ends`, `Descent.expression_returns`). An abstraction ends where its
body ends and an application takes all atoms, so this holds at any depth. It
decides which errors there are: `ParseError.Possible` lists them, and what is not
on the list stands in a branch that no text leads to (`Descent.run_returns`).
-/

namespace SimpleTypes

/-- The tokens that texts are made of, and the end of a text. -/
def Token.Readable : Token → Prop
  | .start => False
  | .var x => x.isIdentifier = true
  | _ => True

/-- The errors that a text of so many characters can have. -/
inductive ParseError.Possible (length : Nat) : ParseError → Prop
  | illegalCharacter {c : Char} {position : Nat} : Text.isBlank c = false →
      Token.ofSymbol? c = none → isNameStart c = false →
      Possible length (.illegalCharacter c position)
  | expression {token : Token} {position : Nat} : token ∈ [.dot, .rightParen, .endOfInput] →
      Possible length (.unexpectedToken token position .expression)
  | abstraction {token : Token} {position : Nat} : token.Readable →
      Possible length (.unexpectedToken token position .abstraction)
  | application {position : Nat} : Possible length (.unexpectedToken .dot position .application)
  | unmatchedParenthesis : Possible length (.unmatchedParenthesis length)
  | trailingInput {position : Nat} : Possible length (.trailingInput .rightParen position)

namespace Lexer

theorem readAt_cases (position : Nat) (c : Char) (rest : List Char) :
    (∃ token : Token, (readAt position c rest).1 = .token token position ∧ token.Readable ∧
      token ≠ .endOfInput) ∨
    ((readAt position c rest).1 = .illegal c position ∧ Token.ofSymbol? c = none ∧
      isNameStart c = false) := by
  cases hsymbol : Token.ofSymbol? c with
  | some token =>
    refine .inl ⟨token, by simp [readAt, hsymbol], ?_⟩
    obtain ⟨-, rfl⟩ | ⟨-, rfl⟩ | ⟨-, rfl⟩ | ⟨-, rfl⟩ := Token.ofSymbol?_eq_some_iff.mp hsymbol <;>
      exact ⟨trivial, by simp⟩
  | none =>
    cases hstart : isNameStart c with
    | true =>
      obtain ⟨x, hx, -, hread⟩ := exists_name position hstart rest
      exact .inl ⟨.var x, by rw [hread], hx, by simp⟩
    | false => exact .inr ⟨by simp [readAt, hsymbol, hstart], rfl, rfl⟩

end Lexer

namespace Descent

-- ---------------------------------------------------------------------------
-- Post-conditions
-- ---------------------------------------------------------------------------

/-- The result is a value that `good` holds of, or an error that `bad` holds of. -/
def Returns {α : Type} (good : α → Prop) (bad : ParseError → Prop) : Except ParseError α → Prop
  | .ok a => good a
  | .error e => bad e

namespace Returns

variable {α β : Type} {good good' : α → Prop} {bad bad' : ParseError → Prop}
  {x : Except ParseError α}

theorem pure {a : α} (h : good a) : Returns good bad (pure a) := h

theorem throw {e : ParseError} (h : bad e) : Returns good bad (throw e) := h

theorem bind {after : β → Prop} {f : α → Except ParseError β} (hx : Returns good bad x)
    (hf : ∀ a, good a → Returns after bad (f a)) : Returns after bad (x >>= f) := by
  cases x with
  | ok a => exact hf a hx
  | error e => exact hx

theorem and (h : Returns good bad x) (h' : Returns good' bad' x) :
    Returns (fun a => good a ∧ good' a) bad' x := by
  cases x with
  | ok a => exact ⟨h, h'⟩
  | error e => exact h'

end Returns

-- ---------------------------------------------------------------------------
-- The lookahead
-- ---------------------------------------------------------------------------

inductive Advances (d : Descent) : Except ParseError Descent → Prop
  | finished {lexer : Lexer} : d.lexer.readings = [] → lexer.finish = d.lexer.finish →
      Advances d (.ok ⟨lexer, ⟨.endOfInput, d.lexer.finish⟩⟩)
  | token {lexer : Lexer} {token : Token} {position : Nat} :
      d.lexer.readings = .token token position :: lexer.readings → token.Readable →
      token ≠ .endOfInput → lexer.finish = d.lexer.finish →
      Advances d (.ok ⟨lexer, ⟨token, position⟩⟩)
  | illegal {c : Char} {position : Nat} {after : List Reading} :
      d.lexer.readings = .illegal c position :: after → Text.isBlank c = false →
      Token.ofSymbol? c = none → isNameStart c = false →
      Advances d (.error (.illegalCharacter c position))

theorem advances_next (d : Descent) : Advances d d.next := by
  have hfinish := d.lexer.finish_next
  cases h : d.lexer.skipBlanks.rest with
  | nil =>
    simp only [next, Lexer.next_of_nil h]
    exact .finished (Lexer.readings_of_nil h) d.lexer.finish_skipBlanks
  | cons c rest =>
    have hreadings := Lexer.readings_of_cons h
    obtain ⟨token, hread, hreadable, hend⟩ | ⟨hread, hsymbol, hstart⟩ :=
      Lexer.readAt_cases d.lexer.skipBlanks.position c rest
    all_goals
      rw [← Lexer.next_of_cons h] at hread
      rw [hread] at hreadings
      rw [next, hread]
    · exact .token hreadings hreadable hend hfinish
    · exact .illegal hreadings (Lexer.not_isBlank_skipBlanks h) hsymbol hstart

theorem Returns.advance {d : Descent} {good : Descent → Prop} {bad : ParseError → Prop}
    (h : Returns good bad d.next) (hend : d.current.token ≠ .endOfInput) :
    Returns (fun later : d.Later => good later) bad (d.advance hend) := by
  rw [Descent.advance]
  split
  · next after hnext =>
    rw [hnext] at h
    exact h
  · next e hnext =>
    rw [hnext] at h
    exact h

def Ends (d : Descent) : Prop := d.current.token = .endOfInput ∨ d.current.token = .rightParen

def StartsAtom (d : Descent) : Prop :=
  d.current.token = .leftParen ∨ ∃ x, d.current.token = .var x

theorem not_startsAtom {d : Descent} (hparen : d.current.token ≠ .leftParen)
    (hvar : ∀ x, d.current.token ≠ .var x) : ¬d.StartsAtom := by
  rintro (h | ⟨x, h⟩)
  · exact hparen h
  · exact hvar x h

/-- The lookahead is one of a text of so many characters. -/
structure Sound (length : Nat) (d : Descent) : Prop where
  finish : d.lexer.finish = length
  readable : d.current.token.Readable
  position : d.current.token = .endOfInput → d.current.position = length

variable {length : Nat} {d : Descent}

theorem next_returns (hfinish : d.lexer.finish = length) :
    Returns (·.Sound length) (·.Possible length) d.next := by
  have hnext := d.advances_next
  generalize d.next = result at hnext ⊢
  cases hnext with
  | finished _ hlexer => exact ⟨hlexer.trans hfinish, trivial, fun _ => hfinish⟩
  | token _ hreadable hend hlexer =>
    exact ⟨hlexer.trans hfinish, hreadable, fun h => absurd h hend⟩
  | illegal _ hblank hsymbol hstart => exact .illegalCharacter hblank hsymbol hstart

theorem Sound.advance_returns (hd : d.Sound length) (hend : d.current.token ≠ .endOfInput) :
    Returns (fun later : d.Later => later.val.Sound length) (·.Possible length)
      (d.advance hend) :=
  (next_returns hd.finish).advance hend

-- ---------------------------------------------------------------------------
-- The productions
-- ---------------------------------------------------------------------------

theorem expression_of_lambda (h : d.current.token = .lambda) :
    d.expression = d.abstraction (by simp [h]) := by
  rw [expression]
  split <;> simp_all

theorem expression_of_startsAtom (h : d.StartsAtom) : d.expression = d.application := by
  rw [expression]
  obtain hparen | ⟨x, hvar⟩ := h <;> split <;> simp_all

theorem applicants_of_startsAtom (h : d.StartsAtom) (read : List Term) :
    d.applicants read = do
      let (term, ⟨d₁, h₁⟩) ← d.atom
      let (terms, ⟨d₂, h₂⟩) ← d₁.applicants (read ++ [term])
      return (terms, ⟨d₂, Nat.le_of_lt (Nat.lt_of_le_of_lt h₂ h₁)⟩) := by
  rw [applicants]
  obtain hparen | ⟨x, hvar⟩ := h <;> split <;> simp_all

structure Closed (length : Nat) (d : Descent) : Prop extends d.Sound length where
  ends : d.Ends

def ReturnBelow (length size : Nat) : Prop :=
  ∀ d : Descent, d.size < size → d.Sound length →
    Returns (fun result => result.2.val.Closed length) (·.Possible length) d.expression

theorem abstraction_returns (ih : ReturnBelow length d.size) (hd : d.Sound length)
    (hend : d.current.token ≠ .endOfInput) :
    Returns (fun result => result.2.val.Closed length) (·.Possible length)
      (d.abstraction hend) := by
  rw [abstraction]
  refine (hd.advance_returns _).bind ?_
  rintro ⟨d₁, hlt₁⟩ (h₁ : d₁.Sound length)
  dsimp only
  split
  case h_2 => exact .throw (.abstraction h₁.readable)
  case h_1 binder hbinder =>
    refine (h₁.advance_returns _).bind ?_
    rintro ⟨d₂, hlt₂⟩ (h₂ : d₂.Sound length)
    dsimp only
    split
    case h_2 => exact .throw (.abstraction h₂.readable)
    case h_1 hdot =>
      refine (h₂.advance_returns _).bind ?_
      rintro ⟨d₃, hlt₃⟩ h₃
      refine (ih d₃ (by omega) h₃).bind ?_
      rintro ⟨body, d₄, hle₄⟩ h₄
      exact .pure h₄

theorem atom_returns (ih : ReturnBelow length d.size) (hd : d.Sound length)
    (hatom : d.StartsAtom) :
    Returns (fun result => result.2.val.Sound length) (·.Possible length) d.atom := by
  rw [atom]
  split
  case h_1 hparen =>
    refine (hd.advance_returns _).bind ?_
    rintro ⟨d₁, hlt₁⟩ h₁
    refine (ih d₁ hlt₁ h₁).bind ?_
    rintro ⟨term, d₂, hle₂⟩ (h₂ : d₂.Closed length)
    dsimp only
    split
    case h_1 hright =>
      refine (h₂.advance_returns _).bind ?_
      rintro ⟨d₃, hlt₃⟩ h₃
      exact .pure h₃
    case h_2 hright =>
      have hend := h₂.ends.resolve_right hright
      rw [h₂.position hend]
      exact .throw .unmatchedParenthesis
  case h_2 x hvar =>
    refine (hd.advance_returns _).bind ?_
    rintro d₁ h₁
    exact .pure h₁
  case h_3 hparen hvar => exact absurd hatom (not_startsAtom hparen hvar)

/-- The applicants go up to what ends an expression, and there is one if there
is one to begin with. -/
theorem applicants_returns {d : Descent} (read : List Term) (ih : ReturnBelow length d.size)
    (hd : d.Sound length) (hread : read = [] → ¬d.Ends) :
    Returns (fun result => result.2.val.Closed length ∧ result.1 ≠ []) (·.Possible length)
      (d.applicants read) := by
  by_cases hatom : d.StartsAtom
  · rw [applicants_of_startsAtom hatom]
    refine (atom_returns ih hd hatom).bind ?_
    rintro ⟨term, d₁, hlt₁⟩ h₁
    refine (applicants_returns (read ++ [term]) ?_ h₁ (by simp)).bind ?_
    · exact fun next hlt => ih next (Nat.lt_trans hlt hlt₁)
    · rintro ⟨terms, d₂, hle₂⟩ h₂
      exact .pure h₂
  · rw [applicants]
    split
    case h_1 x hvar => exact absurd (.inr ⟨x, hvar⟩) hatom
    case h_2 hparen => exact absurd (.inl hparen) hatom
    case h_3 hlambda =>
      rw [expression_of_lambda hlambda]
      refine (abstraction_returns ih hd _).bind ?_
      rintro ⟨term, d₁⟩ h₁
      exact .pure ⟨h₁, by simp⟩
    case h_4 hend =>
      have hends : d.Ends := .inl hend
      exact .pure ⟨⟨hd, hends⟩, fun h => hread h hends⟩
    case h_5 hright =>
      have hends : d.Ends := .inr hright
      exact .pure ⟨⟨hd, hends⟩, fun h => hread h hends⟩
    case h_6 =>
      rw [unexpected]
      cases htoken : d.current.token with
      | start => exact (htoken ▸ hd.readable).elim
      | dot => exact .throw .application
      | _ => simp_all
termination_by d.size

theorem application_returns (ih : ReturnBelow length d.size) (hd : d.Sound length)
    (hends : ¬d.Ends) :
    Returns (fun result => result.2.val.Closed length) (·.Possible length) d.application := by
  rw [application]
  refine (applicants_returns [] ih hd fun _ => hends).bind ?_
  rintro ⟨terms, d₁⟩ ⟨h₁, hne⟩
  cases terms with
  | nil => exact absurd rfl hne
  | cons fn arguments => exact .pure h₁

theorem expression_returns {d : Descent} (hd : d.Sound length) :
    Returns (fun result => result.2.val.Closed length) (·.Possible length) d.expression := by
  have ih : ReturnBelow length d.size := fun next hlt hnext => expression_returns hnext
  rw [expression]
  split
  case h_1 hlambda => exact abstraction_returns ih hd _
  case h_2 x hvar => exact application_returns ih hd (by simp [Ends, hvar])
  case h_3 hparen => exact application_returns ih hd (by simp [Ends, hparen])
  case h_4 =>
    rw [unexpected]
    cases htoken : d.current.token with
    | start => exact (htoken ▸ hd.readable).elim
    | dot => exact .throw (.expression (by simp))
    | rightParen => exact .throw (.expression (by simp))
    | endOfInput => exact .throw (.expression (by simp))
    | _ => simp_all
termination_by d.size

theorem run_returns (text : String) :
    Returns (fun _ => True) (·.Possible text.length) (run text) := by
  rw [run]
  refine ((next_returns (Lexer.finish_ofString text)).advance _).bind ?_
  rintro ⟨d₁, hlt₁⟩ h₁
  refine (expression_returns h₁).bind ?_
  rintro ⟨term, d₂, hle₂⟩ (h₂ : d₂.Closed text.length)
  dsimp only
  split
  case h_1 => exact .pure trivial
  case h_2 token hend =>
    rw [h₂.ends.resolve_left hend]
    exact .throw .trailingInput

end Descent

end SimpleTypes
