import SimpleTypes.Proofs.Term.Descent
import SimpleTypes.Term.Reader

/-!
# The descent reads as the reader does

Where the descent calls, the reader pushes a frame; where the descent returns,
the reader has read the term but keeps its frames until a token closes them. The
two agree because the lookahead behind an expression is such a token
(`Descent.Ends`), so what encloses the expression takes the term at once
(`Descent.feed_of_ends`).

One token is followed by one step (`Descent.next_follows`), each production
follows the reader through all of its tokens, and a whole run gives what `parse`
gives (`Descent.run_eq`).
-/

namespace SimpleTypes

def Lexer.feed (lexer : Lexer) (reader : Reader) : Except ParseError Term :=
  reader.readAll lexer.readings >>= (·.finish lexer.finish)

/-- The reader behind a term or, with none, before one. -/
def Reader.behind : Option Term → List Frame → Reader
  | none, stack => ⟨.expression, stack⟩
  | some fn, stack => ⟨.spine fn, stack⟩

theorem Term.applied?_append (read : List Term) (term : Term) :
    applied? (read ++ [term]) = some (Reader.applyTo (applied? read) term) := by
  cases read <;> simp [applied?, Reader.applyTo]

namespace Descent

open Reader (behind applyTo unwind Frame)

/-- What the reader makes of the rest of a text, the lookahead included. -/
def feed (d : Descent) (reader : Reader) : Except ParseError Term :=
  match d.current.token with
  | .endOfInput => reader.finish d.current.position
  | token => reader.read token d.current.position >>= d.lexer.feed

variable {length : Nat} {d : Descent} {stack : List Frame}

-- ---------------------------------------------------------------------------
-- One token
-- ---------------------------------------------------------------------------

theorem feed_lambda (h : d.current.token = .lambda) :
    d.feed ⟨.expression, stack⟩ = d.lexer.feed ⟨.binder, stack⟩ := by
  rw [feed, h]
  rfl

theorem feed_binder {x : Name} (h : d.current.token = .var x) :
    d.feed ⟨.binder, stack⟩ = d.lexer.feed ⟨.dot x, stack⟩ := by
  rw [feed, h]
  rfl

theorem feed_binder_error (h : ∀ x, d.current.token ≠ .var x) :
    d.feed ⟨.binder, stack⟩ = .error (d.unexpected .abstraction) := by
  rw [feed, unexpected]
  cases htoken : d.current.token with
  | var x => exact absurd htoken (h x)
  | _ => rfl

theorem feed_dot {x : Name} (h : d.current.token = .dot) :
    d.feed ⟨.dot x, stack⟩ = d.lexer.feed ⟨.expression, .body x :: stack⟩ := by
  rw [feed, h]
  rfl

theorem feed_dot_error {x : Name} (h : d.current.token ≠ .dot) :
    d.feed ⟨.dot x, stack⟩ = .error (d.unexpected .abstraction) := by
  rw [feed, unexpected]
  cases htoken : d.current.token with
  | dot => exact absurd htoken h
  | _ => rfl

theorem feed_argument {fn : Term} (h : d.current.token = .lambda) :
    d.feed ⟨.spine fn, stack⟩ = d.feed ⟨.expression, .argument fn :: stack⟩ := by
  rw [feed, feed, h]
  rfl

theorem feed_leftParen (h : d.current.token = .leftParen) (fn? : Option Term) :
    d.feed (behind fn? stack) = d.lexer.feed ⟨.expression, .group fn? :: stack⟩ := by
  rw [feed, h]
  cases fn? <;> rfl

theorem feed_rightParen {term : Term} {fn? : Option Term} (h : d.current.token = .rightParen) :
    d.feed ⟨.spine term, .group fn? :: stack⟩ =
      d.lexer.feed ⟨.spine (applyTo fn? term), stack⟩ := by
  rw [feed, h]
  rfl

theorem feed_open {term : Term} {fn? : Option Term} (h : d.current.token = .endOfInput) :
    d.feed ⟨.spine term, .group fn? :: stack⟩ =
      .error (.unmatchedParenthesis d.current.position) := by
  rw [feed, h]
  rfl

theorem feed_var {x : Name} (h : d.current.token = .var x) (fn? : Option Term) :
    d.feed (behind fn? stack) = d.lexer.feed ⟨.spine (applyTo fn? (.var x)), stack⟩ := by
  rw [feed, h]
  cases fn? <;> rfl

theorem feed_of_ends {term term' : Term} {stack' : List Frame} (hends : d.Ends)
    (h : unwind term stack = unwind term' stack') :
    d.feed ⟨.spine term, stack⟩ = d.feed ⟨.spine term', stack'⟩ := by
  obtain hend | hright := hends
  · simp only [feed, hend, Reader.finish, h]
  · simp only [feed, hright, Reader.read, Reader.readSpine, Reader.close, h]

theorem next_follows (d : Descent) (reader : Reader) :
    Returns (fun next => d.lexer.feed reader = next.feed reader) (d.lexer.feed reader = .error ·)
      d.next := by
  have hnext := d.advances_next
  generalize d.next = result at hnext ⊢
  cases hnext with
  | finished hreadings =>
    rw [Lexer.feed, hreadings]
    rfl
  | @token lexer token position hreadings _ hend hlexer =>
    rw [Lexer.feed, hreadings, ← hlexer]
    cases token with
    | endOfInput => exact absurd rfl hend
    | _ => exact bind_assoc _ _ _
  | illegal hreadings =>
    rw [Lexer.feed, hreadings]
    rfl

theorem Sound.advance_follows (hd : d.Sound length) (hend : d.current.token ≠ .endOfInput)
    (reader : Reader) :
    Returns (fun later : d.Later =>
        later.val.Sound length ∧ d.lexer.feed reader = later.val.feed reader)
      (d.lexer.feed reader = .error ·) (d.advance hend) :=
  ((next_returns hd.finish).and (d.next_follows reader)).advance hend

-- ---------------------------------------------------------------------------
-- The productions
-- ---------------------------------------------------------------------------

/-- From `d` on the reader does what the result says: it fails with the error,
or it goes on behind the term. -/
def Follows (length : Nat) (d : Descent) (stack : List Frame) :
    Except ParseError (Term × d.Rest) → Prop :=
  Returns (fun result => result.2.val.Closed length ∧
      d.feed ⟨.expression, stack⟩ = result.2.val.feed ⟨.spine result.1, stack⟩)
    (d.feed ⟨.expression, stack⟩ = .error ·)

def FollowBelow (length size : Nat) : Prop :=
  ∀ d : Descent, d.size < size → d.Sound length → ∀ stack, d.Follows length stack d.expression

theorem abstraction_follows (ih : FollowBelow length d.size) (hd : d.Sound length)
    (hlambda : d.current.token = .lambda) (stack : List Frame) :
    d.Follows length stack (d.abstraction (by simp [hlambda])) := by
  rw [Follows, abstraction, feed_lambda hlambda]
  refine (hd.advance_follows _ _).bind ?_
  rintro ⟨d₁, hlt₁⟩ ⟨(h₁ : d₁.Sound length), hfeed₁⟩
  rw [hfeed₁]
  dsimp only
  split
  case h_2 hbinder => exact .throw (feed_binder_error hbinder)
  case h_1 binder hbinder =>
    rw [feed_binder hbinder]
    refine (h₁.advance_follows _ _).bind ?_
    rintro ⟨d₂, hlt₂⟩ ⟨(h₂ : d₂.Sound length), hfeed₂⟩
    rw [hfeed₂]
    dsimp only
    split
    case h_2 hdot => exact .throw (feed_dot_error hdot)
    case h_1 hdot =>
      rw [feed_dot hdot]
      refine (h₂.advance_follows _ _).bind ?_
      rintro ⟨d₃, hlt₃⟩ ⟨(h₃ : d₃.Sound length), hfeed₃⟩
      rw [hfeed₃]
      refine (ih d₃ (by omega) h₃ _).bind ?_
      rintro ⟨body, d₄, hle₄⟩ ⟨(h₄ : d₄.Closed length), hfeed₄⟩
      exact .pure ⟨h₄, hfeed₄.trans (feed_of_ends h₄.ends rfl)⟩

theorem atom_follows (ih : FollowBelow length d.size) (hd : d.Sound length)
    (hatom : d.StartsAtom) (fn? : Option Term) (stack : List Frame) :
    Returns (fun result => result.2.val.Sound length ∧
        d.feed (behind fn? stack) = result.2.val.feed ⟨.spine (applyTo fn? result.1), stack⟩)
      (d.feed (behind fn? stack) = .error ·) d.atom := by
  rw [atom]
  split
  case h_1 hparen =>
    rw [feed_leftParen hparen]
    refine (hd.advance_follows _ _).bind ?_
    rintro ⟨d₁, hlt₁⟩ ⟨(h₁ : d₁.Sound length), hfeed₁⟩
    rw [hfeed₁]
    refine (ih d₁ hlt₁ h₁ _).bind ?_
    rintro ⟨term, d₂, hle₂⟩ ⟨(h₂ : d₂.Closed length), hfeed₂⟩
    rw [hfeed₂]
    dsimp only
    split
    case h_1 hright =>
      rw [feed_rightParen hright]
      refine (h₂.advance_follows _ _).bind ?_
      rintro ⟨d₃, hlt₃⟩ h₃
      exact .pure h₃
    case h_2 hright => exact .throw (feed_open (h₂.ends.resolve_right hright))
  case h_2 x hvar =>
    rw [feed_var hvar]
    refine (hd.advance_follows _ _).bind ?_
    rintro d₁ h₁
    exact .pure h₁
  case h_3 hparen hvar => exact absurd hatom (not_startsAtom hparen hvar)

theorem applicants_follows {d : Descent} (read : List Term) (ih : FollowBelow length d.size)
    (hd : d.Sound length) (hread : read = [] → d.StartsAtom) (stack : List Frame) :
    Returns (fun result => ∃ term, Term.applied? result.1 = some term ∧
        d.feed (behind (Term.applied? read) stack) = result.2.val.feed ⟨.spine term, stack⟩)
      (d.feed (behind (Term.applied? read) stack) = .error ·) (d.applicants read) := by
  by_cases hatom : d.StartsAtom
  · rw [applicants_of_startsAtom hatom]
    refine (atom_follows ih hd hatom _ _).bind ?_
    rintro ⟨term, d₁, hlt₁⟩ ⟨h₁, hfeed₁⟩
    have hrest := applicants_follows (read ++ [term])
      (fun next hlt => ih next (Nat.lt_trans hlt hlt₁)) h₁ (by simp) stack
    rw [Term.applied?_append, behind, ← hfeed₁] at hrest
    refine hrest.bind ?_
    rintro ⟨terms, d₂, hle₂⟩ h₂
    exact .pure h₂
  · obtain ⟨fn, hfn⟩ : ∃ fn, Term.applied? read = some fn := by
      cases read with
      | nil => exact absurd (hread rfl) hatom
      | cons fn arguments => exact ⟨_, rfl⟩
    rw [applicants, hfn, behind]
    split
    case h_1 x hvar => exact absurd (.inr ⟨x, hvar⟩) hatom
    case h_2 hparen => exact absurd (.inl hparen) hatom
    case h_3 hlambda =>
      rw [feed_argument hlambda, expression_of_lambda hlambda]
      refine (abstraction_follows ih hd hlambda (.argument fn :: stack)).bind ?_
      rintro ⟨term, d₁, hle₁⟩ ⟨(h₁ : d₁.Closed length), hfeed₁⟩
      refine .pure ⟨.app fn term, ?_, hfeed₁.trans (feed_of_ends h₁.ends rfl)⟩
      rw [Term.applied?_append, hfn, applyTo]
    case h_4 => exact .pure ⟨fn, hfn, rfl⟩
    case h_5 => exact .pure ⟨fn, hfn, rfl⟩
    case h_6 =>
      rw [unexpected, feed]
      cases htoken : d.current.token with
      | start => exact (htoken ▸ hd.readable).elim
      | dot => exact .throw rfl
      | _ => simp_all
termination_by d.size

theorem expression_follows {d : Descent} (hd : d.Sound length) (stack : List Frame) :
    d.Follows length stack d.expression := by
  have ih : FollowBelow length d.size := fun next hlt hnext => expression_follows hnext
  by_cases hatom : d.StartsAtom
  · refine (expression_returns hd).and ?_
    rw [expression_of_startsAtom hatom, application]
    refine (applicants_follows [] ih hd (fun _ => hatom) stack).bind ?_
    rintro ⟨terms, d₁⟩ ⟨term, hterm, hfeed₁⟩
    simp only [hterm]
    exact .pure hfeed₁
  · rw [expression]
    split
    case h_1 hlambda => exact abstraction_follows ih hd hlambda stack
    case h_2 x hvar => exact absurd (.inr ⟨x, hvar⟩) hatom
    case h_3 hparen => exact absurd (.inl hparen) hatom
    case h_4 =>
      rw [Follows, unexpected, feed]
      cases htoken : d.current.token with
      | lambda => simp_all
      | var x => simp_all
      | leftParen => simp_all
      | _ => exact .throw rfl
termination_by d.size

theorem run_eq (text : String) : run text = parse text := by
  have hfinish := Lexer.finish_ofString text
  have hparse : parse text = (ofString text).lexer.feed {} := by
    change _ = (Lexer.ofString text).feed {}
    rw [parse, Lexer.feed, hfinish]
  have hreturns : Returns (parse text = .ok ·) (parse text = .error ·) (run text) := by
    rw [hparse, run]
    refine (((next_returns hfinish).and (next_follows _ {})).advance _).bind ?_
    rintro ⟨d₁, hlt₁⟩ ⟨(h₁ : d₁.Sound text.length), hfeed₁⟩
    rw [hfeed₁]
    refine (expression_follows h₁ []).bind ?_
    rintro ⟨term, d₂, hle₂⟩ ⟨(h₂ : d₂.Closed text.length), hfeed₂⟩
    rw [hfeed₂, feed]
    obtain hend | hright := h₂.ends
    · simp only [hend]
      exact .pure rfl
    · simp only [hright]
      exact .throw rfl
  cases h : run text with
  | ok term => exact (h ▸ hreturns : Returns _ _ (.ok term)).symm
  | error e => exact (h ▸ hreturns : Returns _ _ (.error e)).symm

end Descent

end SimpleTypes
