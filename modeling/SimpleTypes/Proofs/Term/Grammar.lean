import SimpleTypes.Term.Grammar

/-!
# The grammar read from the left

The grammar builds a spine from its left end, so it says what an expression is
but not what its first token decides. Here a spine is taken apart again as its
first atom and the `Tail` behind it. `Then` puts a demand on what follows a
phrase, and the three equations `then_expression_iff`, `then_atom_iff` and
`then_tail_iff` say which tokens a phrase may begin with and what is demanded
behind each of them.
-/

namespace SimpleTypes.Grammar

/-- What may follow a spine in its expression, and the term it makes of it. -/
inductive Tail : Term → List Token → Term → Prop
  | nil {fn} : Tail fn [] fn
  | atom {fn front arg back term} : Atom front arg → Tail (.app fn arg) back term →
      Tail fn (front ++ back) term
  | abstraction {fn x tokens body} : Expression tokens body →
      Tail fn (.lambda :: .var x :: .dot :: tokens) (.app fn (.abs x body))

theorem Spine.expression {front back : List Token} {fn term : Term} (hspine : Spine front fn)
    (htail : Tail fn back term) : Expression (front ++ back) term := by
  induction htail generalizing front with
  | nil => simpa using Expression.spine hspine
  | atom hatom _ ih => simpa using ih (.app hspine hatom)
  | abstraction hbody => exact .applied hspine hbody

theorem Spine.exists_tail {back : List Token} {term : Term} :
    ∀ {front fn}, Spine front fn → Tail fn back term →
      ∃ first head rest, front ++ back = first ++ rest ∧ Atom first head ∧ Tail head rest term
  | _, _, .atom hatom, htail => ⟨_, _, _, rfl, hatom, htail⟩
  | _, _, .app hspine hatom, htail => by
    obtain ⟨first, head, rest, heq, hfirst, hrest⟩ := hspine.exists_tail (.atom hatom htail)
    exact ⟨first, head, rest, by rw [← heq, List.append_assoc], hfirst, hrest⟩

-- ---------------------------------------------------------------------------
-- The first token of a phrase
-- ---------------------------------------------------------------------------

/-- The tokens begin with a phrase, and go on as is demanded behind its term. -/
def Then (phrase : List Token → Term → Prop) (demand : Term → List Token → Prop)
    (tokens : List Token) : Prop :=
  ∃ front back term, tokens = front ++ back ∧ phrase front term ∧ demand term back

def Closed (demand : Term → List Token → Prop) (term : Term) (tokens : List Token) : Prop :=
  ∃ rest, tokens = .rightParen :: rest ∧ demand term rest

variable {demand : Term → List Token → Prop} {tokens : List Token} {fn : Term}

theorem then_atom_iff : Then Atom demand tokens ↔
    (∃ x rest, tokens = .var x :: rest ∧ demand (.var x) rest) ∨
      ∃ rest, tokens = .leftParen :: rest ∧ Then Expression (Closed demand) rest := by
  constructor
  · rintro ⟨_, back, term, rfl, hatom, h⟩
    cases hatom with
    | var x => exact .inl ⟨x, back, rfl, h⟩
    | group hinner => exact .inr ⟨_, rfl, _, _, _, by simp, hinner, back, rfl, h⟩
  · rintro (⟨x, rest, rfl, h⟩ | ⟨_, rfl, _, _, term, rfl, hinner, rest, rfl, h⟩)
    · exact ⟨_, rest, _, rfl, .var x, h⟩
    · exact ⟨_, rest, term, by simp, .group hinner, h⟩

theorem then_expression_iff : Then Expression demand tokens ↔
    (∃ x rest, tokens = .lambda :: .var x :: .dot :: rest ∧
      Then Expression (fun body => demand (.abs x body)) rest) ∨
      Then Atom (fun fn => Then (Tail fn) demand) tokens := by
  constructor
  · rintro ⟨_, back, term, rfl, hexpression, h⟩
    -- Whatever ends the expression, a spine in it begins with its first atom.
    have hfirst {front fn rest} (hspine : Spine front fn) (htail : Tail fn rest term) :
        Then Atom (fun fn => Then (Tail fn) demand) (front ++ rest ++ back) := by
      obtain ⟨first, head, rest, heq, hatom, htail⟩ := hspine.exists_tail htail
      exact ⟨first, rest ++ back, head, by simp [heq], hatom, rest, back, term, rfl, htail, h⟩
    cases hexpression with
    | abstraction hbody => exact .inl ⟨_, _, rfl, _, back, _, rfl, hbody, h⟩
    | spine hspine => exact .inr (by simpa using hfirst hspine .nil)
    | applied hspine hbody => exact .inr (hfirst hspine (.abstraction hbody))
  · rintro (⟨x, _, rfl, front, back, body, rfl, hbody, h⟩ |
      ⟨first, _, head, rfl, hatom, front, back, term, rfl, htail, h⟩)
    · exact ⟨_, back, _, rfl, .abstraction hbody, h⟩
    · exact ⟨_, back, term, by simp, (Spine.atom hatom).expression htail, h⟩

theorem then_tail_iff : Then (Tail fn) demand tokens ↔
    demand fn tokens ∨ Then Atom (fun arg => Then (Tail (.app fn arg)) demand) tokens ∨
      ∃ x rest, tokens = .lambda :: .var x :: .dot :: rest ∧
        Then Expression (fun body => demand (.app fn (.abs x body))) rest := by
  constructor
  · rintro ⟨_, back, term, rfl, htail, h⟩
    cases htail with
    | nil => exact .inl h
    | atom hatom htail =>
      exact .inr (.inl ⟨_, _, _, by simp, hatom, _, back, _, rfl, htail, h⟩)
    | abstraction hbody => exact .inr (.inr ⟨_, _, rfl, _, back, _, rfl, hbody, h⟩)
  · rintro (h | ⟨first, _, arg, rfl, hatom, front, back, term, rfl, htail, h⟩ |
      ⟨x, _, rfl, front, back, body, rfl, hbody, h⟩)
    · exact ⟨[], tokens, fn, rfl, .nil, h⟩
    · exact ⟨_, back, term, by simp, .atom hatom htail, h⟩
    · exact ⟨_, back, _, rfl, .abstraction hbody, h⟩

end SimpleTypes.Grammar
