import SimpleTypes.Table

/-!
# Untyped lambda terms

Names are arbitrary strings: a term built by hand may use a name that no text
can spell. `Name.isIdentifier` says which names can be written.
-/

namespace SimpleTypes

abbrev Name := String

def isNameStart (c : Char) : Bool := 'a' ≤ c && c ≤ 'z'

def isNameChar (c : Char) : Bool := isNameStart c || ('0' ≤ c && c ≤ '9') || c == '\x27'

/-- A small letter followed by small letters, digits and apostrophes. -/
def Name.isIdentifier (name : Name) : Bool :=
  match name.toList with
  | [] => false
  | c :: rest => isNameStart c && rest.all isNameChar

theorem isNameChar_of_isNameStart {c : Char} (h : isNameStart c = true) : isNameChar c = true := by
  simp [isNameChar, h]

inductive Term where
  | var (name : Name)
  | abs (binder : Name) (body : Term)
  | app (fn arg : Term)
  deriving DecidableEq, Repr, Inhabited

namespace Term

/-- The head of an abstraction as it is printed. -/
def renderBinder (binder : Name) : String := "\\" ++ binder ++ "."

/-- Every abstraction and application stands in its own parentheses. -/
def render : Term → String
  | .var name => name
  | .abs binder body => "(" ++ renderBinder binder ++ body.render ++ ")"
  | .app fn arg => "(" ++ fn.render ++ " " ++ arg.render ++ ")"

/-- The free names as a set, in order. -/
def freeSet : Term → Table Name Unit
  | .var name => Table.empty.insert name ()
  | .abs binder body => body.freeSet.erase binder
  | .app fn arg => fn.freeSet.override arg.freeSet

def freeVars (term : Term) : List Name := term.freeSet.keys

/-- An inner binder hides an outer one of the same name. -/
inductive FreeIn (x : Name) : Term → Prop
  | var : FreeIn x (.var x)
  | abs {binder body} : x ≠ binder → FreeIn x body → FreeIn x (.abs binder body)
  | fn {fn arg} : FreeIn x fn → FreeIn x (.app fn arg)
  | arg {fn arg} : FreeIn x arg → FreeIn x (.app fn arg)

theorem mem_freeVars_iff {x : Name} {term : Term} : x ∈ term.freeVars ↔ FreeIn x term := by
  unfold freeVars
  rw [Table.mem_keys_iff]
  induction term with
  | var name =>
    by_cases h : x = name
    · subst h; simp [freeSet, FreeIn.var]
    · simp only [freeSet, Table.get?_insert, h, if_false, Table.get?_empty]
      exact ⟨fun hn => (nomatch hn), fun hn => by cases hn; exact absurd rfl h⟩
  | abs binder body ih =>
    by_cases h : x = binder
    · simp only [freeSet, Table.get?_erase, h, if_true]
      exact ⟨fun hn => (nomatch hn), fun hn => by cases hn; contradiction⟩
    · simp only [freeSet, Table.get?_erase, h, if_false, ih]
      exact ⟨.abs h, fun hn => by cases hn; assumption⟩
  | app fn arg ihf iha =>
    simp only [freeSet, Table.get?_override, Option.isSome_or, Bool.or_eq_true, ihf, iha]
    constructor
    · rintro (h | h)
      · exact .arg h
      · exact .fn h
    · intro h
      cases h with
      | fn h => exact .inr h
      | arg h => exact .inl h

end Term

end SimpleTypes
