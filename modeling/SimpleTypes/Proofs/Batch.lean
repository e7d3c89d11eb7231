import SimpleTypes.Batch
import SimpleTypes.Proofs.Term.Reader
import SimpleTypes.Proofs.Text.Lines
import SimpleTypes.Proofs.Ty.Normalized

/-!
# Answers are single lines

An answer is made of a trimmed line and of text that cannot break it: letters
and arrows of a type, or the words of an error with a number, an identifier or
a character that is not blank (`isLine_answer`). So the answers that are
written to a file are its lines again (`lines_fileText`). The exception is a
text without lines. It has no answers, but one empty line is written for them.
-/

namespace SimpleTypes

open Text (IsLine)

-- ---------------------------------------------------------------------------
-- Parts of an answer
-- ---------------------------------------------------------------------------

theorem isLine_repr (n : Nat) : IsLine n.repr := by
  refine Text.isLine_of_all (p := Char.isDigit) ?_ (by decide) (by decide)
  intro c hc
  rw [Nat.repr_eq_ofList_toDigits, String.toList_ofList] at hc
  exact Nat.isDigit_of_mem_toDigits (by decide) (by decide) hc

theorem isLine_toString {c : Char} (h : Text.isBlank c = false) : IsLine c.toString := by
  refine Text.isLine_of_all (p := fun d => !Text.isBlank d) ?_ (by decide) (by decide)
  intro d hd
  obtain rfl : d = c := by simpa [Char.toString] using hd
  simp [h]

theorem Name.isLine {x : Name} (h : x.isIdentifier = true) : IsLine x :=
  Text.isLine_of_all (Name.isNameChar_of_mem h) (by decide) (by decide)

theorem Token.isLine_render {text : List Char} {token : Token} {position : Nat}
    (h : (Reading.token token position).Of text) : IsLine token.render := by
  cases h with
  | symbol _ hsymbol =>
    obtain ⟨-, rfl⟩ | ⟨-, rfl⟩ | ⟨-, rfl⟩ | ⟨-, rfl⟩ := Token.ofSymbol?_eq_some_iff.mp hsymbol <;>
      decide
  | name _ hname =>
    exact (IsLine.append (by decide) (Name.isLine hname)).append (by decide)

theorem ParseError.isLine_message {text : String} {error : ParseError}
    (h : parse text = .error error) : IsLine error.message := by
  obtain ⟨reading, hreports, hreading⟩ := exists_reports h
  have htoken {token : Token} {position : Nat} (heq : reading = .token token position) :
      IsLine token.render := by
    subst heq
    rcases hreading with hmem | hend
    · exact Token.isLine_render (Lexer.of_mem_readings_ofString hmem)
    · cases hend
      decide
  cases hreports with
  | @illegalCharacter c position =>
    rcases hreading with hmem | hend
    · cases Lexer.of_mem_readings_ofString hmem with
      | illegal _ hblank _ _ =>
        exact ((IsLine.append (by decide) (isLine_toString hblank)).append (by decide)).append
          (isLine_repr position)
    · cases hend
  | @unexpectedToken token position production =>
    have hproduction : IsLine production.render := by cases production <;> decide
    exact (((((IsLine.append (by decide) (htoken rfl)).append (by decide)).append
      (isLine_repr position)).append (by decide)).append hproduction).append (by decide)
  | @unmatchedParenthesis token position =>
    exact IsLine.append (by decide) (isLine_repr position)
  | @trailingInput token position =>
    exact ((IsLine.append (by decide) (htoken rfl)).append (by decide)).append
      (isLine_repr position)

theorem Ty.isLine_renderWith {name : TyVar → String} (h : ∀ v, IsLine (name v)) (ty : Ty) :
    IsLine (ty.renderWith name) := by
  induction ty with
  | var v => exact h v
  | arrow a b iha ihb =>
    exact (((IsLine.append (by decide) iha).append (by decide)).append ihb).append (by decide)

theorem Ty.isLine_normalized (ty : Ty) : IsLine ty.normalized :=
  ty.isLine_renderWith fun _ => Name.isLine (isIdentifier_letterName _)

-- ---------------------------------------------------------------------------
-- Answers
-- ---------------------------------------------------------------------------

namespace Batch

theorem answer_eq {line text : String} {term : Term} {ty : Ty} (htrim : Text.trim line = text)
    (hremark : isRemark text = false) (hparse : parse text = .ok term)
    (htype : term.inferType = .ok ty) : answer line = text ++ " : " ++ ty.normalized := by
  subst htrim
  simp [answer, answerTrimmed, hremark, verdict, hparse, htype]

theorem isLine_verdict (line : String) : IsLine (verdict line) := by
  unfold verdict
  split
  · next error herror => exact IsLine.append (by decide) (ParseError.isLine_message herror)
  · split
    · next ty _ => exact ty.isLine_normalized
    · decide

theorem isLine_answer {line : String} (h : '\n' ∉ line.toList) : IsLine (answer line) := by
  have htrim := Text.isLine_trim h
  unfold answer answerTrimmed
  split
  · exact htrim
  · exact (htrim.append (by decide)).append (isLine_verdict _)

theorem isLine_of_mem_answers {content a : String} (h : a ∈ answers content) : IsLine a := by
  obtain ⟨line, hline, rfl⟩ := List.mem_map.mp h
  exact isLine_answer (Text.not_mem_of_mem_lines hline)

theorem answers_eq_nil_iff {content : String} : answers content = [] ↔ content = "" := by
  rw [answers, List.map_eq_nil_iff, Text.lines_eq_nil_iff]

-- ---------------------------------------------------------------------------
-- Written answers
-- ---------------------------------------------------------------------------

theorem fileText_eq_unlines {answers : List String} (h : answers ≠ []) :
    fileText answers = Text.unlines answers := by
  unfold fileText
  induction answers with
  | nil => exact absurd rfl h
  | cons a rest ih =>
    cases rest with
    | nil => simp [Text.unlines]
    | cons b rest =>
      have hrest := ih (by simp)
      rw [String.intercalate_cons_cons, String.append_assoc, hrest]
      simp [Text.unlines]

theorem lines_fileText {content : String} (h : content ≠ "") :
    Text.lines (fileText (answers content)) = answers content := by
  rw [fileText_eq_unlines (mt answers_eq_nil_iff.mp h)]
  exact Text.lines_unlines fun _ => isLine_of_mem_answers

end Batch

end SimpleTypes
