import Mathlib.Data.List.Forall2
import SimpleTypes.Batch
import SimpleTypes.Proofs.Term.Spacing
import SimpleTypes.Proofs.Text.Lines

/-!
# Each line is answered on its own

The answers to a text are given line by line, so a text may be cut behind a line
feed and its parts answered apart (`answers_append`). A line is trimmed before
it is read, but this is not seen in its answer: the line as it stands is checked
with the same outcome (`check_trim_eq_ok_iff`), or has the same error at another
place (`exists_check_trim_error`).
-/

namespace SimpleTypes

variable {text line : String} {outcome : Outcome} {error : ParseError}

-- ---------------------------------------------------------------------------
-- Checking a trimmed line
-- ---------------------------------------------------------------------------

theorem readAlike_trim (text : String) : ReadAlike text (Text.trim text) :=
  .of_unplaced (parseUnplaced_trim text).symm

theorem check_eq_ok_iff :
    check text = .ok outcome ↔ ∃ term, parse text = .ok term ∧ Outcome.ofTerm term = outcome := by
  unfold check
  cases parse text <;> simp [Except.map]

theorem check_eq_error_iff : check text = .error error ↔ parse text = .error error := by
  unfold check
  cases parse text <;> simp [Except.map]

theorem check_trim_eq_ok_iff : check (Text.trim text) = .ok outcome ↔ check text = .ok outcome := by
  simp only [check_eq_ok_iff, (readAlike_trim text).1]

theorem exists_check_trim_error (h : check text = .error error) :
    ∃ place, check (Text.trim text) = .error (error.moveTo place) := by
  cases htrim : check (Text.trim text) with
  | ok outcome => cases h.symm.trans (check_trim_eq_ok_iff.mp htrim)
  | error trimmed =>
    rw [check_eq_error_iff] at h htrim
    obtain ⟨place, rfl⟩ := (readAlike_trim text).2 error trimmed h htrim
    exact ⟨place, rfl⟩

namespace Batch

-- ---------------------------------------------------------------------------
-- The verdict on a line
-- ---------------------------------------------------------------------------

theorem verdict_of_typed {d : Derivation} (h : check line = .ok (.typed d)) :
    verdict line = d.ty.normalized := by
  obtain ⟨term, hparse, houtcome⟩ := check_eq_ok_iff.mp h
  unfold Outcome.ofTerm at houtcome
  split at houtcome
  · next d' hderive =>
    cases houtcome
    simp [verdict, hparse, Term.inferType, hderive, Except.map]
  · cases houtcome

theorem verdict_of_noType {cause : TypeError} (h : check line = .ok (.noType cause)) :
    verdict line = noTypeText := by
  obtain ⟨term, hparse, houtcome⟩ := check_eq_ok_iff.mp h
  unfold Outcome.ofTerm at houtcome
  split at houtcome
  · cases houtcome
  · next cause' hderive => simp [verdict, hparse, Term.inferType, hderive, Except.map]

theorem verdict_of_error (h : check line = .error error) :
    verdict line = "PARSE ERROR: " ++ error.message := by
  simp [verdict, check_eq_error_iff.mp h]

/-- The text says what checking the line gives, blanks and all. The place of an
error is the one that it has in the trimmed line. -/
inductive Verdict (line : String) : String → Prop
  | typed {d : Derivation} : check line = .ok (.typed d) → Verdict line d.ty.normalized
  | noType {cause : TypeError} : check line = .ok (.noType cause) → Verdict line noTypeText
  | malformed {error : ParseError} {place : Nat} : check line = .error error →
      check (Text.trim line) = .error (error.moveTo place) →
      Verdict line ("PARSE ERROR: " ++ (error.moveTo place).message)

theorem verdict_trim (line : String) : Verdict line (verdict (Text.trim line)) := by
  cases h : check line with
  | ok outcome =>
    have htrim := check_trim_eq_ok_iff.mpr h
    cases outcome with
    | typed d => exact verdict_of_typed htrim ▸ .typed h
    | noType cause => exact verdict_of_noType htrim ▸ .noType h
  | error error =>
    obtain ⟨place, htrim⟩ := exists_check_trim_error h
    exact verdict_of_error htrim ▸ .malformed h htrim

-- ---------------------------------------------------------------------------
-- The answers to a text
-- ---------------------------------------------------------------------------

/-- What is given for a line: the line itself without the blanks around it, and
behind it the verdict unless it is a remark. -/
inductive Answered (line : String) : String → Prop
  | remark : isRemark (Text.trim line) = true → Answered line (Text.trim line)
  | expression {text : String} : isRemark (Text.trim line) = false → Verdict line text →
      Answered line (Text.trim line ++ " : " ++ text)

theorem answered_answer (line : String) : Answered line (answer line) := by
  unfold answer answerTrimmed
  split
  · next h => exact .remark h
  · next h => exact .expression (Bool.eq_false_iff.mpr h) (verdict_trim line)

theorem answers_append {first : String} (h : first = "" ∨ ∃ front, first = front ++ "\n")
    (second : String) : answers (first ++ second) = answers first ++ answers second := by
  rw [answers, Text.lines_append h, List.map_append, answers, answers]

/-- Parts of a text that are cut behind a line feed are answered apart, and each
line is given what checking it alone, untrimmed, comes to. -/
theorem answers_by_line :
    (∀ first second : String, (first = "" ∨ ∃ front, first = front ++ "\n") →
      answers (first ++ second) = answers first ++ answers second) ∧
    ∀ content, List.Forall₂ Answered (Text.lines content) (answers content) := by
  refine ⟨fun first second h => answers_append h second, ?_⟩
  intro content
  exact List.forall₂_map_right_iff.mpr (List.forall₂_same.mpr fun line _ => answered_answer line)

/-- A remark and an expression with blanks around it, in lines that end with a
carriage return; and a last line that has a blank before it and no line feed. -/
theorem answers_by_line_mixed :
    let first := "# same\r\n\u2003\\x. x\t\r\n"
    let second := "\u00a0f (x"
    (∃ front, first = front ++ "\n") ∧
    answers (first ++ second) =
      ["# same", "\\x. x : (a -> a)"] ++ ["f (x : PARSE ERROR: No right parenthesis at 4"] ∧
    Answered second "f (x : PARSE ERROR: No right parenthesis at 4" ∧
    check second = .error (.unmatchedParenthesis 5) := by
  intro first second
  have hfront : ∃ front, first = front ++ "\n" := ⟨"# same\r\n\u2003\\x. x\t\r", by decide⟩
  have hfirst : answers first = ["# same", "\\x. x : (a -> a)"] := by
    have hlines : Text.lines first = ["# same", "\u2003\\x. x\t"] := by decide
    have htrim : Text.trim "\u2003\\x. x\t" = "\\x. x" := by decide
    have hcheck : ∃ d, check "\\x. x" = .ok (.typed d) ∧ d.ty = .arrow (.var 1) (.var 1) :=
      ⟨_, by cbv, rfl⟩
    obtain ⟨d, hcheck, hty⟩ := hcheck
    rw [answers, hlines, List.map_cons, List.map_singleton, answer, answer, htrim, answerTrimmed,
      answerTrimmed, verdict_of_typed hcheck, hty]
    decide
  have hlines : Text.lines second = [second] := by decide
  have hsecond : answers second = ["f (x : PARSE ERROR: No right parenthesis at 4"] := by
    have htrim : Text.trim second = "f (x" := by decide
    have hcheck : check "f (x" = .error (.unmatchedParenthesis 4) := by cbv
    rw [answers, hlines, List.map_singleton, answer, htrim, answerTrimmed, verdict_of_error hcheck]
    decide
  have hraw : check "\u00a0f (x" = .error (.unmatchedParenthesis 5) := by cbv
  have happend := answers_by_line.1 first second (.inr hfront)
  have hanswered := answers_by_line.2 second
  rw [hfirst, hsecond] at happend
  rw [hlines, hsecond, List.forall₂_cons] at hanswered
  exact ⟨hfront, happend, hanswered.1, hraw⟩

end Batch

end SimpleTypes
