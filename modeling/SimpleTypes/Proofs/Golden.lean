import SimpleTypes.Proofs.Batch
import SimpleTypes.Shell.Run
import SimpleTypes.Shell.Workspace

/-!
# What a comparison accepts

No answer reads `<missing>`, so a comparison fails wherever an answer has no
expected line beside it. The other way round it does not: expected lines that
read `<missing>` pass where there are no more answers. A comparison passes
exactly if the expected lines are the answers with any number of such lines
behind them (`passed_iff`).

The answers that `runTest` writes are accepted, unless there are none
(`compareFiles_runTest`).
-/

namespace SimpleTypes.Golden

variable {expected actual : List String}

-- ---------------------------------------------------------------------------
-- Rows
-- ---------------------------------------------------------------------------

theorem all_passed_rowsFrom (h : missing ∉ actual) (number : Nat) :
    (rowsFrom number expected actual).all Row.passed = true ↔
      ∃ count, expected = actual ++ List.replicate count missing := by
  fun_induction rowsFrom number expected actual with
  | case1 number => exact ⟨fun _ => ⟨0, rfl⟩, fun _ => rfl⟩
  | case2 number e expected ih =>
    simp only [List.all_cons, Bool.and_eq_true, ih h, Row.passed, beq_iff_eq]
    constructor
    · rintro ⟨rfl, count, rfl⟩
      exact ⟨count + 1, rfl⟩
    · rintro ⟨count, heq⟩
      cases count with
      | zero => cases heq
      | succ count =>
        cases heq
        exact ⟨rfl, count, rfl⟩
  | case3 number a actual ih =>
    have hne : missing ≠ a := fun heq => h (heq ▸ List.mem_cons_self)
    simp [Row.passed, hne]
  | case4 number e expected a actual ih =>
    rw [List.mem_cons, not_or] at h
    simp only [List.all_cons, Bool.and_eq_true, ih h.2, Row.passed, beq_iff_eq,
      List.cons_append, List.cons.injEq, exists_and_left]

theorem missing_not_mem_answers (input : String) : missing ∉ Batch.answers input := by
  intro hmem
  obtain ⟨line, -, hanswer⟩ := List.mem_map.mp hmem
  unfold Batch.answer Batch.answerTrimmed at hanswer
  split at hanswer
  · next hremark =>
    rw [hanswer] at hremark
    exact absurd hremark (by decide)
  · -- The line and its verdict are divided by a blank.
    have hblank : ' ' ∈ missing.toList := by
      rw [← hanswer]
      simp
    exact absurd hblank (by decide)

-- ---------------------------------------------------------------------------
-- Comparisons
-- ---------------------------------------------------------------------------

theorem Comparison.failure?_eq_none_iff (c : Comparison) : c.failure? = none ↔ c.passed = true := by
  unfold failure?
  split <;> simp_all

theorem passed_compare (input expected : String) :
    (compare input expected).passed = true ↔
      ∃ count, Text.lines expected = Batch.answers input ++ List.replicate count missing :=
  all_passed_rowsFrom (missing_not_mem_answers input) 1

/-- What passes, which is what gives no failure; and the condition under which
only equal lines pass. -/
theorem passed_iff (input expected : String) :
    ((compare input expected).passed = true ↔
      ∃ count, Text.lines expected = Batch.answers input ++ List.replicate count missing) ∧
    ((compare input expected).failure? = none ↔ (compare input expected).passed = true) ∧
    (((compare input expected).passed = true ↔ Text.lines expected = Batch.answers input) ↔
      ∀ count, Text.lines expected ≠
        Batch.answers input ++ List.replicate (count + 1) missing) := by
  refine ⟨passed_compare input expected, Comparison.failure?_eq_none_iff _, ?_⟩
  rw [passed_compare]
  constructor
  · intro hequal count heq
    have hlines := hequal.mp ⟨count + 1, heq⟩
    simp [hlines] at heq
  · intro hnone
    constructor
    · rintro ⟨count, heq⟩
      cases count with
      | zero => simpa using heq
      | succ count => exact absurd heq (hnone count)
    · intro heq
      exact ⟨0, by simpa using heq⟩

/-- The second expected line passes although nothing answers it. -/
theorem passed_missing_line :
    let expected := "\\x.x : (a -> a)\n<missing>\n"
    (compare "\\x.x\n" expected).passed = true ∧ (compare "\\x.x\n" expected).failure? = none ∧
      Text.lines expected ≠ Batch.answers "\\x.x\n" := by
  intro expected
  have hparse : parse "\\x.x" = .ok (.abs "x" (.var "x")) := by cbv
  have htype : (Term.abs "x" (.var "x")).inferType = .ok (.arrow (.var 1) (.var 1)) := by cbv
  have hlines : Text.lines "\\x.x\n" = ["\\x.x"] := by decide
  have hanswers : Batch.answers "\\x.x\n" = ["\\x.x : (a -> a)"] := by
    rw [Batch.answers, hlines, List.map_singleton,
      Batch.answer_eq (by decide) (by decide) hparse htype]
    decide
  have hpassed : (compare "\\x.x\n" expected).passed = true := by
    rw [passed_compare, hanswers]
    exact ⟨1, by decide⟩
  refine ⟨hpassed, (Comparison.failure?_eq_none_iff _).mpr hpassed, ?_⟩
  rw [hanswers]
  decide

theorem passed_fileText_iff (content : String) :
    (compare content (Batch.fileText (Batch.answers content))).passed = true ↔ content ≠ "" := by
  constructor
  · rintro hpassed rfl
    have hfailed : (compare "" (Batch.fileText (Batch.answers ""))).passed = false := by cbv
    cases hfailed.symm.trans hpassed
  · intro hne
    rw [passed_compare]
    exact ⟨0, by simpa using Batch.lines_fileText hne⟩

end SimpleTypes.Golden

namespace SimpleTypes

-- ---------------------------------------------------------------------------
-- Files
-- ---------------------------------------------------------------------------

section

variable {S : Type} {files : Files (StateM S)} {s s' : S} {input output content : String}

theorem run_bind {α β : Type} {x : StateM S α} {a : α} (h : x.run s = (a, s'))
    (f : α → StateM S β) : (x >>= f).run s = (f a).run s' := by
  rw [StateT.run_bind, h]
  rfl

/-- In this state the path is read as the text, and reading changes nothing. -/
def Files.Reads (files : Files (StateM S)) (s : S) (path text : String) : Prop :=
  (files.read path).run s = (.ok text, s)

def Files.Writes (files : Files (StateM S)) (s : S) (path text : String) (s' : S) : Prop :=
  (files.write path text).run s = (.ok (), s')

namespace Shell

theorem run_compareFiles {expected wanted : String} (hinput : files.Reads s input content)
    (hexpected : files.Reads s expected wanted) :
    (compareFiles files input expected).run s = (.ok (Golden.compare content wanted), s) :=
  (run_bind hinput _).trans (run_bind hexpected _)

theorem run_save {answers : List String}
    (hwrite : files.Writes s output (Batch.fileText answers) s') :
    (save files output answers).run s = (.ofLines ["Results written to " ++ output] 0, s') :=
  run_bind hwrite _

theorem run_runTest (hinput : files.Reads s input content)
    (hwrite : files.Writes s output (Batch.fileText (Batch.answers content)) s') :
    ((runTest files input (some output)).run s).2 = s' := by
  rw [runTest, run_bind hinput]
  exact congrArg Prod.snd (run_bind (run_save hwrite) _)

/-- The answers to a text are written, kept beside the text, and compared with
it: this goes well, and reads the answers back, for every text but the empty one. -/
theorem compareFiles_runTest (hinput : files.Reads s input content)
    (hwrite : files.Writes s output (Batch.fileText (Batch.answers content)) s')
    (hkept : files.Reads s' input content)
    (hstored : files.Reads s' output (Batch.fileText (Batch.answers content))) :
    ((runTest files input (some output)).run s).2 = s' ∧
      (∃ comparison, ((compareFiles files input output).run s').1 = .ok comparison ∧
        (comparison.failure? = none ↔ content ≠ "")) ∧
      (Text.lines (Batch.fileText (Batch.answers content)) = Batch.answers content ↔
        content ≠ "") := by
  refine ⟨run_runTest hinput hwrite, ⟨_, congrArg Prod.fst (run_compareFiles hkept hstored), ?_⟩,
    ⟨?_, Batch.lines_fileText⟩⟩
  · rw [Golden.Comparison.failure?_eq_none_iff, Golden.passed_fileText_iff]
  · intro hlines
    rw [← Golden.passed_fileText_iff, Golden.passed_compare]
    exact ⟨0, by simpa using hlines⟩

end Shell

-- ---------------------------------------------------------------------------
-- Files of a workspace
-- ---------------------------------------------------------------------------

theorem decodeText?_encodeText (text : String) : decodeText? (encodeText text) = some text := by
  rw [decodeText?, encodeText, Array.toArray_toList]
  exact dif_pos text.isValidUTF8

namespace Workspace

variable {ws ws' : Workspace} {name text : String} {path : Path} {place : Place}

theorem read_eq (hpath : Path.ofString name = .ok path) (hplace : ws.resolve path = .ok place)
    (hbytes : ws.bytes? place = some (encodeText text)) : ws.read name = .ok text := by
  simp only [read, hpath, hplace, hbytes, decodeText?_encodeText, bind, Except.bind,
    Option.elim_some]

theorem write_eq (hpath : Path.ofString name = .ok path) (hplace : ws.target path = .ok place)
    (hfolder : ws.isFolder place = false) (hdevice : place ≠ nullDevice) :
    ws.write name text = .ok (ws.put place (encodeText text)) := by
  simp [write, hpath, hplace, hfolder, hdevice, bind, Except.bind]

theorem access_reads (h : ws.read name = .ok text) : access.Reads ws name text :=
  congrArg (·, ws) h

theorem access_writes (h : ws.write name text = .ok ws') : access.Writes ws name text ws' := by
  have hget : (get : StateM Workspace Workspace).run ws = (ws, ws) := rfl
  refine (run_bind hget _).trans ?_
  rw [h]
  rfl

end Workspace

namespace Shell

theorem compareFiles_runTest_kept :
    let before : Workspace := ⟨[(["tmp", "", "i"], encodeText "y\n\n")]⟩
    let after := before.put ["tmp", "", "o"] (encodeText "y : a\n\n")
    ((runTest Workspace.access "i" (some "o")).run before).2 = after ∧
      ∃ comparison, ((compareFiles Workspace.access "i" "o").run after).1 = .ok comparison ∧
        comparison.failure? = none := by
  intro before after
  have hparse : parse "y" = .ok (.var "y") := by cbv
  have htype : (Term.var "y").inferType = .ok (.var 1) := by cbv
  have hlines : Text.lines "y\n\n" = ["y", ""] := by decide
  have hanswers : Batch.answers "y\n\n" = ["y : a", ""] := by
    rw [Batch.answers, hlines, List.map_cons,
      Batch.answer_eq (by decide) (by decide) hparse htype]
    decide
  have hinput : Workspace.access.Reads before "i" "y\n\n" :=
    Workspace.access_reads (Workspace.read_eq rfl rfl rfl)
  have hwrite : Workspace.access.Writes before "o"
      (Batch.fileText (Batch.answers "y\n\n")) after := by
    rw [hanswers]
    exact Workspace.access_writes (Workspace.write_eq rfl rfl (by decide) (by decide))
  have hkept : Workspace.access.Reads after "i" "y\n\n" :=
    Workspace.access_reads (Workspace.read_eq rfl rfl rfl)
  have hstored : Workspace.access.Reads after "o"
      (Batch.fileText (Batch.answers "y\n\n")) := by
    rw [hanswers]
    exact Workspace.access_reads (Workspace.read_eq rfl rfl rfl)
  obtain ⟨hafter, ⟨comparison, hcomparison, hfailure⟩, -⟩ :=
    compareFiles_runTest hinput hwrite hkept hstored
  exact ⟨hafter, comparison, hcomparison, hfailure.mpr (by decide)⟩

/-- A line is written for a text that has none, and it is not accepted. -/
theorem compareFiles_runTest_empty :
    let before : Workspace := ⟨[(["tmp", "", "i"], [])]⟩
    let after := ((runTest Workspace.access "i" (some "o")).run before).2
    after.read "o" = .ok "\n" ∧ Text.lines "\n" ≠ Batch.answers "" ∧
      ∃ comparison, ((compareFiles Workspace.access "i" "o").run after).1 = .ok comparison ∧
        comparison.failure? =
          some "Golden test failed!\nline 1:\n  expected: \n  actual:   <missing>" := by
  intro before after
  have hinput : Workspace.access.Reads before "i" "" :=
    Workspace.access_reads (Workspace.read_eq rfl rfl rfl)
  have hwrite : Workspace.access.Writes before "o" (Batch.fileText (Batch.answers ""))
      (before.put ["tmp", "", "o"] (encodeText "\n")) :=
    Workspace.access_writes (Workspace.write_eq rfl rfl (by decide) (by decide))
  have hafter : after = before.put ["tmp", "", "o"] (encodeText "\n") := run_runTest hinput hwrite
  rw [hafter]
  have hstored : (before.put ["tmp", "", "o"] (encodeText "\n")).read "o" = .ok "\n" :=
    Workspace.read_eq rfl rfl rfl
  have hkept : (before.put ["tmp", "", "o"] (encodeText "\n")).read "i" = .ok "" :=
    Workspace.read_eq rfl rfl rfl
  refine ⟨hstored, by decide, Golden.compare "" "\n", ?_, by cbv⟩
  exact congrArg Prod.fst
    (run_compareFiles (Workspace.access_reads hkept) (Workspace.access_reads hstored))

end Shell

end

end SimpleTypes
