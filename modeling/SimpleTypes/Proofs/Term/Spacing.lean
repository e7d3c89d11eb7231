import SimpleTypes.Proofs.Term.Errors

/-!
# Blanks between tokens do not matter

A text may be cut wherever no name goes on across the cut (`Apart`): its
readings are those of the two parts, one after the other (`Reads.append`).
Blanks put in at the cut are not read, so the same readings are given, only
further to the right (`exists_reads_moved`).

What a reader makes of readings does not depend on their places, but for the
place of an error. This is said by moving everything to one place: that may be
done before reading or after (`Reader.readAll_moveTo`). Hence blanks change
neither the term nor the kind of the error (`parse_insert_blanks`), and a text
may be trimmed before it is read.
-/

namespace SimpleTypes

-- ---------------------------------------------------------------------------
-- Forgetting places
-- ---------------------------------------------------------------------------

def Reading.moveTo (place : Nat) : Reading → Reading
  | .token t _ => .token t place
  | .illegal c _ => .illegal c place

namespace ParseError

theorem moveTo_position (error : ParseError) : error.moveTo error.position = error := by
  cases error <;> rfl

theorem moveTo_moveTo (error : ParseError) (place place' : Nat) :
    (error.moveTo place).moveTo place' = error.moveTo place' := by
  cases error <;> rfl

end ParseError

namespace Reader

theorem read_moveTo (reader : Reader) (token : Token) (position place : Nat) :
    (reader.read token position).mapError (·.moveTo place) = reader.read token place := by
  obtain ⟨mode, stack⟩ := reader
  cases mode with
  | expression => cases token <;> rfl
  | binder => cases token <;> rfl
  | dot x => cases token <;> rfl
  | spine fn =>
    cases token with
    | rightParen =>
      simp only [read, readSpine, close]
      split <;> rfl
    | _ => rfl

theorem finish_moveTo (reader : Reader) (position place : Nat) :
    (reader.finish position).mapError (·.moveTo place) = reader.finish place := by
  obtain ⟨mode, stack⟩ := reader
  cases mode with
  | spine fn =>
    simp only [finish]
    split <;> rfl
  | _ => rfl

theorem readAll_moveTo (reader : Reader) (readings : List Reading) (place : Nat) :
    (reader.readAll readings).mapError (·.moveTo place) =
      reader.readAll (readings.map (·.moveTo place)) := by
  induction readings generalizing reader with
  | nil => rfl
  | cons reading rest ih =>
    cases reading with
    | illegal c position => rfl
    | token token position =>
      simp only [List.map_cons, Reading.moveTo, readAll, ← read_moveTo reader token position place]
      cases reader.read token position with
      | error e => rfl
      | ok next => exact ih next

end Reader

theorem mapError_eq_ok_iff {ε ε' α : Type} {x : Except ε α} {a : α} (f : ε → ε') :
    x.mapError f = .ok a ↔ x = .ok a := by
  cases x <;> simp [Except.mapError]

def parseUnplaced (text : String) : Except ParseError Term := (parse text).mapError (·.moveTo 0)

theorem parseUnplaced_eq (text : String) :
    parseUnplaced text =
      (Reader.readAll {} ((Lexer.ofString text).readings.map (·.moveTo 0))).bind (·.finish 0) := by
  rw [← Reader.readAll_moveTo, parseUnplaced, parse]
  cases Reader.readAll {} (Lexer.ofString text).readings with
  | error e => rfl
  | ok reader => exact reader.finish_moveTo text.length 0

/-- The texts are read as the same term, or with errors that differ in their
places at most. -/
def ReadAlike (first second : String) : Prop :=
  (∀ term, parse first = .ok term ↔ parse second = .ok term) ∧
    ∀ error error', parse first = .error error → parse second = .error error' →
      ∃ place, error' = error.moveTo place

theorem ReadAlike.of_unplaced {first second : String}
    (h : parseUnplaced first = parseUnplaced second) : ReadAlike first second := by
  unfold parseUnplaced at h
  constructor
  · intro term
    rw [← mapError_eq_ok_iff (ParseError.moveTo 0), h, mapError_eq_ok_iff]
  · intro error error' hfirst hsecond
    rw [hfirst, hsecond] at h
    have hmoved : error.moveTo 0 = error'.moveTo 0 := by simpa [Except.mapError] using h
    refine ⟨error'.position, ?_⟩
    rw [← error.moveTo_moveTo 0, hmoved, error'.moveTo_moveTo, error'.moveTo_position]

-- ---------------------------------------------------------------------------
-- Cutting a text
-- ---------------------------------------------------------------------------

/-- No name goes on from the end of the one into the other. -/
def Apart (first second : List Char) : Prop :=
  (∀ c ∈ first.getLast?, isNameChar c = false) ∨ EndsName second

theorem Apart.of_append {first second : List Char} (front : List Char)
    (h : Apart (front ++ first) second) : Apart first second := by
  refine h.imp_left ?_
  intro hlast c hc
  refine hlast c ?_
  rw [List.getLast?_append, Option.mem_def.mp hc]
  rfl

theorem Apart.endsName {word first second : List Char} (h : Apart (word ++ first) second)
    (hword : ∀ c ∈ word, isNameChar c = true) (hne : word ≠ []) (hend : EndsName first) :
    EndsName (first ++ second) := by
  cases first with
  | cons c rest => exact .cons (hend c rfl)
  | nil =>
    -- The word itself is what stands before the cut.
    rcases h with hlast | hsecond
    · have hmem := List.getLast_mem hne
      have hname := hword _ hmem
      rw [List.append_nil] at hlast
      cases (hlast _ (List.getLast?_eq_some_getLast hne)).symm.trans hname
    · exact hsecond

theorem isNameChar_of_isBlank {c : Char} (h : Text.isBlank c = true) : isNameChar c = false := by
  cases hname : isNameChar c with
  | false => rfl
  | true => cases (not_isBlank_of_isNameChar hname).symm.trans h

theorem Apart.blanks {first second blanks : List Char} (h : Apart first second)
    (hblanks : ∀ c ∈ blanks, Text.isBlank c = true) : Apart first (blanks ++ second) := by
  cases blanks with
  | nil => exact h
  | cons c rest => exact .inr (.cons (isNameChar_of_isBlank (hblanks c List.mem_cons_self)))

theorem add_length_cons (position : Nat) (c : Char) (rest : List Char) :
    position + (c :: rest).length = position + 1 + rest.length := by
  rw [List.length_cons, Nat.add_right_comm, Nat.add_assoc]

namespace Reads

variable {position : Nat} {chars first second : List Char} {readings others : List Reading}

theorem append (h : Reads position first readings)
    (hsecond : Reads (position + first.length) second others) (hcut : Apart first second) :
    Reads position (first ++ second) (readings ++ others) := by
  induction h with
  | nil => exact hsecond
  | @blank position c rest readings hblank _ ih =>
    rw [add_length_cons] at hsecond
    exact .blank hblank (ih hsecond (hcut.of_append [c]))
  | @symbol position c rest token readings hsymbol _ ih =>
    rw [add_length_cons] at hsecond
    exact .symbol hsymbol (ih hsecond (hcut.of_append [c]))
  | @name position x rest readings hx hend _ ih =>
    rw [List.length_append, String.length_toList, ← Nat.add_assoc] at hsecond
    have hne : x.toList ≠ [] := by
      obtain ⟨c, tail, hlist, -⟩ := Name.exists_cons hx
      simp [hlist]
    have hend' : EndsName (rest ++ second) := hcut.endsName (Name.isNameChar_of_mem hx) hne hend
    rw [List.append_assoc]
    exact .name hx hend' (ih hsecond (hcut.of_append _))
  | @illegal position c rest readings hblank hsymbol hstart _ ih =>
    rw [add_length_cons] at hsecond
    exact .illegal hblank hsymbol hstart (ih hsecond (hcut.of_append [c]))

theorem blanks {blanks : List Char} (hblanks : ∀ c ∈ blanks, Text.isBlank c = true)
    (h : Reads (position + blanks.length) chars readings) :
    Reads position (blanks ++ chars) readings := by
  induction blanks generalizing position with
  | nil => exact h
  | cons c rest ih =>
    obtain ⟨hc, hrest⟩ := List.forall_mem_cons.mp hblanks
    rw [add_length_cons] at h
    exact .blank hc (ih hrest h)

theorem exists_reads_moved (h : Reads position chars readings) (start : Nat) :
    ∃ moved, Reads start chars moved ∧
      moved.map (·.moveTo 0) = readings.map (·.moveTo 0) := by
  induction h generalizing start with
  | nil => exact ⟨[], .nil, rfl⟩
  | blank hblank _ ih =>
    obtain ⟨moved, hreads, heq⟩ := ih (start + 1)
    exact ⟨moved, .blank hblank hreads, heq⟩
  | symbol hsymbol _ ih =>
    obtain ⟨moved, hreads, heq⟩ := ih (start + 1)
    exact ⟨_, .symbol hsymbol hreads, congrArg (List.cons _) heq⟩
  | @name _ x _ _ hx hend _ ih =>
    obtain ⟨moved, hreads, heq⟩ := ih (start + x.length)
    exact ⟨_, .name hx hend hreads, congrArg (List.cons _) heq⟩
  | illegal hblank hsymbol hstart _ ih =>
    obtain ⟨moved, hreads, heq⟩ := ih (start + 1)
    exact ⟨_, .illegal hblank hsymbol hstart hreads, congrArg (List.cons _) heq⟩

end Reads

-- ---------------------------------------------------------------------------
-- Putting blanks in
-- ---------------------------------------------------------------------------

theorem moveTo_readings_blanks {first second blanks : List Char} (hcut : Apart first second)
    (hblanks : ∀ c ∈ blanks, Text.isBlank c = true) :
    (Lexer.mk (first ++ (blanks ++ second)) 0).readings.map (·.moveTo 0) =
      (Lexer.mk (first ++ second) 0).readings.map (·.moveTo 0) := by
  have hfirst := Lexer.reads_readings 0 first
  have hsecond := Lexer.reads_readings (0 + first.length) second
  obtain ⟨moved, hmoved, heq⟩ :=
    hsecond.exists_reads_moved (0 + first.length + blanks.length)
  have hshort := hfirst.append hsecond hcut
  have hlong := hfirst.append (hmoved.blanks hblanks) (hcut.blanks hblanks)
  rw [hshort.readings_eq, hlong.readings_eq, List.map_append, List.map_append, heq]

theorem parseUnplaced_blanks {first second blanks : String}
    (hcut : Apart first.toList second.toList)
    (hblanks : ∀ c ∈ blanks.toList, Text.isBlank c = true) :
    parseUnplaced (first ++ blanks ++ second) = parseUnplaced (first ++ second) := by
  rw [parseUnplaced_eq, parseUnplaced_eq]
  simp only [Lexer.ofString, String.toList_append, List.append_assoc]
  rw [moveTo_readings_blanks hcut hblanks]

namespace Text

theorem exists_blanks (text : String) :
    ∃ before after : String, text = before ++ trim text ++ after ∧
      (∀ c ∈ before.toList, isBlank c = true) ∧ ∀ c ∈ after.toList, isBlank c = true := by
  let front := text.toList.takeWhile isBlank
  let middle := trimStartChars text.toList
  let back := (middle.reverse.takeWhile isBlank).reverse
  have hmiddle : trimEndChars middle ++ back = middle := by
    simp only [trimEndChars, back, ← List.reverse_append, List.takeWhile_append_dropWhile,
      List.reverse_reverse]
  refine ⟨String.ofList front, String.ofList back, ?_, ?_, ?_⟩
  · apply String.toList_inj.mp
    rw [String.toList_append, String.toList_append, toList_trim, String.toList_ofList,
      String.toList_ofList, trimChars, List.append_assoc, hmiddle]
    exact (List.takeWhile_append_dropWhile ..).symm
  · intro c hc
    rw [String.toList_ofList] at hc
    exact List.all_eq_true.mp List.all_takeWhile c hc
  · intro c hc
    rw [String.toList_ofList] at hc
    exact List.all_eq_true.mp List.all_takeWhile c (List.mem_reverse.mp hc)

end Text

theorem parseUnplaced_trim (text : String) :
    parseUnplaced (Text.trim text) = parseUnplaced text := by
  obtain ⟨before, after, htext, hbefore, hafter⟩ := Text.exists_blanks text
  have hfront : parseUnplaced ("" ++ before ++ (Text.trim text ++ after)) =
      parseUnplaced ("" ++ (Text.trim text ++ after)) :=
    parseUnplaced_blanks (.inl (by simp)) hbefore
  have hback : parseUnplaced (Text.trim text ++ after ++ "") =
      parseUnplaced (Text.trim text ++ "") :=
    parseUnplaced_blanks (.inr .nil) hafter
  simp only [String.empty_append, String.append_empty] at hfront hback
  rw [← String.append_assoc, ← htext] at hfront
  rw [hfront, hback]

/-- Blanks may be put in wherever they cut no name in two, and may be trimmed,
without changing what a text is read as. -/
theorem parse_insert_blanks :
    (∀ first second blanks : String, Apart first.toList second.toList →
      (∀ c ∈ blanks.toList, Text.isBlank c = true) →
        ReadAlike (first ++ blanks ++ second) (first ++ second)) ∧
    ∀ text, ReadAlike (Text.trim text) text := by
  refine ⟨?_, fun text => .of_unplaced (parseUnplaced_trim text)⟩
  intro first second blanks hcut hblanks
  exact .of_unplaced (parseUnplaced_blanks hcut hblanks)

/-- A wide blank and a line feed before a parenthesis, with an illegal character
further on; and blanks around a text that has too many parentheses. -/
theorem parse_insert_blanks_wide :
    ReadAlike ("f1" ++ "\u2003\n" ++ "(\\x. x #)") ("f1" ++ "(\\x. x #)") ∧
    parse ("f1" ++ "\u2003\n" ++ "(\\x. x #)") = .error (.illegalCharacter '#' 11) ∧
    parse ("f1" ++ "(\\x. x #)") = .error (.illegalCharacter '#' 9) ∧
    ReadAlike (Text.trim "\u00a0x) y\r\n") "\u00a0x) y\r\n" ∧
    parse "\u00a0x) y\r\n" = .error (.trailingInput .rightParen 2) := by
  have hcut : Apart "f1".toList "(\\x. x #)".toList := .inr (.cons (by decide))
  have hwide : ∀ c ∈ "\u2003\n".toList, Text.isBlank c = true := List.all_eq_true.mp (by decide)
  exact ⟨parse_insert_blanks.1 _ _ _ hcut hwide, by cbv, by cbv, parse_insert_blanks.2 _, by cbv⟩

end SimpleTypes
