import SimpleTypes.Proofs.Token.Scanner

/-!
# The lexer covers its text

A reading covers the places of its characters: those of the name, or one. The
places that the readings of a text cover, one reading after another, are those
of the characters that are not blank, in their order (`Reads.flatMap_places`).
So no character is read twice, none is left out but blanks, and the readings
stand one behind the other. No name could go on (`Reads.endsName`).
-/

namespace SimpleTypes

/-- The places of the characters that are not blank, where the first character
of all stands at `start`. -/
def Text.nonBlanks (start : Nat) (chars : List Char) : List Nat :=
  ((chars.zipIdx start).filter fun entry => !isBlank entry.1).map Prod.snd

def Reading.width : Reading → Nat
  | .token (.var x) _ => x.length
  | _ => 1

def Reading.places (reading : Reading) : List Nat := List.range' reading.position reading.width

namespace Text

variable {c : Char} {rest : List Char}

theorem nonBlanks_cons_of_blank (h : isBlank c = true) (start : Nat) :
    nonBlanks start (c :: rest) = nonBlanks (start + 1) rest := by
  simp [nonBlanks, h]

theorem nonBlanks_cons_of_not_blank (h : isBlank c = false) (start : Nat) :
    nonBlanks start (c :: rest) = start :: nonBlanks (start + 1) rest := by
  simp [nonBlanks, h]

theorem nonBlanks_append_of_not_blank {word : List Char} (h : ∀ c ∈ word, isBlank c = false)
    (start : Nat) :
    nonBlanks start (word ++ rest) =
      List.range' start word.length ++ nonBlanks (start + word.length) rest := by
  induction word generalizing start with
  | nil => simp
  | cons c word ih =>
    obtain ⟨hc, hword⟩ := List.forall_mem_cons.mp h
    rw [List.cons_append, nonBlanks_cons_of_not_blank hc, ih hword, List.length_cons,
      List.range'_succ, List.cons_append, Nat.add_right_comm, Nat.add_assoc]

end Text

theorem Token.ne_var_of_ofSymbol? {c : Char} {x : Name} : Token.ofSymbol? c ≠ some (.var x) := by
  intro h
  simpa using Token.ofSymbol?_eq_some_iff.mp h

theorem Reading.places_of_ofSymbol? {c : Char} {token : Token} (h : Token.ofSymbol? c = some token)
    (position : Nat) : (Reading.token token position).places = [position] := by
  cases token with
  | var x => exact absurd h Token.ne_var_of_ofSymbol?
  | _ => rfl

namespace Reads

variable {position : Nat} {chars : List Char} {readings : List Reading}

theorem flatMap_places (h : Reads position chars readings) :
    readings.flatMap Reading.places = Text.nonBlanks position chars := by
  induction h with
  | nil => rfl
  | blank hblank _ ih => rw [Text.nonBlanks_cons_of_blank hblank, ih]
  | symbol hsymbol _ ih =>
    rw [Text.nonBlanks_cons_of_not_blank (not_isBlank_of_ofSymbol? hsymbol), ← ih,
      List.flatMap_cons, Reading.places_of_ofSymbol? hsymbol]
    rfl
  | @name position x rest readings hx _ _ ih =>
    have hblanks : ∀ c ∈ x.toList, Text.isBlank c = false := fun c hc =>
      not_isBlank_of_isNameChar (Name.isNameChar_of_mem hx c hc)
    rw [Text.nonBlanks_append_of_not_blank hblanks, String.length_toList, ← ih]
    rfl
  | illegal hblank _ _ _ ih =>
    rw [Text.nonBlanks_cons_of_not_blank hblank, ← ih]
    rfl

theorem position_le (h : Reads position chars readings) :
    ∀ reading ∈ readings, position ≤ reading.position := by
  induction h with
  | nil => simp
  | blank _ _ ih => exact fun reading hmem => Nat.le_of_succ_le (ih reading hmem)
  | symbol _ _ ih =>
    exact List.forall_mem_cons.mpr
      ⟨Nat.le_refl _, fun reading hmem => Nat.le_of_succ_le (ih reading hmem)⟩
  | name _ _ _ ih =>
    exact List.forall_mem_cons.mpr
      ⟨Nat.le_refl _, fun reading hmem => Nat.le_trans (Nat.le_add_right _ _) (ih reading hmem)⟩
  | illegal _ _ _ _ ih =>
    exact List.forall_mem_cons.mpr
      ⟨Nat.le_refl _, fun reading hmem => Nat.le_of_succ_le (ih reading hmem)⟩

theorem increasing (h : Reads position chars readings) :
    readings.Pairwise (fun reading later => reading.position < later.position) := by
  induction h with
  | nil => exact .nil
  | blank _ _ ih => exact ih
  | symbol _ hrest ih => exact .cons hrest.position_le ih
  | @name position x _ _ hx _ hrest ih =>
    refine .cons ?_ ih
    intro later hlater
    obtain ⟨c, tail, hlist, -⟩ := Name.exists_cons hx
    have hlength : 0 < x.length := by simp [← String.length_toList, hlist]
    have hle := hrest.position_le later hlater
    exact Nat.lt_of_lt_of_le (Nat.lt_add_of_pos_right hlength) hle
  | illegal _ _ _ hrest ih => exact .cons hrest.position_le ih

theorem endsName {text : List Char} {x : Name} {place : Nat} (h : Reads position chars readings)
    (htext : text.drop position = chars) (hmem : .token (.var x) place ∈ readings) :
    EndsName (text.drop (place + x.length)) := by
  induction h with
  | nil => cases hmem
  | blank _ _ ih => exact ih (drop_succ_of_cons htext) hmem
  | symbol hsymbol _ ih =>
    rcases List.mem_cons.mp hmem with heq | hmem
    · cases heq
      exact absurd hsymbol Token.ne_var_of_ofSymbol?
    · exact ih (drop_succ_of_cons htext) hmem
  | name _ hend _ ih =>
    rcases List.mem_cons.mp hmem with heq | hmem
    · cases heq
      exact drop_name htext ▸ hend
    · exact ih (drop_name htext) hmem
  | illegal _ _ _ _ ih =>
    rcases List.mem_cons.mp hmem with heq | hmem
    · cases heq
    · exact ih (drop_succ_of_cons htext) hmem

end Reads

-- ---------------------------------------------------------------------------
-- Whole texts
-- ---------------------------------------------------------------------------

/-- The readings take the characters of the text that are not blank one after
another, each is what stands at its place, and no name is cut short. -/
structure Covers (text : List Char) (readings : List Reading) : Prop where
  places : readings.flatMap Reading.places = Text.nonBlanks 0 text
  increasing : readings.Pairwise fun reading later => reading.position < later.position
  of : ∀ reading ∈ readings, reading.Of text
  maximal : ∀ x position, .token (.var x) position ∈ readings →
    EndsName (text.drop (position + x.length))

theorem Lexer.covers_readings (text : String) : Covers text.toList (ofString text).readings where
  places := (reads_ofString text).flatMap_places
  increasing := (reads_ofString text).increasing
  of := (reads_ofString text).of_mem rfl
  maximal _ _ hmem := (reads_ofString text).endsName rfl hmem

/-- The calls of `next` give the readings of the text, which cover it, and then
the end behind its last character for ever. The tokens of the text are these
readings and the end, unless one is illegal: then the first such is the error.
A tokenizer with a lawful scanner gives the same, call by call. -/
theorem readings_cover (text : String) :
    let readings := (Lexer.ofString text).readings
    Covers text.toList readings ∧ (∀ position, .token .endOfInput position ∉ readings) ∧
      (∀ count, (Lexer.ofString text).take count = readings.take count ++
        List.replicate (count - readings.length) (.token .endOfInput text.length)) ∧
      (∀ placed, tokenize text = .ok placed ↔ ∃ tokens : List Placed,
        readings = tokens.map Placed.reading ∧
          placed = tokens ++ [⟨.endOfInput, text.length⟩]) ∧
      (∀ error, tokenize text = .error error ↔
        ∃ (before : List Placed) (c : Char) (position : Nat) (after : List Reading),
          readings = before.map Placed.reading ++ .illegal c position :: after ∧
            error = .illegalCharacter c position) ∧
      ∀ scan : Scanner, scan.Lawful → ∀ count, Tokenizer.take? scan ⟨text, 0⟩ count =
        some (((Lexer.ofString text).take count).map Reading.toExcept) := by
  intro readings
  refine ⟨Lexer.covers_readings text, Lexer.endOfInput_not_mem text, ?_,
    fun placed => tokenize_eq_ok_iff_readings, fun error => tokenize_eq_error_iff,
    fun scan hscan => Tokenizer.take?_eq hscan text⟩
  intro count
  rw [Lexer.take_eq, Lexer.finish_ofString]

/-- A blank of three bytes and an illegal character: places count characters,
and reading goes on behind the illegal one. -/
theorem readings_cover_wide :
    Scanner.byCharacters.Lawful ∧
    Tokenizer.take? Scanner.byCharacters ⟨"f\u2003x'1 X)", 0⟩ 6 =
      some [.ok ⟨.var "f", 0⟩, .ok ⟨.var "x'1", 2⟩, .error (.illegalCharacter 'X' 6),
        .ok ⟨.rightParen, 7⟩, .ok ⟨.endOfInput, 8⟩, .ok ⟨.endOfInput, 8⟩] ∧
    tokenize "f\u2003x'1 X)" = .error (.illegalCharacter 'X' 6) := by
  obtain ⟨-, -, htake, -, herror, hscan⟩ := readings_cover "f\u2003x'1 X)"
  have hreadings : (Lexer.ofString "f\u2003x'1 X)").readings =
      [.token (.var "f") 0, .token (.var "x'1") 2, .illegal 'X' 6, .token .rightParen 7] := by
    have hrest : Reads 2 ("x'1".toList ++ [' ', 'X', ')'])
        [.token (.var "x'1") 2, .illegal 'X' 6, .token .rightParen 7] :=
      .name (by decide) (.cons (by decide)) (.blank (by decide)
        (.illegal (by decide) (by decide) (by decide) (.symbol (by decide) .nil)))
    have hreads : Reads 0 ("f".toList ++ '\u2003' :: ("x'1".toList ++ [' ', 'X', ')']))
        [.token (.var "f") 0, .token (.var "x'1") 2, .illegal 'X' 6, .token .rightParen 7] :=
      .name (by decide) (.cons (by decide)) (.blank (by decide) hrest)
    exact hreads.readings_eq
  refine ⟨Scanner.lawful_byCharacters, ?_, ?_⟩
  · rw [hscan _ Scanner.lawful_byCharacters, htake, hreadings]
    rfl
  · exact (herror _).mpr ⟨[⟨.var "f", 0⟩, ⟨.var "x'1", 2⟩], 'X', 6, _, hreadings, rfl⟩

end SimpleTypes
