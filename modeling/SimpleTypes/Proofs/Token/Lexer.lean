import SimpleTypes.Token.Lexer

/-!
# What the lexer reads

`take` goes on for as long as it is asked and `readings` stops at the end of
the text: the former gives the latter and then the end token for ever
(`take_eq`).

`Reads` says which readings a list of characters gives at a position, one rule
for each kind of character at its front; its readings are those of the lexer
(`reads_iff`). What holds of all readings is proved by induction on it: every
reading is a symbol, a name or an illegal character, and stands where it says
(`Reads.of_mem`).

`Spells` relates characters to the tokens that they are read as, wherever the
characters stand. Its laws put one token in front of what is spelled already,
because how far a name goes depends on what is behind it.
-/

namespace SimpleTypes

theorem bind_eq_ok_iff {ε α β : Type} {x : Except ε α} {f : α → Except ε β} {b : β} :
    x >>= f = .ok b ↔ ∃ a, x = .ok a ∧ f a = .ok b := by
  cases x <;> simp [bind, Except.bind]

theorem length_takeWhile_add {α : Type} (p : α → Bool) (l : List α) :
    (l.takeWhile p).length + (l.dropWhile p).length = l.length := by
  rw [← List.length_append, List.takeWhile_append_dropWhile]

-- ---------------------------------------------------------------------------
-- The tokens of a text
-- ---------------------------------------------------------------------------

def Placed.reading (placed : Placed) : Reading := .token placed.token placed.position

theorem Reading.toExcept_eq_ok_iff {reading : Reading} {placed : Placed} :
    reading.toExcept = .ok placed ↔ reading = placed.reading := by
  obtain ⟨token, position⟩ := placed
  cases reading <;> simp [toExcept, Placed.reading]

theorem mapM_toExcept_eq_ok_iff {readings : List Reading} {placed : List Placed} :
    readings.mapM Reading.toExcept = .ok placed ↔ readings = placed.map Placed.reading := by
  induction readings generalizing placed with
  | nil => cases placed <;> simp [pure, Except.pure]
  | cons reading rest ih =>
    simp only [List.mapM_cons, bind_eq_ok_iff, Reading.toExcept_eq_ok_iff, ih]
    cases placed <;> simp [pure, Except.pure]

theorem mapM_toExcept_eq_error_iff {readings : List Reading} {error : ParseError} :
    readings.mapM Reading.toExcept = .error error ↔
      ∃ (before : List Placed) (c : Char) (position : Nat) (after : List Reading),
        readings = before.map Placed.reading ++ .illegal c position :: after ∧
          error = .illegalCharacter c position := by
  induction readings with
  | nil => simp [pure, Except.pure]
  | cons reading rest ih =>
    rw [List.mapM_cons]
    cases reading with
    | illegal c position =>
      constructor
      · rintro ⟨⟩
        exact ⟨[], c, position, rest, rfl, rfl⟩
      · rintro ⟨_ | ⟨placed, before⟩, c', position', after, hsplit, rfl⟩
        · cases hsplit
          rfl
        · cases hsplit
    | token token position =>
      -- A token in front changes neither whether the rest fails nor how.
      have hrest : (do
          let placed ← (Reading.token token position).toExcept
          let tail ← rest.mapM Reading.toExcept
          pure (placed :: tail)) = .error error ↔ rest.mapM Reading.toExcept = .error error := by
        cases rest.mapM Reading.toExcept <;>
          simp [Reading.toExcept, bind, Except.bind, pure, Except.pure]
      rw [hrest, ih]
      constructor
      · rintro ⟨before, c, position', after, rfl, rfl⟩
        exact ⟨⟨token, position⟩ :: before, c, position', after, rfl, rfl⟩
      · rintro ⟨_ | ⟨placed, before⟩, c, position', after, hsplit, rfl⟩
        · cases hsplit
        · exact ⟨before, c, position', after, List.tail_eq_of_cons_eq hsplit, rfl⟩

theorem tokenize_eq_ok_iff_readings {text : String} {placed : List Placed} :
    tokenize text = .ok placed ↔ ∃ tokens : List Placed,
      (Lexer.ofString text).readings = tokens.map Placed.reading ∧
        placed = tokens ++ [⟨.endOfInput, text.length⟩] := by
  simp only [tokenize, bind_eq_ok_iff, mapM_toExcept_eq_ok_iff]
  simp [pure, Except.pure, eq_comm]

theorem tokenize_eq_error_iff {text : String} {error : ParseError} :
    tokenize text = .error error ↔
      ∃ (before : List Placed) (c : Char) (position : Nat) (after : List Reading),
        (Lexer.ofString text).readings =
            before.map Placed.reading ++ .illegal c position :: after ∧
          error = .illegalCharacter c position := by
  rw [← mapM_toExcept_eq_error_iff, tokenize]
  cases (Lexer.ofString text).readings.mapM Reading.toExcept <;>
    simp [bind, Except.bind, pure, Except.pure]

theorem tokenize_eq_ok_iff {text : String} {tokens : List Token} :
    (tokenize text).map (List.map Placed.token) = .ok (tokens ++ [.endOfInput]) ↔
      ∃ placed : List Placed, (Lexer.ofString text).readings = placed.map Placed.reading ∧
        placed.map Placed.token = tokens := by
  simp only [← mapM_toExcept_eq_ok_iff, tokenize]
  cases (Lexer.ofString text).readings.mapM Reading.toExcept <;>
    simp [Except.map, bind, Except.bind, pure, Except.pure]

namespace Lexer

variable {lexer : Lexer} {c : Char} {rest : List Char} {position : Nat}

-- ---------------------------------------------------------------------------
-- One reading after another
-- ---------------------------------------------------------------------------

theorem next_of_nil (h : lexer.skipBlanks.rest = []) :
    lexer.next = (.token .endOfInput lexer.finish, lexer.skipBlanks) := by
  unfold next
  split <;> simp_all

theorem next_of_cons (h : lexer.skipBlanks.rest = c :: rest) :
    lexer.next = readAt lexer.skipBlanks.position c rest := by
  unfold next
  split <;> simp_all

theorem not_isBlank_skipBlanks {lexer : Lexer} {c : Char} {rest : List Char}
    (h : lexer.skipBlanks.rest = c :: rest) : Text.isBlank c = false := by
  have hhead := List.head?_dropWhile_not Text.isBlank lexer.rest
  change lexer.rest.dropWhile Text.isBlank = c :: rest at h
  rw [h] at hhead
  simpa using hhead

theorem finish_skipBlanks (lexer : Lexer) : lexer.skipBlanks.finish = lexer.finish := by
  have hlength := length_takeWhile_add Text.isBlank lexer.rest
  simp only [finish, skipBlanks]
  omega

theorem finish_readAt (position : Nat) (c : Char) (rest : List Char) :
    (readAt position c rest).2.finish = position + (c :: rest).length := by
  have hlength := length_takeWhile_add isNameChar rest
  unfold readAt
  split
  · simp only [finish, List.length_cons]
    omega
  · split <;> simp only [finish, List.length_cons] <;> omega

theorem finish_next (lexer : Lexer) : lexer.next.2.finish = lexer.finish := by
  rw [← finish_skipBlanks lexer]
  cases h : lexer.skipBlanks.rest with
  | nil => rw [next_of_nil h]
  | cons c rest => rw [next_of_cons h, finish_readAt, ← h, finish]

theorem take_eq (lexer : Lexer) (count : Nat) :
    lexer.take count = lexer.readings.take count ++
      List.replicate (count - lexer.readings.length) (.token .endOfInput lexer.finish) := by
  induction count generalizing lexer with
  | zero => simp [take]
  | succ count ih =>
    rw [take, ih, finish_next]
    cases h : lexer.skipBlanks.rest with
    | nil =>
      -- At the end the lexer stays where it is, so the end token repeats.
      have hagain : lexer.skipBlanks.skipBlanks.rest = [] := by
        rw [skipBlanks, h]
        rfl
      simp [next_of_nil h, readings_of_nil h, readings_of_nil hagain, List.replicate_succ]
    | cons c rest => simp [readings_of_cons h]

theorem take_of_readings {first after : List Reading} (h : lexer.readings = first ++ after) :
    lexer.take first.length = first := by
  simp [take_eq, h]

theorem take_end {first : List Reading} (h : lexer.readings = first) :
    lexer.take (first.length + 1) = first ++ [.token .endOfInput lexer.finish] := by
  simp [take_eq, h, List.take_of_length_le]

theorem finish_ofString (text : String) : (ofString text).finish = text.length := by
  simp [finish, ofString, String.length_toList]

theorem readings_of_blank (hc : Text.isBlank c = true) :
    (Lexer.mk (c :: rest) position).readings = (Lexer.mk rest (position + 1)).readings := by
  have hskip : (Lexer.mk (c :: rest) position).skipBlanks =
      (Lexer.mk rest (position + 1)).skipBlanks := by
    simp [skipBlanks, hc]
    omega
  cases h : (Lexer.mk rest (position + 1)).skipBlanks.rest with
  | nil => rw [readings_of_nil h, readings_of_nil (hskip ▸ h)]
  | cons d tail =>
    have h' := hskip ▸ h
    rw [readings_of_cons h, readings_of_cons h', next_of_cons h, next_of_cons h', hskip]

theorem readings_of_not_blank (hc : Text.isBlank c = false) :
    (Lexer.mk (c :: rest) position).readings =
      (readAt position c rest).1 :: (readAt position c rest).2.readings := by
  have hskip : (Lexer.mk (c :: rest) position).skipBlanks = ⟨c :: rest, position⟩ := by
    simp [skipBlanks, hc]
  have hrest : (Lexer.mk (c :: rest) position).skipBlanks.rest = c :: rest := by rw [hskip]
  rw [readings_of_cons hrest, next_of_cons hrest, hskip]

end Lexer

-- ---------------------------------------------------------------------------
-- Characters
-- ---------------------------------------------------------------------------

theorem Token.ofSymbol?_eq_some_iff {c : Char} {token : Token} :
    ofSymbol? c = some token ↔
      (c = '\\' ∧ token = .lambda) ∨ (c = '.' ∧ token = .dot) ∨ (c = '(' ∧ token = .leftParen) ∨
        (c = ')' ∧ token = .rightParen) := by
  unfold ofSymbol?
  grind

theorem Text.isBlank_iff {c : Char} :
    isBlank c = true ↔ c.toNat ∈ [0x09, 0x0A, 0x0B, 0x0C, 0x0D, 0x20, 0x85, 0xA0, 0x1680, 0x2000,
      0x2001, 0x2002, 0x2003, 0x2004, 0x2005, 0x2006, 0x2007, 0x2008, 0x2009, 0x200A, 0x2028,
      0x2029, 0x202F, 0x205F, 0x3000] := by
  have hlist : [0x09, 0x0A, 0x0B, 0x0C, 0x0D, 0x20, 0x85, 0xA0, 0x1680, 0x2000, 0x2001, 0x2002,
      0x2003, 0x2004, 0x2005, 0x2006, 0x2007, 0x2008, 0x2009, 0x200A, 0x2028, 0x2029, 0x202F,
      0x205F, 0x3000] =
      blankRanges.flatMap fun range => List.range' range.1 (range.2 + 1 - range.1) := by decide
  simp only [hlist, List.mem_flatMap, List.mem_range'_1, isBlank, List.any_eq_true,
    Bool.and_eq_true, decide_eq_true_eq]
  refine exists_congr fun range => and_congr_right fun _ => ?_
  omega

theorem mem_of_between {c first last : Char} {chars : List Char} (h : first ≤ c ∧ c ≤ last)
    (hall : ∀ k < last.toNat + 1 - first.toNat, Char.ofNat (first.toNat + k) ∈ chars) :
    c ∈ chars := by
  have hfirst : first.toNat ≤ c.toNat := h.1
  have hlast : c.toNat ≤ last.toNat := h.2
  have hmem := hall (c.toNat - first.toNat) (by omega)
  rwa [Nat.add_sub_cancel' hfirst, Char.ofNat_toNat] at hmem

theorem isNameStart_iff {c : Char} :
    isNameStart c = true ↔ c ∈ "abcdefghijklmnopqrstuvwxyz".toList := by
  constructor
  · intro h
    simp only [isNameStart, Bool.and_eq_true, decide_eq_true_eq] at h
    exact mem_of_between h (by decide)
  · have hall : "abcdefghijklmnopqrstuvwxyz".toList.all isNameStart = true := by decide
    exact List.all_eq_true.mp hall c

theorem isNameChar_iff {c : Char} :
    isNameChar c = true ↔ c ∈ "abcdefghijklmnopqrstuvwxyz0123456789'".toList := by
  constructor
  · intro h
    simp only [isNameChar, isNameStart, Bool.or_eq_true, Bool.and_eq_true, decide_eq_true_eq,
      beq_iff_eq] at h
    rcases h with (h | h) | rfl
    · exact mem_of_between h (by decide)
    · exact mem_of_between h (by decide)
    · decide
  · have hall : "abcdefghijklmnopqrstuvwxyz0123456789'".toList.all isNameChar = true := by decide
    exact List.all_eq_true.mp hall c

theorem not_isBlank_of_ofSymbol? {c : Char} {token : Token} (h : Token.ofSymbol? c = some token) :
    Text.isBlank c = false := by
  obtain ⟨rfl, -⟩ | ⟨rfl, -⟩ | ⟨rfl, -⟩ | ⟨rfl, -⟩ := Token.ofSymbol?_eq_some_iff.mp h <;> decide

theorem not_isBlank_of_isNameChar {c : Char} (h : isNameChar c = true) :
    Text.isBlank c = false := by
  have hall : "abcdefghijklmnopqrstuvwxyz0123456789'".toList.all (!Text.isBlank ·) = true := by
    decide
  simpa using List.all_eq_true.mp hall c (isNameChar_iff.mp h)

theorem ofSymbol?_of_isNameStart {c : Char} (h : isNameStart c = true) :
    Token.ofSymbol? c = none := by
  have hall : "abcdefghijklmnopqrstuvwxyz".toList.all (Token.ofSymbol? · |>.isNone) = true := by
    decide
  simpa using List.all_eq_true.mp hall c (isNameStart_iff.mp h)

theorem Name.exists_cons {x : Name} (h : x.isIdentifier = true) :
    ∃ c tail, x.toList = c :: tail ∧ isNameStart c = true ∧ ∀ d ∈ tail, isNameChar d = true := by
  cases hx : x.toList with
  | nil => simp [isIdentifier, hx] at h
  | cons c tail => exact ⟨c, tail, rfl, by simpa [isIdentifier, hx] using h⟩

theorem Name.isNameChar_of_mem {x : Name} (h : x.isIdentifier = true) :
    ∀ c ∈ x.toList, isNameChar c = true := by
  obtain ⟨c, tail, hx, hstart, htail⟩ := Name.exists_cons h
  rw [hx]
  exact List.forall_mem_cons.mpr ⟨isNameChar_of_isNameStart hstart, htail⟩

/-- A name that stands before the characters does not go on into them. -/
def EndsName (chars : List Char) : Prop := ∀ c ∈ chars.head?, isNameChar c = false

theorem EndsName.nil : EndsName [] := by simp [EndsName]

theorem EndsName.cons {c : Char} {chars : List Char} (h : isNameChar c = false) :
    EndsName (c :: chars) := by
  simpa [EndsName] using h

theorem EndsName.takeWhile {chars : List Char} (h : EndsName chars) :
    chars.takeWhile isNameChar = [] ∧ chars.dropWhile isNameChar = chars := by
  cases chars with
  | nil => exact ⟨rfl, rfl⟩
  | cons c rest => simp [h c rfl]

theorem EndsName.dropWhile (chars : List Char) : EndsName (chars.dropWhile isNameChar) := by
  intro c hc
  have hhead := List.head?_dropWhile_not isNameChar chars
  rw [Option.mem_def.mp hc] at hhead
  simpa using hhead

-- ---------------------------------------------------------------------------
-- The readings of a list of characters
-- ---------------------------------------------------------------------------

/-- The characters give the readings where the first of them stands at the
position. -/
inductive Reads : Nat → List Char → List Reading → Prop
  | nil {position : Nat} : Reads position [] []
  | blank {position : Nat} {c : Char} {rest : List Char} {readings : List Reading} :
      Text.isBlank c = true → Reads (position + 1) rest readings →
      Reads position (c :: rest) readings
  | symbol {position : Nat} {c : Char} {rest : List Char} {token : Token}
      {readings : List Reading} :
      Token.ofSymbol? c = some token → Reads (position + 1) rest readings →
      Reads position (c :: rest) (.token token position :: readings)
  | name {position : Nat} {x : Name} {rest : List Char} {readings : List Reading} :
      x.isIdentifier = true → EndsName rest → Reads (position + x.length) rest readings →
      Reads position (x.toList ++ rest) (.token (.var x) position :: readings)
  | illegal {position : Nat} {c : Char} {rest : List Char} {readings : List Reading} :
      Text.isBlank c = false → Token.ofSymbol? c = none → isNameStart c = false →
      Reads (position + 1) rest readings →
      Reads position (c :: rest) (.illegal c position :: readings)

theorem Lexer.exists_name (position : Nat) {c : Char} (hstart : isNameStart c = true)
    (rest : List Char) :
    ∃ x : Name, x.isIdentifier = true ∧ c :: rest = x.toList ++ rest.dropWhile isNameChar ∧
      readAt position c rest =
        (.token (.var x) position, ⟨rest.dropWhile isNameChar, position + x.length⟩) := by
  have hlength : position + 1 + (rest.takeWhile isNameChar).length =
      position + (c :: rest.takeWhile isNameChar).length := by
    rw [List.length_cons]
    omega
  refine ⟨String.ofList (c :: rest.takeWhile isNameChar), ?_, ?_, ?_⟩
  · simp [Name.isIdentifier, hstart, List.all_takeWhile]
  · simp [List.takeWhile_append_dropWhile]
  · simp only [readAt, ofSymbol?_of_isNameStart hstart, hstart, if_true, hlength,
      String.length_ofList]

theorem Lexer.reads_readings (position : Nat) (chars : List Char) :
    Reads position chars (Lexer.mk chars position).readings := by
  match chars with
  | [] =>
    have hnil : (Lexer.mk [] position).readings = [] := readings_of_nil rfl
    exact hnil ▸ .nil
  | c :: rest =>
    have hrest := reads_readings (position + 1) rest
    cases hblank : Text.isBlank c with
    | true =>
      rw [readings_of_blank hblank]
      exact .blank hblank hrest
    | false =>
      rw [readings_of_not_blank hblank]
      cases hsymbol : Token.ofSymbol? c with
      | some token =>
        simp only [readAt, hsymbol]
        exact .symbol hsymbol hrest
      | none =>
        cases hstart : isNameStart c with
        | true =>
          obtain ⟨x, hx, hchars, hread⟩ := exists_name position hstart rest
          have hshort := (List.dropWhile_sublist isNameChar (l := rest)).length_le
          rw [hread, hchars]
          exact .name hx (.dropWhile rest) (reads_readings _ _)
        | false =>
          simp only [readAt, hsymbol, hstart, Bool.false_eq_true, if_false]
          exact .illegal hblank hsymbol hstart hrest
termination_by chars.length

theorem Reads.readings_eq {position : Nat} {chars : List Char} {readings : List Reading}
    (h : Reads position chars readings) : (Lexer.mk chars position).readings = readings := by
  induction h with
  | nil => exact Lexer.readings_of_nil rfl
  | blank hblank _ ih => rw [Lexer.readings_of_blank hblank, ih]
  | symbol hsymbol _ ih =>
    rw [Lexer.readings_of_not_blank (not_isBlank_of_ofSymbol? hsymbol)]
    simp [Lexer.readAt, hsymbol, ih]
  | @name position x rest readings hx hend _ ih =>
    obtain ⟨c, tail, hlist, hstart, htail⟩ := Name.exists_cons hx
    have hlength : position + 1 + tail.length = position + x.length := by
      rw [← String.length_toList, hlist, List.length_cons]
      omega
    have hread : Lexer.readAt position c (tail ++ rest) =
        (.token (.var x) position, ⟨rest, position + x.length⟩) := by
      simp only [Lexer.readAt, ofSymbol?_of_isNameStart hstart, hstart, if_true,
        List.takeWhile_append_of_pos htail, List.dropWhile_append_of_pos htail, hend.takeWhile,
        List.append_nil, ← hlist, String.ofList_toList, hlength]
    have hblank := not_isBlank_of_isNameChar (isNameChar_of_isNameStart hstart)
    rw [hlist, List.cons_append, Lexer.readings_of_not_blank hblank, hread, ih]
  | illegal hblank hsymbol hstart _ ih =>
    rw [Lexer.readings_of_not_blank hblank]
    simp [Lexer.readAt, hsymbol, hstart, ih]

theorem reads_iff {position : Nat} {chars : List Char} {readings : List Reading} :
    Reads position chars readings ↔ (Lexer.mk chars position).readings = readings :=
  ⟨Reads.readings_eq, fun h => h ▸ Lexer.reads_readings position chars⟩

-- ---------------------------------------------------------------------------
-- Where readings stand
-- ---------------------------------------------------------------------------

/-- The reading is what stands at its position in the text. -/
inductive Reading.Of (text : List Char) : Reading → Prop
  | symbol {c : Char} {token : Token} {position : Nat} : text[position]? = some c →
      Token.ofSymbol? c = some token → Of text (.token token position)
  | name {name : Name} {position : Nat} : name.toList <+: text.drop position →
      name.isIdentifier = true → Of text (.token (.var name) position)
  | illegal {c : Char} {position : Nat} : text[position]? = some c → Text.isBlank c = false →
      Token.ofSymbol? c = none → isNameStart c = false → Of text (.illegal c position)

theorem drop_succ_of_cons {text rest : List Char} {c : Char} {position : Nat}
    (h : text.drop position = c :: rest) : text.drop (position + 1) = rest := by
  rw [← List.tail_drop, h]
  rfl

theorem drop_name {text rest : List Char} {x : Name} {position : Nat}
    (h : text.drop position = x.toList ++ rest) : text.drop (position + x.length) = rest := by
  rw [← List.drop_drop, h, ← String.length_toList, List.drop_left]

theorem Reads.of_mem {text chars : List Char} {position : Nat} {readings : List Reading}
    (h : Reads position chars readings) (htext : text.drop position = chars) :
    ∀ reading ∈ readings, reading.Of text := by
  have hat {c : Char} {rest : List Char} {position : Nat} (h : text.drop position = c :: rest) :
      text[position]? = some c := by
    rw [← List.head?_drop, h]
    rfl
  induction h with
  | nil => simp
  | blank _ _ ih => exact ih (drop_succ_of_cons htext)
  | symbol hsymbol _ ih =>
    exact List.forall_mem_cons.mpr ⟨.symbol (hat htext) hsymbol, ih (drop_succ_of_cons htext)⟩
  | @name _ x _ _ hx _ _ ih =>
    refine List.forall_mem_cons.mpr ⟨.name ?_ hx, ih (drop_name htext)⟩
    exact htext ▸ List.prefix_append x.toList _
  | illegal hblank hsymbol hstart _ ih =>
    exact List.forall_mem_cons.mpr
      ⟨.illegal (hat htext) hblank hsymbol hstart, ih (drop_succ_of_cons htext)⟩

namespace Lexer

theorem reads_ofString (text : String) : Reads 0 text.toList (ofString text).readings :=
  reads_readings 0 text.toList

theorem of_mem_readings_ofString {text : String} {reading : Reading}
    (h : reading ∈ (ofString text).readings) : reading.Of text.toList :=
  (reads_ofString text).of_mem rfl reading h

theorem endOfInput_not_mem (text : String) (position : Nat) :
    .token .endOfInput position ∉ (ofString text).readings := by
  intro hmem
  cases of_mem_readings_ofString hmem with
  | symbol hat hsymbol => simpa using Token.ofSymbol?_eq_some_iff.mp hsymbol

end Lexer

-- ---------------------------------------------------------------------------
-- Spelling
-- ---------------------------------------------------------------------------

/-- The characters are read as the tokens, wherever they stand. -/
def Spells (chars : List Char) (tokens : List Token) : Prop :=
  ∀ position, ∃ placed : List Placed,
    (Lexer.mk chars position).readings = placed.map Placed.reading ∧
      placed.map Placed.token = tokens

namespace Spells

variable {c : Char} {chars : List Char} {token : Token} {tokens : List Token}

theorem nil : Spells [] [] := fun _ => ⟨[], Reads.nil.readings_eq, rfl⟩

theorem blank (hc : Text.isBlank c = true) (h : Spells chars tokens) :
    Spells (c :: chars) tokens := by
  intro position
  rw [Lexer.readings_of_blank hc]
  exact h (position + 1)

theorem symbol (hc : Token.ofSymbol? c = some token) (h : Spells chars tokens) :
    Spells (c :: chars) (token :: tokens) := by
  intro position
  obtain ⟨placed, hreadings, rfl⟩ := h (position + 1)
  exact ⟨⟨token, position⟩ :: placed, (Reads.symbol hc (reads_iff.mpr hreadings)).readings_eq, rfl⟩

theorem name {x : Name} (hname : x.isIdentifier = true) (hend : EndsName chars)
    (h : Spells chars tokens) : Spells (x.toList ++ chars) (.var x :: tokens) := by
  intro position
  obtain ⟨placed, hreadings, rfl⟩ := h (position + x.length)
  exact ⟨⟨.var x, position⟩ :: placed,
    (Reads.name hname hend (reads_iff.mpr hreadings)).readings_eq, rfl⟩

end Spells

end SimpleTypes
