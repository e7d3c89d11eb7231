import SimpleTypes.Proofs.Token.Lexer
import SimpleTypes.Token.Scanner

/-!
# Scanning gives the readings of the lexer

The laws of a scanner leave it no choice: at a blank it skips all blanks, and at
any other character it finds the symbol, the longest name or the one character
that is illegal. A byte offset that such lexemes begin or end at never stands
inside a character, and the characters before it are as many as its place says.
So a tokenizer with a lawful scanner gives what the lexer gives, call by call
(`Tokenizer.take?_eq`).

The laws can be met: `Scanner.byCharacters` is a scanner that has them.
-/

namespace SimpleTypes

namespace Text

theorem byteCount_append (front back : List Char) :
    byteCount (front ++ back) = byteCount front + byteCount back := by
  induction front with
  | nil => simp [byteCount]
  | cons c front ih => simp [byteCount, ih, Nat.add_assoc]

theorem splitBytes?_append (front back : List Char) :
    splitBytes? (byteCount front) (front ++ back) = some (front, back) := by
  induction front with
  | nil => cases back <;> rfl
  | cons c front ih =>
    have hpos := c.utf8Size_pos
    rw [List.cons_append, splitBytes?, byteCount, if_neg (by omega), if_pos (by omega),
      Nat.add_sub_cancel_left, ih]
    rfl

end Text

-- ---------------------------------------------------------------------------
-- Matches
-- ---------------------------------------------------------------------------

theorem length_le_takeWhile {α : Type} {p : α → Bool} {l first tail : List α}
    (h : l = first ++ tail) (hfirst : ∀ a ∈ first, p a = true) :
    first.length ≤ (l.takeWhile p).length := by
  rw [h, List.takeWhile_append_of_pos hfirst, List.length_append]
  exact Nat.le_add_right _ _

/-- The first character decides which rule can match. -/
inductive LexesAt (c : Char) : List Char → Option Token → Prop
  | blanks {more : List Char} : Text.isBlank c = true → (∀ d ∈ more, Text.isBlank d = true) →
      LexesAt c more none
  | symbol {token : Token} : Token.ofSymbol? c = some token → LexesAt c [] (some token)
  | name {x : Name} {more : List Char} : x.toList = c :: more → isNameStart c = true →
      (∀ d ∈ more, isNameChar d = true) → LexesAt c more (some (.var x))

theorem Lexes.lexesAt {word tail rest : List Char} {c : Char} {token? : Option Token}
    (h : Lexes word token?) (heq : c :: rest = word ++ tail) :
    ∃ more, word = c :: more ∧ rest = more ++ tail ∧ LexesAt c more token? := by
  cases h with
  | blanks hne hblank =>
    cases word with
    | nil => exact absurd rfl hne
    | cons d more =>
      obtain ⟨rfl, rfl⟩ := List.cons.inj heq
      obtain ⟨hd, hmore⟩ := List.forall_mem_cons.mp hblank
      exact ⟨more, rfl, rfl, .blanks hd hmore⟩
  | symbol hsymbol =>
    obtain ⟨rfl, rfl⟩ := List.cons.inj heq
    exact ⟨[], rfl, rfl, .symbol hsymbol⟩
  | @name x hx =>
    obtain ⟨d, more, hlist, hstart, hmore⟩ := Name.exists_cons hx
    rw [hlist] at heq
    obtain ⟨rfl, rfl⟩ := List.cons.inj heq
    exact ⟨more, hlist, rfl, .name hlist hstart hmore⟩

section

variable {c : Char} {rest : List Char}

theorem lexesLongest_blanks (hblank : Text.isBlank c = true) :
    LexesLongest ((c :: rest).takeWhile Text.isBlank) ((c :: rest).dropWhile Text.isBlank)
      none where
  lexes := .blanks (by simp [hblank]) (List.all_eq_true.mp List.all_takeWhile)
  longest other tail other? heq h := by
    rw [List.takeWhile_append_dropWhile] at heq
    refine length_le_takeWhile heq ?_
    obtain ⟨more, rfl, -, hat⟩ := h.lexesAt heq
    cases hat with
    | blanks hc hmore => exact List.forall_mem_cons.mpr ⟨hc, hmore⟩
    | symbol hsymbol => cases hblank.symm.trans (not_isBlank_of_ofSymbol? hsymbol)
    | name _ hstart _ =>
      cases hblank.symm.trans (not_isBlank_of_isNameChar (isNameChar_of_isNameStart hstart))

theorem lexesLongest_symbol {token : Token} (hsymbol : Token.ofSymbol? c = some token) :
    LexesLongest [c] rest (some token) where
  lexes := .symbol hsymbol
  longest other tail other? heq h := by
    obtain ⟨more, rfl, -, hat⟩ := h.lexesAt heq
    cases hat with
    | blanks hblank _ => cases hblank.symm.trans (not_isBlank_of_ofSymbol? hsymbol)
    | symbol _ => exact Nat.le_refl _
    | name _ hstart _ => cases hsymbol.symm.trans (ofSymbol?_of_isNameStart hstart)

theorem lexesLongest_name {x : Name} (hx : x.isIdentifier = true) (hend : EndsName rest) :
    LexesLongest x.toList rest (some (.var x)) where
  lexes := .name hx
  longest other tail other? heq h := by
    have hname := Name.isNameChar_of_mem hx
    have hlength : x.toList = (x.toList ++ rest).takeWhile isNameChar := by
      rw [List.takeWhile_append_of_pos hname, hend.takeWhile.1, List.append_nil]
    obtain ⟨c, tail', hlist, hstart, -⟩ := Name.exists_cons hx
    rw [hlength]
    refine length_le_takeWhile heq ?_
    have heq' := heq
    rw [hlist, List.cons_append] at heq'
    obtain ⟨more, rfl, -, hat⟩ := h.lexesAt heq'
    cases hat with
    | blanks hblank _ =>
      cases hblank.symm.trans (not_isBlank_of_isNameChar (isNameChar_of_isNameStart hstart))
    | symbol hsymbol => cases hsymbol.symm.trans (ofSymbol?_of_isNameStart hstart)
    | name _ _ hmore =>
      exact List.forall_mem_cons.mpr ⟨isNameChar_of_isNameStart hstart, hmore⟩

theorem not_lexes (hblank : Text.isBlank c = false) (hsymbol : Token.ofSymbol? c = none)
    (hstart : isNameStart c = false) (word tail : List Char) (token? : Option Token)
    (heq : c :: rest = word ++ tail) : ¬Lexes word token? := by
  intro h
  obtain ⟨more, rfl, -, hat⟩ := h.lexesAt heq
  cases hat with
  | blanks hc _ => cases hblank.symm.trans hc
  | symbol hc => cases hsymbol.symm.trans hc
  | name _ hc _ => cases hstart.symm.trans hc

end

-- ---------------------------------------------------------------------------
-- One call after another
-- ---------------------------------------------------------------------------

namespace Tokenizer

/-- The tokenizer stands where the lexer stands, behind the characters `front`. -/
structure At (t : Tokenizer) (front : List Char) (lexer : Lexer) : Prop where
  source : t.source.toList = front ++ lexer.rest
  offset : t.offset = Text.byteCount front
  position : lexer.position = front.length

variable {scan : Scanner} {t : Tokenizer} {front word rest : List Char}

theorem next?_of_token {token : Token} (hsource : t.source.toList = front ++ (word ++ rest))
    (h : scan t.source t.offset =
      some ⟨some token, Text.byteCount front, Text.byteCount (front ++ word)⟩) :
    t.next? scan = some (.ok ⟨token, front.length⟩,
      { t with offset := Text.byteCount (front ++ word) }) := by
  simp [next?, h, position?, hsource, Text.splitBytes?_append]

theorem next?_of_illegal {c : Char} (hsource : t.source.toList = front ++ c :: rest)
    (h : scan t.source t.offset =
      some ⟨none, Text.byteCount front, Text.byteCount (front ++ [c])⟩) :
    t.next? scan = some (.error (.illegalCharacter c front.length),
      { t with offset := Text.byteCount (front ++ [c]) }) := by
  have hslice : t.slice? ⟨none, Text.byteCount front, Text.byteCount (front ++ [c])⟩ =
      some [c] := by
    have hcut : t.source.toList = (front ++ [c]) ++ rest := by simp [hsource]
    rw [slice?, hcut, Text.splitBytes?_append]
    simp [Text.splitBytes?_append]
  simp [next?, h, position?, hsource, Text.splitBytes?_append, hslice]

theorem At.skipBlanks {lexer : Lexer} (hscan : scan.Lawful) (h : t.At front lexer) :
    ∃ front', t.source.toList = front' ++ lexer.skipBlanks.rest ∧
      scan t.source t.offset = scan t.source (Text.byteCount front') ∧
        lexer.skipBlanks.position = front'.length := by
  have hsplit := (List.takeWhile_append_dropWhile (p := Text.isBlank) (l := lexer.rest)).symm
  refine ⟨front ++ lexer.rest.takeWhile Text.isBlank, ?_, ?_, ?_⟩
  · rw [List.append_assoc, Lexer.skipBlanks, ← hsplit, h.source]
  · rw [h.offset]
    cases hrest : lexer.rest with
    | nil => rw [List.takeWhile_nil, List.append_nil]
    | cons c rest =>
      cases hblank : Text.isBlank c with
      | true =>
        refine hscan.skips t.source front _ _ ?_ (lexesLongest_blanks hblank)
        rw [h.source, hrest, List.takeWhile_append_dropWhile]
      | false => simp [hblank]
  · rw [List.length_append, Lexer.skipBlanks, h.position]

theorem At.next? {lexer : Lexer} (hscan : scan.Lawful) (h : t.At front lexer) :
    ∃ after front', t.next? scan = some (lexer.next.1.toExcept, after) ∧
      after.At front' lexer.next.2 := by
  obtain ⟨front', hsource, hskip, hposition⟩ := h.skipBlanks hscan
  cases hrest : lexer.skipBlanks.rest with
  | nil =>
    rw [hrest, List.append_nil] at hsource
    have hscanned : scan t.source t.offset = none := by rw [hskip, ← hsource, hscan.finished]
    have hfinish : lexer.finish = t.source.length := by
      rw [← lexer.finish_skipBlanks, Lexer.finish, hrest, hposition, ← hsource]
      exact String.length_toList
    rw [Lexer.next_of_nil hrest, hfinish]
    refine ⟨{ t with offset := Text.byteCount front' }, front', ?_, ?_, rfl, hposition⟩
    · simp [Tokenizer.next?, hscanned, hsource, Reading.toExcept]
    · rw [hrest, List.append_nil, hsource]
  | cons c rest =>
    rw [hrest] at hsource
    rw [Lexer.next_of_cons hrest, hposition]
    cases hsymbol : Token.ofSymbol? c with
    | some token =>
      have hread : Lexer.readAt front'.length c rest =
          (.token token front'.length, ⟨rest, front'.length + 1⟩) := by
        simp [Lexer.readAt, hsymbol]
      have hlexeme := hscan.longest t.source front' [c] rest token hsource
        (lexesLongest_symbol hsymbol)
      rw [hread]
      exact ⟨_, front' ++ [c], next?_of_token hsource (hskip.trans hlexeme), by simp [hsource],
        rfl, by simp⟩
    | none =>
      cases hstart : isNameStart c with
      | true =>
        obtain ⟨x, hx, hchars, hread⟩ := Lexer.exists_name front'.length hstart rest
        rw [hchars] at hsource
        have hlexeme := hscan.longest t.source front' x.toList _ _ hsource
          (lexesLongest_name hx (.dropWhile rest))
        rw [hread]
        refine ⟨_, front' ++ x.toList, next?_of_token hsource (hskip.trans hlexeme), ?_, rfl, ?_⟩
        · rw [List.append_assoc]
          exact hsource
        · rw [List.length_append, String.length_toList]
      | false =>
        have hread : Lexer.readAt front'.length c rest =
            (.illegal c front'.length, ⟨rest, front'.length + 1⟩) := by
          simp [Lexer.readAt, hsymbol, hstart]
        have hlexeme := hscan.illegal t.source front' rest c hsource
          (not_lexes (Lexer.not_isBlank_skipBlanks hrest) hsymbol hstart)
        rw [hread]
        exact ⟨_, front' ++ [c], next?_of_illegal hsource (hskip.trans hlexeme), by simp [hsource],
          rfl, by simp⟩

theorem At.take? {lexer : Lexer} (hscan : scan.Lawful) (h : t.At front lexer) (count : Nat) :
    t.take? scan count = some ((lexer.take count).map Reading.toExcept) := by
  induction count generalizing t front lexer with
  | zero => rfl
  | succ count ih =>
    obtain ⟨after, front', hnext, hafter⟩ := h.next? hscan
    simp [Tokenizer.take?, hnext, ih hafter, Lexer.take]

theorem take?_eq (hscan : scan.Lawful) (text : String) (count : Nat) :
    Tokenizer.take? scan ⟨text, 0⟩ count =
      some (((Lexer.ofString text).take count).map Reading.toExcept) := by
  have hstart : At ⟨text, 0⟩ [] (Lexer.ofString text) := ⟨rfl, rfl, rfl⟩
  exact hstart.take? hscan count

end Tokenizer

-- ---------------------------------------------------------------------------
-- The laws are met
-- ---------------------------------------------------------------------------

theorem Scanner.byCharacters_eq {source : String} {front back : List Char}
    (hsource : source.toList = front ++ back) :
    byCharacters source (Text.byteCount front) =
      match back.dropWhile Text.isBlank with
      | [] => none
      | c :: rest =>
        some (.at (Text.byteCount front + Text.byteCount (back.takeWhile Text.isBlank))
          c rest) := by
  simp only [byCharacters, hsource, Text.splitBytes?_append]
  rfl

theorem LexesLongest.endsName {x : Name} {rest : List Char} (hx : x.isIdentifier = true)
    (h : LexesLongest x.toList rest (some (.var x))) : EndsName rest := by
  intro d hd
  obtain ⟨tail, rfl⟩ := List.head?_eq_some_iff.mp hd
  cases hchar : isNameChar d with
  | false => rfl
  | true =>
    -- The name with one more character would be a longer match.
    obtain ⟨c, more, hlist, hstart, hmore⟩ := Name.exists_cons hx
    have hlonger : Name.isIdentifier (String.ofList (x.toList ++ [d])) = true := by
      simpa [Name.isIdentifier, hlist, hstart, hchar] using hmore
    have hle := h.longest _ tail _ (by simp) (.name hlonger)
    rw [String.toList_ofList, List.length_append] at hle
    exact absurd hle (Nat.not_succ_le_self _)

theorem Scanner.lawful_byCharacters : byCharacters.Lawful where
  finished source := by
    rw [byCharacters_eq (List.append_nil _).symm]
    rfl
  longest source front word rest token hsource h := by
    rw [byCharacters_eq hsource, Text.byteCount_append]
    cases h.lexes with
    | @symbol c _ hsymbol =>
      simp [not_isBlank_of_ofSymbol? hsymbol, Lexeme.at, hsymbol, Text.byteCount]
    | @name x hx =>
      obtain ⟨c, more, hlist, hstart, hmore⟩ := Name.exists_cons hx
      have hblank := not_isBlank_of_isNameChar (isNameChar_of_isNameStart hstart)
      have hname : String.ofList (c :: more) = x := by rw [← hlist, String.ofList_toList]
      simp [hlist, hblank, Lexeme.at, ofSymbol?_of_isNameStart hstart, hstart,
        List.takeWhile_append_of_pos hmore, (h.endsName hx).takeWhile, hname, Text.byteCount]
  skips source front word rest hsource h := by
    cases h.lexes with
    | blanks _ hblank =>
      have hsource' : source.toList = (front ++ word) ++ rest := by simp [hsource]
      rw [byCharacters_eq hsource, byCharacters_eq hsource', List.dropWhile_append_of_pos hblank,
        List.takeWhile_append_of_pos hblank, Text.byteCount_append, Text.byteCount_append,
        Nat.add_assoc]
  illegal source front rest c hsource h := by
    have hblank : Text.isBlank c = false := by
      refine Bool.eq_false_iff.mpr fun hc => h [c] rest none rfl (.blanks (by simp) ?_)
      simpa using hc
    have hsymbol : Token.ofSymbol? c = none := by
      cases hc : Token.ofSymbol? c with
      | none => rfl
      | some token => exact absurd (.symbol hc) (h [c] rest (some token) rfl)
    have hstart : isNameStart c = false := by
      refine Bool.eq_false_iff.mpr fun hc => ?_
      have hx : Name.isIdentifier (String.ofList [c]) = true := by simp [Name.isIdentifier, hc]
      exact h _ rest _ (by simp) (.name hx)
    rw [byCharacters_eq hsource, Text.byteCount_append]
    simp [hblank, Lexeme.at, hsymbol, hstart, Text.byteCount]

end SimpleTypes
