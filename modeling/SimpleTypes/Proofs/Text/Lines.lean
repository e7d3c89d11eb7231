import SimpleTypes.Text

/-!
# Lines and their text

A line in the sense of `IsLine` has no line feed, and no carriage return at its
end, where it would be taken for a part of the line's end. Such lines are read
back from the text that they are written to (`lines_unlines`). What `lines`
gives need not be of this kind, for a last line without a line feed keeps its
carriage return; once trimmed it is (`isLine_trim`).

Behind a line feed a text may be cut: the lines are then those of the two parts
(`lines_append`).
-/

namespace SimpleTypes.Text

variable {text : String} {cs line rest : List Char}

-- ---------------------------------------------------------------------------
-- Single lines
-- ---------------------------------------------------------------------------

def IsLine (text : String) : Prop := '\n' ∉ text.toList ∧ text.toList.getLast? ≠ some '\r'

instance (text : String) : Decidable (IsLine text) := inferInstanceAs (Decidable (_ ∧ _))

theorem IsLine.append {first second : String} (h : IsLine first) (h' : IsLine second) :
    IsLine (first ++ second) := by
  unfold IsLine at *
  rw [String.toList_append, List.mem_append, List.getLast?_append]
  refine ⟨not_or.mpr ⟨h.1, h'.1⟩, ?_⟩
  intro hlast
  rcases Option.or_eq_some_iff.mp hlast with hlast | ⟨-, hlast⟩
  · exact h'.2 hlast
  · exact h.2 hlast

theorem isLine_of_all {p : Char → Bool} (h : ∀ c ∈ text.toList, p c = true)
    (hfeed : p '\n' = false) (hreturn : p '\r' = false) : IsLine text := by
  constructor
  · intro hmem
    cases hfeed.symm.trans (h _ hmem)
  · intro hlast
    cases hreturn.symm.trans (h _ (List.mem_of_getLast? hlast))

-- ---------------------------------------------------------------------------
-- Dividing a text
-- ---------------------------------------------------------------------------

theorem linesFrom_append (h : '\n' ∉ cs) (line rest : List Char) :
    linesFrom line (cs ++ '\n' :: rest) = closeLine (cs.reverse ++ line) :: linesFrom [] rest := by
  induction cs generalizing line with
  | nil => rfl
  | cons c cs ih =>
    rw [List.mem_cons, not_or] at h
    have hc : c ≠ '\n' := Ne.symm h.1
    simp [linesFrom, ih h.2]

theorem linesFrom_append_feed (line cs rest : List Char) :
    linesFrom line (cs ++ '\n' :: rest) = linesFrom line (cs ++ ['\n']) ++ linesFrom [] rest := by
  fun_induction linesFrom line cs with
  | case1 line hempty => rfl
  | case2 line hempty => rfl
  | case3 line cs ih => simp [linesFrom, ih]
  | case4 line c cs hc ih => simp [linesFrom, ih]

theorem closeLine_reverse (h : cs.getLast? ≠ some '\r') : closeLine cs.reverse = cs := by
  rw [← List.head?_reverse] at h
  unfold closeLine
  split
  · next heq => simp [heq] at h
  · exact List.reverse_reverse cs

theorem toList_unlines_cons (line : String) (lines : List String) :
    (unlines (line :: lines)).toList = line.toList ++ '\n' :: (unlines lines).toList := by
  simp [unlines]

theorem unlines_cons (line : String) (lines : List String) :
    unlines (line :: lines) = line ++ "\n" ++ unlines lines := by
  simp [unlines]

theorem unlines_append (first second : List String) :
    unlines (first ++ second) = unlines first ++ unlines second := by
  simp [unlines]

theorem lines_unlines {ls : List String} (h : ∀ l ∈ ls, IsLine l) : lines (unlines ls) = ls := by
  unfold lines
  induction ls with
  | nil => rfl
  | cons l ls ih =>
    rw [List.forall_mem_cons] at h
    rw [toList_unlines_cons, linesFrom_append h.1.1, List.append_nil, closeLine_reverse h.1.2,
      List.map_cons, ih h.2, String.ofList_toList]

theorem linesFrom_eq_nil_iff : linesFrom line cs = [] ↔ line = [] ∧ cs = [] := by
  fun_induction linesFrom line cs with
  | case1 line h => simpa using h
  | case2 line h => simpa using h
  | case3 line rest ih => simp
  | case4 line c rest hc ih => simp [ih]

theorem lines_eq_nil_iff : lines text = [] ↔ text = "" := by
  rw [lines, List.map_eq_nil_iff, linesFrom_eq_nil_iff]
  simp

theorem lines_append {first : String} (h : first = "" ∨ ∃ front, first = front ++ "\n")
    (second : String) : lines (first ++ second) = lines first ++ lines second := by
  rcases h with rfl | ⟨front, rfl⟩
  · rw [String.empty_append, lines_eq_nil_iff.mpr rfl, List.nil_append]
  · unfold lines
    rw [← List.map_append]
    simp only [String.toList_append, List.append_assoc]
    exact congrArg _ (linesFrom_append_feed [] front.toList second.toList)

theorem mem_closeLine {c : Char} (h : c ∈ closeLine line) : c ∈ line := by
  unfold closeLine at h
  split at h
  · exact List.mem_cons_of_mem _ (List.mem_reverse.mp h)
  · exact List.mem_reverse.mp h

theorem not_mem_of_mem_linesFrom {l : List Char} (hline : '\n' ∉ line)
    (h : l ∈ linesFrom line cs) : '\n' ∉ l := by
  fun_induction linesFrom line cs with
  | case1 line hempty => cases h
  | case2 line hempty =>
    obtain rfl := List.mem_singleton.mp h
    simpa using hline
  | case3 line rest ih =>
    rcases List.mem_cons.mp h with rfl | h
    · exact fun hmem => hline (mem_closeLine hmem)
    · exact ih (by simp) h
  | case4 line c rest hc ih =>
    refine ih ?_ h
    simpa [hline] using Ne.symm hc

theorem not_mem_of_mem_lines {l : String} (h : l ∈ lines text) : '\n' ∉ l.toList := by
  obtain ⟨cs, hcs, rfl⟩ := List.mem_map.mp h
  rw [String.toList_ofList]
  exact not_mem_of_mem_linesFrom (by simp) hcs

-- ---------------------------------------------------------------------------
-- Trimming
-- ---------------------------------------------------------------------------

theorem mem_of_mem_trimChars {c : Char} (h : c ∈ trimChars cs) : c ∈ cs := by
  unfold trimChars trimEndChars trimStartChars at h
  have h := (List.dropWhile_sublist _).mem (List.mem_reverse.mp h)
  exact (List.dropWhile_sublist _).mem (List.mem_reverse.mp h)

theorem not_isBlank_of_getLast?_trimChars {c : Char} (h : (trimChars cs).getLast? = some c) :
    isBlank c = false := by
  have hhead := List.head?_dropWhile_not isBlank (trimStartChars cs).reverse
  rw [trimChars, trimEndChars, List.getLast?_reverse] at h
  simpa [h] using hhead

theorem isLine_trim (h : '\n' ∉ text.toList) : IsLine (trim text) := by
  unfold IsLine
  rw [toList_trim]
  refine ⟨fun hmem => h (mem_of_mem_trimChars hmem), ?_⟩
  intro hlast
  cases not_isBlank_of_getLast?_trimChars hlast

end SimpleTypes.Text
