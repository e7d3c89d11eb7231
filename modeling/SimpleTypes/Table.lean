/-!
# Finite maps in key order

A table lists its entries by strictly increasing key. Two tables with the same
lookups are therefore equal (`Table.ext_get?`), and the order of the entries is
the order in which contexts and substitutions are walked and printed.
-/

namespace SimpleTypes

variable {κ α β : Type} [Ord κ]

-- ---------------------------------------------------------------------------
-- Entry lists
-- ---------------------------------------------------------------------------

/-- Every key is smaller than all keys after it. -/
def Increasing (entries : List (κ × α)) : Prop :=
  entries.Pairwise fun a b => compare a.1 b.1 = .lt

def findEntry (key : κ) : List (κ × α) → Option α
  | [] => none
  | (k, a) :: rest => if compare key k = .eq then some a else findEntry key rest

/-- Puts the entry at its place, or replaces the value its key already has. -/
def insertEntry (key : κ) (value : α) : List (κ × α) → List (κ × α)
  | [] => [(key, value)]
  | (k, a) :: rest =>
    match compare key k with
    | .lt => (key, value) :: (k, a) :: rest
    | .eq => (key, value) :: rest
    | .gt => (k, a) :: insertEntry key value rest

def eraseEntry (key : κ) (entries : List (κ × α)) : List (κ × α) :=
  entries.filter fun e => compare key e.1 != .eq

theorem mem_insertEntry {key : κ} {value : α} {e : κ × α} {entries : List (κ × α)}
    (h : e ∈ insertEntry key value entries) : e = (key, value) ∨ e ∈ entries := by
  induction entries with
  | nil => simpa [insertEntry] using h
  | cons head rest ih =>
    simp only [insertEntry] at h
    split at h
    · simpa using h
    · rcases List.mem_cons.mp h with h | h
      · exact .inl h
      · exact .inr (List.mem_cons_of_mem _ h)
    · rcases List.mem_cons.mp h with h | h
      · exact .inr (h ▸ List.mem_cons_self)
      · exact (ih h).imp_right (List.mem_cons_of_mem _)

theorem Increasing.insertEntry [Std.TransOrd κ] [Std.LawfulEqOrd κ] {entries : List (κ × α)}
    (h : Increasing entries) (key : κ) (value : α) :
    Increasing (insertEntry key value entries) := by
  induction entries with
  | nil => exact List.pairwise_singleton _ _
  | cons head rest ih =>
    obtain ⟨hhead, hrest⟩ := List.pairwise_cons.mp h
    simp only [SimpleTypes.insertEntry]
    split
    · next hlt =>
      refine List.pairwise_cons.mpr ⟨?_, h⟩
      intro e he
      rcases List.mem_cons.mp he with rfl | he
      · exact hlt
      · exact Std.TransCmp.lt_trans hlt (hhead e he)
    · next heq =>
      obtain rfl := Std.LawfulEqCmp.eq_of_compare heq
      exact List.pairwise_cons.mpr ⟨hhead, hrest⟩
    · next hgt =>
      refine List.pairwise_cons.mpr ⟨?_, ih hrest⟩
      intro e he
      rcases mem_insertEntry he with rfl | he
      · exact Std.OrientedCmp.gt_iff_lt.mp hgt
      · exact hhead e he

theorem Increasing.eraseEntry {entries : List (κ × α)} (h : Increasing entries) (key : κ) :
    Increasing (eraseEntry key entries) :=
  List.Pairwise.filter _ h

theorem Increasing.mapValues {entries : List (κ × α)} (h : Increasing entries) (f : α → β) :
    Increasing (entries.map fun e => (e.1, f e.2)) :=
  List.pairwise_map.mpr h

-- ---------------------------------------------------------------------------
-- Lookups in entry lists
-- ---------------------------------------------------------------------------

theorem findEntry_insertEntry [Std.LawfulEqOrd κ] [DecidableEq κ]
    (key other : κ) (value : α) (entries : List (κ × α)) :
    findEntry other (insertEntry key value entries) =
      if other = key then some value else findEntry other entries := by
  induction entries with
  | nil =>
    by_cases h : other = key <;> simp [insertEntry, findEntry, h]
  | cons head rest ih =>
    obtain ⟨k, a⟩ := head
    simp only [insertEntry]
    split
    · by_cases h : other = key <;> simp [findEntry, h]
    · next heq =>
      obtain rfl := Std.LawfulEqCmp.eq_of_compare heq
      by_cases h : other = key <;> simp [findEntry, h]
    · next hgt =>
      by_cases hk : other = k
      · subst hk
        have hne : other ≠ key := by
          rintro rfl
          simp at hgt
        simp [findEntry, hne]
      · simp [findEntry, hk, ih]

theorem findEntry_eraseEntry [Std.LawfulEqOrd κ] [DecidableEq κ]
    (key other : κ) (entries : List (κ × α)) :
    findEntry other (eraseEntry key entries) =
      if other = key then none else findEntry other entries := by
  induction entries with
  | nil => simp [eraseEntry, findEntry]
  | cons head rest ih =>
    obtain ⟨k, a⟩ := head
    simp only [eraseEntry] at ih
    by_cases hk : key = k
    · subst hk
      by_cases h : other = key
      · simpa [eraseEntry, h] using ih
      · simp [eraseEntry, findEntry, h, ih]
    · by_cases ho : other = k
      · subst ho
        simp [eraseEntry, findEntry, hk, Ne.symm hk]
      · simp [eraseEntry, findEntry, hk, ho, ih]

theorem findEntry_map (key : κ) (f : α → β) (entries : List (κ × α)) :
    findEntry key (entries.map fun e => (e.1, f e.2)) = (findEntry key entries).map f := by
  induction entries with
  | nil => rfl
  | cons head rest ih =>
    simp only [List.map_cons, findEntry, ih]
    split <;> rfl

/-- A key below all keys of a list has no entry in it. -/
theorem findEntry_eq_none_of_lt {key : κ} {entries : List (κ × α)}
    (h : ∀ e ∈ entries, compare key e.1 = .lt) : findEntry key entries = none := by
  induction entries with
  | nil => rfl
  | cons head rest ih =>
    simp [findEntry, h head List.mem_cons_self,
      ih fun e he => h e (List.mem_cons_of_mem _ he)]

theorem length_insertEntry_of_none {key : κ} {value : α} {entries : List (κ × α)}
    (h : findEntry key entries = none) :
    (insertEntry key value entries).length = entries.length + 1 := by
  induction entries with
  | nil => rfl
  | cons head rest ih =>
    obtain ⟨k, a⟩ := head
    simp only [findEntry] at h
    split at h
    · cases h
    · next hne =>
      cases hc : compare key k with
      | lt => simp [insertEntry, hc]
      | eq => exact absurd hc hne
      | gt => simp [insertEntry, hc, ih h]

theorem findEntry_eq_some_iff [Std.LawfulEqOrd κ] {key : κ} {value : α}
    {entries : List (κ × α)} (h : Increasing entries) :
    findEntry key entries = some value ↔ (key, value) ∈ entries := by
  induction entries with
  | nil => simp [findEntry]
  | cons head rest ih =>
    obtain ⟨k, a⟩ := head
    obtain ⟨hhead, hrest⟩ := List.pairwise_cons.mp h
    by_cases hk : key = k
    · subst hk
      have hnot : (key, value) ∉ rest := by
        intro hm
        have := hhead _ hm
        simp [Std.ReflCmp.compare_self] at this
      simp [findEntry, hnot, Std.ReflCmp.compare_self, eq_comm]
    · simp [findEntry, hk, ih hrest]

/-- Increasing lists are determined by their lookups. -/
theorem Increasing.eq_of_findEntry [Std.TransOrd κ] [Std.LawfulEqOrd κ]
    {first second : List (κ × α)} (hf : Increasing first) (hs : Increasing second)
    (h : ∀ key, findEntry key first = findEntry key second) : first = second := by
  have self (k : κ) : compare k k = .eq := Std.ReflCmp.compare_self
  induction first generalizing second with
  | nil =>
    cases second with
    | nil => rfl
    | cons e rest => simpa [findEntry, self] using h e.1
  | cons e rest ih =>
    cases second with
    | nil => simpa [findEntry, self] using h e.1
    | cons e' rest' =>
      obtain ⟨k, a⟩ := e
      obtain ⟨k', a'⟩ := e'
      obtain ⟨hk, hrest⟩ := List.pairwise_cons.mp hf
      obtain ⟨hk', hrest'⟩ := List.pairwise_cons.mp hs
      have hkey : k = k' := by
        cases hc : compare k k' with
        | eq => exact Std.LawfulEqCmp.eq_of_compare hc
        | lt =>
          have hnone : findEntry k rest' = none :=
            findEntry_eq_none_of_lt fun e he => Std.TransCmp.lt_trans hc (hk' e he)
          simpa [findEntry, self, hc, hnone] using h k
        | gt =>
          have hc' := Std.OrientedCmp.gt_iff_lt.mp hc
          have hnone : findEntry k' rest = none :=
            findEntry_eq_none_of_lt fun e he => Std.TransCmp.lt_trans hc' (hk e he)
          simpa [findEntry, self, hc', hnone] using h k'
      subst hkey
      have ha : a = a' := by simpa [findEntry, self] using h k
      subst ha
      congr 1
      refine ih hrest hrest' fun key => ?_
      by_cases hkey : key = k
      · subst hkey
        rw [findEntry_eq_none_of_lt hk, findEntry_eq_none_of_lt hk']
      · simpa [findEntry, hkey] using h key

-- ---------------------------------------------------------------------------
-- Tables
-- ---------------------------------------------------------------------------

structure Table (κ α : Type) [Ord κ] where
  entries : List (κ × α)
  increasing : Increasing entries

namespace Table

instance [DecidableEq κ] [DecidableEq α] : DecidableEq (Table κ α) := fun first second =>
  if h : first.entries = second.entries then
    isTrue (by cases first; cases second; cases h; rfl)
  else isFalse fun he => h (he ▸ rfl)

def empty : Table κ α := ⟨[], .nil⟩

def get? (table : Table κ α) (key : κ) : Option α := findEntry key table.entries

def insert [Std.TransOrd κ] [Std.LawfulEqOrd κ] (table : Table κ α) (key : κ) (value : α) :
    Table κ α :=
  ⟨insertEntry key value table.entries, table.increasing.insertEntry key value⟩

def erase (table : Table κ α) (key : κ) : Table κ α :=
  ⟨eraseEntry key table.entries, table.increasing.eraseEntry key⟩

def mapValues (table : Table κ α) (f : α → β) : Table κ β :=
  ⟨table.entries.map fun e => (e.1, f e.2), table.increasing.mapValues f⟩

def keys (table : Table κ α) : List κ := table.entries.map Prod.fst

def size (table : Table κ α) : Nat := table.entries.length

def isEmpty (table : Table κ α) : Bool := table.entries.isEmpty

/-- Inserts the entries in order; of two with one key the later stays. -/
def insertAll [Std.TransOrd κ] [Std.LawfulEqOrd κ] (table : Table κ α)
    (entries : List (κ × α)) : Table κ α :=
  entries.foldl (fun t e => t.insert e.1 e.2) table

def ofList [Std.TransOrd κ] [Std.LawfulEqOrd κ] (entries : List (κ × α)) : Table κ α :=
  empty.insertAll entries

/-- The entries of both tables; where both have a key, `upper` decides. -/
def override [Std.TransOrd κ] [Std.LawfulEqOrd κ] (table upper : Table κ α) : Table κ α :=
  table.insertAll upper.entries

@[simp] theorem get?_empty (key : κ) : (empty : Table κ α).get? key = none := rfl

@[simp] theorem get?_insert [Std.TransOrd κ] [Std.LawfulEqOrd κ] [DecidableEq κ]
    (table : Table κ α) (key other : κ) (value : α) :
    (table.insert key value).get? other = if other = key then some value else table.get? other :=
  findEntry_insertEntry key other value table.entries

@[simp] theorem get?_erase [Std.LawfulEqOrd κ] [DecidableEq κ]
    (table : Table κ α) (key other : κ) :
    (table.erase key).get? other = if other = key then none else table.get? other :=
  findEntry_eraseEntry key other table.entries

@[simp] theorem get?_mapValues (table : Table κ α) (f : α → β) (key : κ) :
    (table.mapValues f).get? key = (table.get? key).map f :=
  findEntry_map key f table.entries

theorem get?_eq_some_iff [Std.LawfulEqOrd κ] {table : Table κ α} {key : κ} {value : α} :
    table.get? key = some value ↔ (key, value) ∈ table.entries :=
  findEntry_eq_some_iff table.increasing

theorem mem_keys_iff [Std.LawfulEqOrd κ] {table : Table κ α} {key : κ} :
    key ∈ table.keys ↔ (table.get? key).isSome := by
  simp only [Option.isSome_iff_exists, get?_eq_some_iff]
  simp [keys]

theorem mem_keys_insert [Std.TransOrd κ] [Std.LawfulEqOrd κ] [DecidableEq κ] {table : Table κ α}
    {key other : κ} {value : α} :
    other ∈ (table.insert key value).keys ↔ other = key ∨ other ∈ table.keys := by
  by_cases h : other = key <;> simp [mem_keys_iff, h]

theorem nodup_keys [Std.LawfulEqOrd κ] (table : Table κ α) : table.keys.Nodup := by
  refine List.pairwise_map.mpr (table.increasing.imp ?_)
  intro e e' hlt heq
  simp [heq, Std.ReflCmp.compare_self] at hlt

/-- Tables with the same lookups are equal. -/
theorem ext_get? [Std.TransOrd κ] [Std.LawfulEqOrd κ] {first second : Table κ α}
    (h : ∀ key, first.get? key = second.get? key) : first = second := by
  obtain ⟨entries, hf⟩ := first
  obtain ⟨entries', hs⟩ := second
  have := hf.eq_of_findEntry hs h
  subst this
  rfl

theorem get?_insertAll_of_increasing [Std.TransOrd κ] [Std.LawfulEqOrd κ]
    {entries : List (κ × α)} (h : Increasing entries) (table : Table κ α) (key : κ) :
    (table.insertAll entries).get? key = (findEntry key entries).or (table.get? key) := by
  classical
  induction entries generalizing table with
  | nil => rfl
  | cons e rest ih =>
    obtain ⟨hhead, hrest⟩ := List.pairwise_cons.mp h
    have step : table.insertAll (e :: rest) = (table.insert e.1 e.2).insertAll rest := rfl
    rw [step, ih hrest, get?_insert]
    by_cases hk : key = e.1
    · subst hk
      simp [findEntry, findEntry_eq_none_of_lt hhead, Std.ReflCmp.compare_self]
    · simp [findEntry, hk]

@[simp] theorem get?_override [Std.TransOrd κ] [Std.LawfulEqOrd κ]
    (table upper : Table κ α) (key : κ) :
    (table.override upper).get? key = (upper.get? key).or (table.get? key) :=
  get?_insertAll_of_increasing upper.increasing table key

/-- Laying a table over one that contains it changes nothing. -/
theorem override_eq_left [Std.TransOrd κ] [Std.LawfulEqOrd κ] {table upper : Table κ α}
    (h : ∀ key a, upper.get? key = some a → table.get? key = some a) :
    table.override upper = table := by
  apply ext_get?
  intro key
  rw [get?_override]
  cases hkey : upper.get? key with
  | some a => simp [h key a hkey]
  | none => rfl

section
variable [Std.TransOrd κ] [Std.LawfulEqOrd κ] {entries : List (κ × α)}

/-- Among entries with different keys none is replaced. -/
theorem get?_insertAll_eq_some_iff (h : (entries.map Prod.fst).Nodup) (table : Table κ α)
    {key : κ} {value : α} :
    (table.insertAll entries).get? key = some value ↔
      (key, value) ∈ entries ∨ key ∉ entries.map Prod.fst ∧ table.get? key = some value := by
  classical
  induction entries generalizing table with
  | nil => simp [insertAll]
  | cons e rest ih =>
    obtain ⟨k, a⟩ := e
    obtain ⟨hk, hrest⟩ := List.nodup_cons.mp h
    have step : table.insertAll ((k, a) :: rest) = (table.insert k a).insertAll rest := rfl
    rw [step, ih hrest, get?_insert]
    by_cases hkey : key = k
    · subst hkey
      have hnot : (key, value) ∉ rest := fun hm => hk (List.mem_map.mpr ⟨_, hm, rfl⟩)
      simp [hk, hnot, eq_comm]
    · simp [hkey]

theorem get?_ofList_eq_some_iff (h : (entries.map Prod.fst).Nodup) {key : κ} {value : α} :
    (ofList entries).get? key = some value ↔ (key, value) ∈ entries := by
  simp [ofList, get?_insertAll_eq_some_iff h]

theorem size_insertAll (h : (entries.map Prod.fst).Nodup) (table : Table κ α)
    (hnew : ∀ e ∈ entries, table.get? e.1 = none) :
    (table.insertAll entries).size = table.size + entries.length := by
  classical
  induction entries generalizing table with
  | nil => rfl
  | cons e rest ih =>
    obtain ⟨hk, hrest⟩ := List.nodup_cons.mp h
    have step : table.insertAll (e :: rest) = (table.insert e.1 e.2).insertAll rest := rfl
    have hsize : (table.insert e.1 e.2).size = table.size + 1 :=
      length_insertEntry_of_none (hnew e List.mem_cons_self)
    rw [step, ih hrest, hsize, List.length_cons]
    · omega
    · intro e' he'
      have hne : e'.1 ≠ e.1 := fun heq => hk (heq ▸ List.mem_map_of_mem he')
      simp [hne, hnew e' (List.mem_cons_of_mem _ he')]

theorem size_ofList (h : (entries.map Prod.fst).Nodup) :
    (ofList entries).size = entries.length := by
  have hsize := size_insertAll h (empty : Table κ α) fun _ _ => rfl
  exact hsize.trans (Nat.zero_add _)

/-- Tables that know the same keys list them in the same order. -/
theorem keys_eq_of_isSome {first : Table κ α} {second : Table κ β}
    (h : ∀ key, (first.get? key).isSome = (second.get? key).isSome) :
    first.keys = second.keys := by
  have hunit : first.mapValues (fun _ => ()) = second.mapValues (fun _ => ()) := by
    apply ext_get?
    intro key
    have hkey := h key
    simp only [get?_mapValues]
    cases hf : first.get? key <;> cases hs : second.get? key <;> simp_all
  have hkeys := congrArg keys hunit
  simpa [keys, mapValues, Function.comp_def] using hkeys

end

end Table

end SimpleTypes
