/-!
# Counting distinct members

Removing repeats leaves a list without repeats, and the number of distinct
members grows with the set of members.
-/

namespace SimpleTypes

variable {α : Type} [BEq α] [LawfulBEq α]

theorem nodup_eraseDups (l : List α) : l.eraseDups.Nodup := by
  match l with
  | [] => exact List.nodup_nil
  | a :: rest =>
    rw [List.eraseDups_cons]
    have : (rest.filter fun b => !b == a).length ≤ rest.length := List.length_filter_le _ _
    refine List.nodup_cons.mpr ⟨?_, nodup_eraseDups _⟩
    simp [List.mem_eraseDups]
termination_by l.length

def distinctCount (l : List α) : Nat := l.eraseDups.length

theorem distinctCount_le {l m : List α} (h : l ⊆ m) : distinctCount l ≤ distinctCount m :=
  (nodup_eraseDups l).length_le_of_subset fun _ ha =>
    List.mem_eraseDups.mpr (h (List.mem_eraseDups.mp ha))

theorem distinctCount_lt {l m : List α} {a : α} (h : l ⊆ m) (hm : a ∈ m) (hl : a ∉ l) :
    distinctCount l < distinctCount m := by
  have hnodup : (a :: l.eraseDups).Nodup :=
    List.nodup_cons.mpr ⟨fun ha => hl (List.mem_eraseDups.mp ha), nodup_eraseDups l⟩
  refine hnodup.length_le_of_subset fun b hb => List.mem_eraseDups.mpr ?_
  rcases List.mem_cons.mp hb with rfl | hb
  · exact hm
  · exact h (List.mem_eraseDups.mp hb)

end SimpleTypes
