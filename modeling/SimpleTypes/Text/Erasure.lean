import SimpleTypes.Text.Cluster

/-!
# Erasing by backspaces

A backspace in a line takes the cluster before it away. For every cluster its
size in bytes is noted, in one byte, and a backspace removes as many bytes as
were noted last. So a cluster of 256 bytes or more goes only in part, and where
the part would end inside a character the line cannot be read.

A line without backspaces is read as it is (`erased?_of_not_mem`).
-/

namespace SimpleTypes.Text

def backspace : Char := '\x08'

/-- The line so far and the sizes of its clusters, both latest first. -/
structure Draft where
  text : List Char := []
  sizes : List UInt8 := []
  deriving DecidableEq, Repr, Inhabited

def byteSize : List Char → Nat
  | [] => 0
  | c :: cs => c.utf8Size + byteSize cs

/-- Drops that many bytes, if they are whole characters. -/
def dropBytes? : Nat → List Char → Option (List Char)
  | 0, cs => some cs
  | _ + 1, [] => none
  | n + 1, c :: cs => if c.utf8Size ≤ n + 1 then dropBytes? (n + 1 - c.utf8Size) cs else none

namespace Draft

def add (d : Draft) (cluster : List Char) : Draft :=
  ⟨cluster.reverse ++ d.text, (byteSize cluster).toUInt8 :: d.sizes⟩

/-- Nothing happens at the start of a line. -/
def erase? (d : Draft) : Option Draft :=
  match d.sizes with
  | [] => some d
  | size :: sizes => (dropBytes? size.toNat d.text).map (⟨·, sizes⟩)

def read? (d : Draft) (cluster : List Char) : Option Draft :=
  if cluster = [backspace] then d.erase? else some (d.add cluster)

theorem text_foldlM_read? {clusters : List (List Char)} (h : [backspace] ∉ clusters) (d : Draft) :
    (clusters.foldlM read? d).map Draft.text = some (clusters.flatten.reverse ++ d.text) := by
  induction clusters generalizing d with
  | nil => simp
  | cons cluster rest ih =>
    simp only [List.mem_cons, not_or] at h
    simp [read?, Ne.symm h.1, ih h.2, add]

end Draft

/-- The line that is left when all its backspaces have been obeyed. -/
def erased? (line : String) : Option String :=
  ((clusters line.toList).foldlM Draft.read? {}).map fun d => String.ofList d.text.reverse

theorem erased?_of_not_mem {line : String} (h : backspace ∉ line.toList) :
    erased? line = some line := by
  have hc : [backspace] ∉ clusters line.toList := fun hm => h <| by
    rw [← flatten_clusters line.toList]
    exact List.mem_flatten.mpr ⟨_, hm, List.mem_singleton.mpr rfl⟩
  have ht := Draft.text_foldlM_read? hc {}
  simp only [flatten_clusters, List.append_nil] at ht
  obtain ⟨d, hd, htext⟩ := Option.map_eq_some_iff.mp ht
  simp [erased?, hd, htext]

end SimpleTypes.Text
