import CommandScript.Text.Cluster

/-!
# Edited lines

A line may hold backspaces, and counts as what is left after them. A backspace takes away
the cluster before it, as the clusters are in the line as it was written.

The size of each cluster is kept in one byte. Of a cluster of 256 bytes or more only the
remainder is taken, from its end.

* `eraseBytes`: takes so many bytes of whole characters.
* `edited`: what is left of a line.
* `Editing.erase_append`: a backspace right after a cluster undoes it, unless it is that
  large.
* `edited_of_no_backspace`: a line without backspaces is left as it is.
-/

namespace CommandScript.Text

def backspace : Char := '\x08'

def byteSize : List Char → Nat
  | [] => 0
  | c :: rest => c.utf8Size + byteSize rest

theorem byteSize_append (text rest : List Char) :
    byteSize (text ++ rest) = byteSize text + byteSize rest := by
  induction text with
  | nil => exact (Nat.zero_add _).symm
  | cons c text ih => rw [List.cons_append, byteSize, ih, byteSize, Nat.add_assoc]

theorem byteSize_reverse (text : List Char) : byteSize text.reverse = byteSize text := by
  induction text with
  | nil => rfl
  | cons c text ih =>
    rw [List.reverse_cons, byteSize_append, ih, Nat.add_comm]
    rfl

/-- The characters that are left, nearest first, when the nearest ones are taken as long as
they fit into the given number of bytes. -/
def eraseBytes (size : Nat) : List Char → List Char
  | [] => []
  | c :: rest => if c.utf8Size ≤ size then eraseBytes (size - c.utf8Size) rest else c :: rest

/-- The size of a text is what takes the text and nothing more. -/
theorem eraseBytes_byteSize (text rest : List Char) :
    eraseBytes (byteSize text) (text ++ rest) = rest := by
  induction text with
  | nil =>
    cases rest with
    | nil => rfl
    | cons c rest =>
      have hc : ¬ c.utf8Size ≤ 0 := Nat.not_le.mpr c.utf8Size_pos
      rw [List.nil_append, byteSize, eraseBytes, if_neg hc]
  | cons c text ih =>
    rw [byteSize, List.cons_append, eraseBytes, if_pos (Nat.le_add_right _ _),
      Nat.add_sub_cancel_left, ih]

/-- What a line holds up to some point, nearest first, and the sizes of its clusters. -/
structure Editing where
  held : List Char
  sizes : List Nat

namespace Editing

def empty : Editing := ⟨[], []⟩

/-- Takes away the last cluster, if there is one. -/
def erase (editing : Editing) : Editing :=
  match editing.sizes with
  | [] => editing
  | size :: sizes => ⟨eraseBytes size editing.held, sizes⟩

def append (editing : Editing) (cluster : List Char) : Editing :=
  ⟨cluster.reverse ++ editing.held, byteSize cluster % 256 :: editing.sizes⟩

def take (editing : Editing) (cluster : List Char) : Editing :=
  if cluster = [backspace] then editing.erase else editing.append cluster

theorem erase_append (editing : Editing) (cluster : List Char) (h : byteSize cluster < 256) :
    (editing.append cluster).erase = editing := by
  rw [append, erase, Nat.mod_eq_of_lt h]
  simp only
  rw [← byteSize_reverse, eraseBytes_byteSize]

theorem held_foldl_take (clusters : List (List Char)) (editing : Editing)
    (h : [backspace] ∉ clusters) :
    (clusters.foldl take editing).held = clusters.flatten.reverse ++ editing.held := by
  induction clusters generalizing editing with
  | nil => rfl
  | cons cluster rest ih =>
    rw [List.mem_cons, not_or] at h
    rw [List.foldl_cons, ih _ h.2, take, if_neg (Ne.symm h.1), append]
    simp

end Editing

def edited (line : List Char) : List Char :=
  ((clusters line).foldl Editing.take Editing.empty).held.reverse

theorem edited_of_no_backspace {line : List Char} (h : backspace ∉ line) :
    edited line = line := by
  have hc : [backspace] ∉ clusters line := fun hmem =>
    h (flatten_clusters line ▸ List.mem_flatten_of_mem hmem List.mem_cons_self)
  rw [edited, Editing.held_foldl_take _ _ hc, flatten_clusters]
  simp [Editing.empty]

end CommandScript.Text
