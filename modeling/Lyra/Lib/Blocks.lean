import Mathlib.Data.List.Basic

/-!
# Files written in blocks

Bytes written at a position of a file, with a gap before it filled up.

* `readAt_writeAt`: what was written is read back;
* `readAt_writeAt_other`: elsewhere, what was there before;
* `flatMap_readAt`: a file is its blocks, one after the other.
-/

namespace Lyra.Lib

variable {α : Type}

def writeAt (pad : α) (file : List α) (pos : Nat) (bytes : List α) : List α :=
  (file ++ List.replicate (pos - file.length) pad).take pos ++ bytes ++
    file.drop (pos + bytes.length)

def readAt (file : List α) (pos len : Nat) : List α := (file.drop pos).take len

variable {pad : α} {file bytes : List α} {pos len at' : Nat}

theorem getElem?_readAt (i : Nat) :
    (readAt file pos len)[i]? = if i < len then file[pos + i]? else none := by
  unfold readAt
  rw [List.getElem?_take, List.getElem?_drop]

/-- Up to the end of the file, the length does not matter. -/
theorem readAt_end (h : file.length ≤ pos + len) : readAt file pos len = file.drop pos := by
  unfold readAt
  apply List.take_of_length_le
  rw [List.length_drop]
  omega

theorem length_before :
    ((file ++ List.replicate (pos - file.length) pad).take pos).length = pos := by
  rw [List.length_take, List.length_append, List.length_replicate]
  omega

theorem length_writeAt :
    (writeAt pad file pos bytes).length = max file.length (pos + bytes.length) := by
  unfold writeAt
  rw [List.length_append, List.length_append, length_before, List.length_drop]
  omega

/-- The bytes of a file after a write. -/
theorem getElem?_writeAt (i : Nat) (hi : i < file.length ∨ pos ≤ i) :
    (writeAt pad file pos bytes)[i]? =
      if pos ≤ i ∧ i < pos + bytes.length then bytes[i - pos]? else file[i]? := by
  unfold writeAt
  rcases Nat.lt_or_ge i pos with hlt | hge
  · have hfile : i < file.length := hi.resolve_right (Nat.not_le_of_lt hlt)
    rw [if_neg (by omega), List.append_assoc,
      List.getElem?_append_left (by rw [length_before]; exact hlt),
      List.getElem?_take_of_lt hlt, List.getElem?_append_left hfile]
  · rw [List.append_assoc, List.getElem?_append_right (by rw [length_before]; exact hge),
      length_before]
    rcases Nat.lt_or_ge i (pos + bytes.length) with hin | hout
    · rw [if_pos ⟨hge, hin⟩, List.getElem?_append_left (by omega)]
    · rw [if_neg (by omega), List.getElem?_append_right (by omega), List.getElem?_drop]
      congr 1
      omega

theorem readAt_writeAt : readAt (writeAt pad file pos bytes) pos bytes.length = bytes := by
  apply List.ext_getElem?
  intro i
  rw [getElem?_readAt]
  rcases Nat.lt_or_ge i bytes.length with hi | hi
  · rw [if_pos hi, getElem?_writeAt _ (.inr (Nat.le_add_right _ _)), if_pos (by omega),
      Nat.add_sub_cancel_left]
  · rw [if_neg (Nat.not_lt_of_le hi), List.getElem?_eq_none hi]

theorem readAt_writeAt_other (hin : at' + len ≤ file.length)
    (hother : at' + len ≤ pos ∨ pos + bytes.length ≤ at') :
    readAt (writeAt pad file pos bytes) at' len = readAt file at' len := by
  apply List.ext_getElem?
  intro i
  rw [getElem?_readAt, getElem?_readAt]
  rcases Nat.lt_or_ge i len with hi | hi
  · rw [if_pos hi, if_pos hi, getElem?_writeAt _ (.inl (by omega)), if_neg (by omega)]
  · rw [if_neg (Nat.not_lt_of_le hi), if_neg (Nat.not_lt_of_le hi)]

theorem flatMap_readAt_eq_take (file : List α) (size n : Nat) :
    ((List.range n).flatMap fun i => readAt file (i * size) size) = file.take (n * size) := by
  induction n with
  | zero => rw [Nat.zero_mul, List.take_zero]; rfl
  | succ n ih =>
    rw [List.range_succ, List.flatMap_append, ih, List.flatMap_singleton, Nat.succ_mul,
      List.take_add]
    rfl

theorem flatMap_readAt {size n : Nat} (h : file.length ≤ n * size) :
    ((List.range n).flatMap fun i => readAt file (i * size) size) = file := by
  rw [flatMap_readAt_eq_take, List.take_of_length_le h]

end Lyra.Lib
