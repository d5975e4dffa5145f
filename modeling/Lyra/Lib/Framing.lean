import Mathlib.Data.List.Basic

/-!
# Streams cut into frames

A stream arrives in chunks and is cut behind terminators; what has no terminator yet waits in a
buffer.

* `receive_eq`: the frames do not depend on the chunks;
* `drain_snoc`: at most one frame ends with each element.
-/

namespace Lyra.Lib

variable {α : Type}

/-- Where the first frame ends. -/
structure Framer (α : Type) where
  cut : List α → Option Nat
  cut_pos : ∀ s n, cut s = some n → 0 < n ∧ n ≤ s.length
  /-- What follows a frame does not move its end. -/
  cut_append : ∀ s t n, cut s = some n → cut (s ++ t) = some n
  /-- A frame ends as soon as its last element is there. -/
  cut_snoc : ∀ s a n, cut s = none → cut (s ++ [a]) = some n → n = s.length + 1

namespace Framer

variable (F : Framer α)

/-- The frames at the beginning of a buffer, and the rest. -/
def drain (s : List α) : List (List α) × List α :=
  match _h : F.cut s with
  | none => ([], s)
  | some n =>
    let (frames, rest) := drain (s.drop n)
    (s.take n :: frames, rest)
termination_by s.length
decreasing_by
  have := F.cut_pos s n _h
  rw [List.length_drop]
  omega

/-- The frames of a buffer and the chunks that are appended to it. -/
def receive : List α → List (List α) → List (List α) × List α
  | buf, [] => ([], buf)
  | buf, chunk :: chunks =>
    let (frames, rest) := F.drain (buf ++ chunk)
    let (later, rest) := receive rest chunks
    (frames ++ later, rest)

variable {F} {s t buf : List α} {a : α} {n : Nat} {chunks : List (List α)}

theorem drain_none (h : F.cut s = none) : F.drain s = ([], s) := by
  rw [drain]
  split
  · rfl
  · rename_i n hn
    rw [h] at hn
    cases hn

theorem drain_some (h : F.cut s = some n) :
    F.drain s = (s.take n :: (F.drain (s.drop n)).1, (F.drain (s.drop n)).2) := by
  rw [drain]
  split
  · rename_i hn
    rw [h] at hn
    cases hn
  · rename_i m hm
    rw [h] at hm
    cases hm
    rfl

/-- The buffer can be drained before more is appended to it. -/
theorem drain_append (s t : List α) :
    F.drain (s ++ t) = ((F.drain s).1 ++ (F.drain ((F.drain s).2 ++ t)).1,
      (F.drain ((F.drain s).2 ++ t)).2) := by
  cases h : F.cut s with
  | none => simp [drain_none h]
  | some n =>
    obtain ⟨hpos, hle⟩ := F.cut_pos s n h
    have ih := drain_append (s.drop n) t
    rw [drain_some h, drain_some (F.cut_append s t n h), List.take_append_of_le_length hle,
      List.drop_append_of_le_length hle, ih]
    rfl
termination_by s.length
decreasing_by
  rw [List.length_drop]
  omega

theorem cut_drain (s : List α) : F.cut (F.drain s).2 = none := by
  cases h : F.cut s with
  | none => rw [drain_none h, h]
  | some n =>
    obtain ⟨hpos, hle⟩ := F.cut_pos s n h
    rw [drain_some h]
    exact cut_drain (s.drop n)
termination_by s.length
decreasing_by
  rw [List.length_drop]
  omega

/-- The frames are those of the whole stream, however it is cut into chunks. -/
theorem receive_eq (h : F.cut buf = none) :
    F.receive buf chunks = F.drain (buf ++ chunks.flatten) := by
  induction chunks generalizing buf with
  | nil => rw [List.flatten_nil, List.append_nil, drain_none h, receive]
  | cons chunk chunks ih =>
    have hrest := ih (cut_drain (buf ++ chunk))
    rw [List.flatten_cons, ← List.append_assoc, drain_append (buf ++ chunk), ← hrest]
    rfl

/-- With one more element at most one more frame is complete. -/
theorem drain_snoc (s : List α) (a : α) :
    F.drain (s ++ [a]) = if (F.cut ((F.drain s).2 ++ [a])).isSome then
      ((F.drain s).1 ++ [(F.drain s).2 ++ [a]], []) else ((F.drain s).1, (F.drain s).2 ++ [a]) := by
  rw [drain_append]
  cases h : F.cut ((F.drain s).2 ++ [a]) with
  | none => simp [drain_none h]
  | some n =>
    obtain rfl := F.cut_snoc _ a n (cut_drain s) h
    have hnil : F.drain [] = ([], []) := by
      refine drain_none ?_
      cases hnil : F.cut [] with
      | none => rfl
      | some m =>
        have := F.cut_pos [] m hnil
        simp at this
        omega
    rw [drain_some h, List.take_of_length_le (by simp), List.drop_eq_nil_of_le (by simp), hnil]
    rfl

end Framer

end Lyra.Lib
