import Mathlib.Data.List.Basic

/-!
# Chunks of a list

`chunks n l` cuts `l` into runs of `n` elements, the last one possibly shorter.
The recursion is on a length bound, so that it evaluates; `chunks_eq_cons`
is the equation to reason with.
-/

namespace Lyra.Lib

variable {α : Type}

/-- `chunks` with a bound on the number of pieces. -/
def chunksWithin (n : Nat) : Nat → List α → List (List α)
  | 0, _ => []
  | _ + 1, [] => []
  | k + 1, a :: l => (a :: l).take n :: chunksWithin n k ((a :: l).drop n)

/-- Consecutive runs of `n` elements. -/
def chunks (n : Nat) (l : List α) : List (List α) := chunksWithin n l.length l

@[simp] theorem chunks_nil (n : Nat) : chunks n ([] : List α) = [] := rfl

/-- Any bound of at least the length gives the same pieces. -/
theorem chunksWithin_eq (n : Nat) (hn : 0 < n) (k : Nat) (l : List α) (hk : l.length ≤ k) :
    chunksWithin n k l = chunks n l := by
  suffices h : ∀ k k' (l : List α), l.length ≤ k → l.length ≤ k' →
      chunksWithin n k l = chunksWithin n k' l from h k l.length l hk (Nat.le_refl _)
  intro k
  induction k with
  | zero =>
    intro k' l h _
    have hl : l = [] := List.length_eq_zero_iff.mp (Nat.le_zero.mp h)
    subst hl
    cases k' <;> rfl
  | succ k ih =>
    intro k' l h h'
    cases l with
    | nil => cases k' <;> rfl
    | cons a l =>
      cases k' with
      | zero => simp at h'
      | succ k' =>
        have hd : ((a :: l).drop n).length ≤ l.length := by
          simp only [List.length_drop, List.length_cons]; omega
        simp only [List.length_cons, Nat.add_le_add_iff_right] at h h'
        simp only [chunksWithin, ih k' _ (Nat.le_trans hd h) (Nat.le_trans hd h')]

theorem chunks_eq_cons (n : Nat) (hn : 0 < n) (l : List α) (hl : l ≠ []) :
    chunks n l = l.take n :: chunks n (l.drop n) := by
  cases l with
  | nil => exact absurd rfl hl
  | cons a l =>
    have hd : ((a :: l).drop n).length ≤ l.length := by
      simp only [List.length_drop, List.length_cons]; omega
    rw [← chunksWithin_eq n hn l.length _ hd]
    rfl

/-- Induction along the pieces of a list. -/
theorem drop_induction (n : Nat) (hn : 0 < n) {P : List α → Prop} (nil : P [])
    (drop : ∀ l, l ≠ [] → P (l.drop n) → P l) (l : List α) : P l := by
  suffices h : ∀ k (l : List α), l.length ≤ k → P l from h l.length l (Nat.le_refl _)
  intro k
  induction k with
  | zero =>
    intro l h
    have hl : l = [] := List.length_eq_zero_iff.mp (Nat.le_zero.mp h)
    subst hl; exact nil
  | succ k ih =>
    intro l h
    by_cases hl : l = []
    · subst hl; exact nil
    · have hpos : 0 < l.length := List.length_pos_of_ne_nil hl
      exact drop l hl (ih _ (by simp only [List.length_drop]; omega))

theorem flatten_chunks (n : Nat) (hn : 0 < n) (l : List α) : (chunks n l).flatten = l := by
  induction l using drop_induction n hn with
  | nil => rfl
  | drop l hl ih => rw [chunks_eq_cons n hn l hl, List.flatten_cons, ih, List.take_append_drop]

theorem ne_nil_of_mem_chunks (n : Nat) (hn : 0 < n) (l : List α) :
    ∀ c ∈ chunks n l, c ≠ [] := by
  induction l using drop_induction n hn with
  | nil => simp
  | drop l hl ih =>
    intro c hc
    rw [chunks_eq_cons n hn l hl] at hc
    rcases List.mem_cons.mp hc with rfl | hc
    · intro h
      rcases List.take_eq_nil_iff.mp h with h | h
      · omega
      · exact hl h
    · exact ih c hc

theorem mem_of_mem_chunks (n : Nat) (hn : 0 < n) (l : List α) {c : List α} (hc : c ∈ chunks n l)
    {a : α} (ha : a ∈ c) : a ∈ l := by
  rw [← flatten_chunks n hn l]
  exact List.mem_flatten.mpr ⟨c, hc, ha⟩

/-! ## Positions -/

theorem getElem?_chunks (n : Nat) (hn : 0 < n) (l : List α) (j : Nat) :
    (chunks n l)[j]? = if n * j < l.length then some ((l.drop (n * j)).take n) else none := by
  induction l using drop_induction n hn generalizing j with
  | nil => simp
  | drop l hl ih =>
    rw [chunks_eq_cons n hn l hl]
    cases j with
    | zero => simp [List.length_pos_iff.mpr hl]
    | succ j =>
      have hmul : n * (j + 1) = n + n * j := by
        rw [Nat.mul_succ, Nat.add_comm]
      rw [List.getElem?_cons_succ, ih j, List.drop_drop, List.length_drop, hmul]
      have hiff : n * j < l.length - n ↔ n + n * j < l.length := by omega
      simp only [hiff]

/-- Every position of the list lies in one piece. -/
theorem existsUnique_chunk (n : Nat) (hn : 0 < n) (l : List α) {i : Nat} (hi : i < l.length) :
    ∃! j, n * j ≤ i ∧ ∃ piece, (chunks n l)[j]? = some piece ∧ piece[i - n * j]? = l[i]? ∧
      i - n * j < piece.length := by
  have hdiv : n * (i / n) + i % n = i := Nat.div_add_mod i n
  have hmod : i % n < n := Nat.mod_lt i hn
  refine ⟨i / n, ⟨by omega, (l.drop (n * (i / n))).take n, ?_, ?_, ?_⟩, ?_⟩
  · rw [getElem?_chunks n hn, if_pos (by omega)]
  · rw [show i - n * (i / n) = i % n by omega, List.getElem?_take_of_lt hmod, List.getElem?_drop,
      hdiv]
  · simp only [List.length_take, List.length_drop]
    omega
  · rintro j ⟨hj, c, hc, -, hlt⟩
    rw [getElem?_chunks n hn] at hc
    split at hc
    case isTrue =>
      cases hc
      simp only [List.length_take, List.length_drop] at hlt
      refine ((Nat.div_eq_iff hn).mpr ⟨?_, ?_⟩).symm
      · rw [Nat.mul_comm]
        exact hj
      · rw [Nat.mul_comm]
        omega
    case isFalse => cases hc

section Positions

variable [BEq α] [LawfulBEq α] {l : List α}

theorem mem_drop_iff_idxOf (hl : l.Nodup) (k : Nat) (a : α) :
    a ∈ l.drop k ↔ a ∈ l ∧ k ≤ l.idxOf a := by
  constructor
  · intro h
    obtain ⟨i, hi, rfl⟩ := List.mem_iff_getElem.mp h
    simp only [List.length_drop] at hi
    rw [List.getElem_drop]
    refine ⟨List.getElem_mem _, ?_⟩
    rw [hl.idxOf_getElem]
    omega
  · rintro ⟨ha, hk⟩
    have hi := List.idxOf_lt_length_iff.mpr ha
    refine List.mem_iff_getElem.mpr ⟨l.idxOf a - k, by simp only [List.length_drop]; omega, ?_⟩
    rw [List.getElem_drop]
    simp only [show k + (l.idxOf a - k) = l.idxOf a by omega]
    exact List.getElem_idxOf hi

theorem mem_take_drop_iff_idxOf (hl : l.Nodup) (k n : Nat) (a : α) :
    a ∈ (l.drop k).take n ↔ a ∈ l ∧ k ≤ l.idxOf a ∧ l.idxOf a < k + n := by
  have hinitial : l.take (k + n) <+: l := List.take_prefix _ _
  rw [List.take_drop, mem_drop_iff_idxOf (hl.sublist (List.take_sublist _ _))]
  constructor
  · rintro ⟨ha, hk⟩
    have hal := List.mem_of_mem_take ha
    rw [hinitial.idxOf_eq_of_mem ha] at hk
    exact ⟨hal, hk, (List.mem_take_iff_idxOf_lt hal).mp ha⟩
  · rintro ⟨ha, hk, hn⟩
    have htake := (List.mem_take_iff_idxOf_lt ha).mpr hn
    rw [hinitial.idxOf_eq_of_mem htake]
    exact ⟨htake, hk⟩

end Positions

end Lyra.Lib
