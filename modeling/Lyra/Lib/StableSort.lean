import Mathlib.Data.List.Sort
import Mathlib.Order.Lattice

/-!
# Sorting by a key, in order

Insertion sort by a key keeps the order of elements with one key.  What stands before an element
of the sorted list is what has a smaller key, and what has the same key and stood before it.

* `filter_sortBy`: the elements of one key stand as they stood;
* `sortBy_split`, `split_sortBy`: an occurrence in the list and in the sorted list.
-/

namespace Lyra.Lib.StableSort

variable {α : Type} (key : α → Nat)

/-- The list by its keys. -/
def sortBy (l : List α) : List α := l.insertionSort fun a b => key a ≤ key b

theorem mem_sortBy {l : List α} {a : α} : a ∈ sortBy key l ↔ a ∈ l := List.mem_insertionSort _

theorem pairwise_sortBy (l : List α) : (sortBy key l).Pairwise fun a b => key a ≤ key b :=
  List.pairwise_insertionSort _ l

theorem filter_orderedInsert (k : Nat) (a : α) (l : List α) :
    (l.orderedInsert (fun a b => key a ≤ key b) a).filter (fun b => decide (key b = k)) =
      (a :: l).filter fun b => decide (key b = k) := by
  induction l with
  | nil => rfl
  | cons b l ih =>
    rw [List.orderedInsert]
    split
    case isTrue => rfl
    case isFalse hgt =>
      rw [List.filter_cons, ih]
      by_cases ha : key a = k
      · have hb : key b ≠ k := by omega
        simp [ha, hb]
      · simp [List.filter_cons, ha]

/-- The elements of one key stand as they stood. -/
theorem filter_sortBy (k : Nat) (l : List α) :
    (sortBy key l).filter (fun a => decide (key a = k)) = l.filter fun a => decide (key a = k) := by
  induction l with
  | nil => rfl
  | cons a l ih =>
    rw [sortBy, List.insertionSort_cons, filter_orderedInsert, List.filter_cons, List.filter_cons]
    rw [sortBy] at ih
    rw [ih]

/-- An occurrence in one list is one in another whose elements of that key stand the same. -/
theorem occurrence {l m before after : List α} {a : α} (hl : l = before ++ a :: after)
    (h : m.filter (fun b => decide (key b = key a)) = l.filter fun b => decide (key b = key a)) :
    ∃ before' after', m = before' ++ a :: after' ∧
      before'.filter (fun b => decide (key b = key a)) =
        before.filter (fun b => decide (key b = key a)) ∧
      after'.filter (fun b => decide (key b = key a)) =
        after.filter fun b => decide (key b = key a) := by
  rw [hl, List.filter_append, List.filter_cons_of_pos (by simp), List.filter_eq_append_iff] at h
  obtain ⟨m₁, m₂, rfl, hbefore, hrest⟩ := h
  obtain ⟨n₁, n₂, rfl, hnone, -, hafter⟩ := List.filter_eq_cons_iff.mp hrest
  have hn : n₁.filter (fun b => decide (key b = key a)) = [] := List.filter_eq_nil_iff.mpr hnone
  refine ⟨m₁ ++ n₁, n₂, (List.append_assoc ..).symm, ?_, hafter⟩
  rw [List.filter_append, hbefore, hn, List.append_nil]

/-- What stands around an element of the sorted list, from where it stood. -/
structure Around (l before : List α) (a : α) (after before' after' : List α) : Prop where
  before : ∀ b, b ∈ before' ↔ b ∈ l ∧ key b < key a ∨ b ∈ before ∧ key b = key a
  after : ∀ b, b ∈ after' ↔ b ∈ l ∧ key a < key b ∨ b ∈ after ∧ key b = key a

theorem mem_of_filter_eq {l m : List α} {k : Nat}
    (h : l.filter (fun b => decide (key b = k)) = m.filter fun b => decide (key b = k)) {b : α}
    (hb : key b = k) : b ∈ l ↔ b ∈ m := by
  have hl : b ∈ l ↔ b ∈ l.filter fun b => decide (key b = k) := by simp [List.mem_filter, hb]
  have hm : b ∈ m ↔ b ∈ m.filter fun b => decide (key b = k) := by simp [List.mem_filter, hb]
  rw [hl, h, ← hm]

theorem around_of_split {l before after before' after' : List α} {a : α}
    (hsorted : sortBy key l = before' ++ a :: after')
    (hbefore : before'.filter (fun b => decide (key b = key a)) =
      before.filter fun b => decide (key b = key a))
    (hafter : after'.filter (fun b => decide (key b = key a)) =
      after.filter fun b => decide (key b = key a)) :
    Around key l before a after before' after' := by
  have hpairwise := pairwise_sortBy key l
  rw [hsorted] at hpairwise
  obtain ⟨-, hright, hcross⟩ := List.pairwise_append.mp hpairwise
  have hle : ∀ b ∈ before', key b ≤ key a := fun b hb => hcross b hb a List.mem_cons_self
  have hge : ∀ b ∈ after', key a ≤ key b := (List.pairwise_cons.mp hright).1
  have hmem : ∀ b, b ∈ l ↔ b ∈ before' ∨ b = a ∨ b ∈ after' := by
    intro b
    rw [← mem_sortBy key, hsorted, List.mem_append, List.mem_cons]
  constructor
  · intro b
    rcases Nat.lt_trichotomy (key b) (key a) with hlt | heq | hgt
    · have hafter' : b ∉ after' := fun hb => Nat.not_le.mpr hlt (hge b hb)
      have hne : b ≠ a := fun e => Nat.lt_irrefl _ (e ▸ hlt)
      simp [hmem, hlt, Nat.ne_of_lt hlt, hafter', hne]
    · rw [mem_of_filter_eq key hbefore heq]
      simp [heq]
    · have hbefore' : b ∉ before' := fun hb => Nat.not_le.mpr hgt (hle b hb)
      simp [hbefore', Nat.not_lt.mpr (Nat.le_of_lt hgt), Nat.ne_of_gt hgt]
  · intro b
    rcases Nat.lt_trichotomy (key b) (key a) with hlt | heq | hgt
    · have hafter' : b ∉ after' := fun hb => Nat.not_le.mpr hlt (hge b hb)
      simp [hafter', Nat.not_lt.mpr (Nat.le_of_lt hlt), Nat.ne_of_lt hlt]
    · rw [mem_of_filter_eq key hafter heq]
      simp [heq]
    · have hbefore' : b ∉ before' := fun hb => Nat.not_le.mpr hgt (hle b hb)
      have hne : b ≠ a := fun e => Nat.lt_irrefl _ (e ▸ hgt)
      simp [hmem, hgt, Nat.ne_of_gt hgt, hbefore', hne]

/-- Where an element of the list is in the sorted list. -/
theorem sortBy_split {l before after : List α} {a : α} (h : l = before ++ a :: after) :
    ∃ before' after', sortBy key l = before' ++ a :: after' ∧
      Around key l before a after before' after' := by
  obtain ⟨before', after', hsorted, hbefore, hafter⟩ :=
    occurrence key h (filter_sortBy key (key a) l)
  exact ⟨before', after', hsorted, around_of_split key hsorted hbefore hafter⟩

/-- Where an element of the sorted list was. -/
theorem split_sortBy {l before' after' : List α} {a : α}
    (h : sortBy key l = before' ++ a :: after') :
    ∃ before after, l = before ++ a :: after ∧ Around key l before a after before' after' := by
  obtain ⟨before, after, hl, hbefore, hafter⟩ :=
    occurrence key h (filter_sortBy key (key a) l).symm
  exact ⟨before, after, hl, around_of_split key h hbefore.symm hafter.symm⟩

end Lyra.Lib.StableSort
