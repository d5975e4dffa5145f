import Mathlib.Data.List.Induction
import Mathlib.Data.List.Nodup

/-!
# First occurrences

`eraseDups` keeps the first of equal items.  A loop that appends what it has not seen builds the
same list, and one that stops at a number of items a first part of it.
-/

namespace Lyra.Lib

variable {α : Type*} [BEq α] [LawfulBEq α]

theorem eraseDups_concat (l : List α) (a : α) :
    (l ++ [a]).eraseDups = if a ∈ l then l.eraseDups else l.eraseDups ++ [a] := by
  rw [List.eraseDups_append]
  split
  case isTrue ha => simp [List.removeAll, ha]
  case isFalse ha => simp [List.removeAll, ha, List.eraseDups_cons]

theorem nodup_eraseDups (l : List α) : l.eraseDups.Nodup := by
  induction l using List.reverseRecOn with
  | nil => exact List.nodup_nil
  | append_singleton l a ih =>
    rw [eraseDups_concat]
    split
    case isTrue => exact ih
    case isFalse ha =>
      refine List.nodup_append.mpr ⟨ih, List.nodup_singleton a, ?_⟩
      rintro b hb c hc rfl
      exact ha (List.mem_singleton.mp hc ▸ List.mem_eraseDups.mp hb)

theorem eraseDups_of_nodup {l : List α} (h : l.Nodup) : l.eraseDups = l := by
  induction l using List.reverseRecOn with
  | nil => rfl
  | append_singleton l a ih =>
    obtain ⟨hl, -, hdisjoint⟩ := List.nodup_append.mp h
    rw [eraseDups_concat, if_neg fun ha => hdisjoint a ha a List.mem_cons_self rfl, ih hl]

/-- Items come in the order of their first occurrences. -/
theorem pairwise_idxOf_eraseDups (l : List α) :
    l.eraseDups.Pairwise fun a b => l.idxOf a < l.idxOf b := by
  induction l using List.reverseRecOn with
  | nil => exact List.Pairwise.nil
  | append_singleton l a ih =>
    have hkeep : l.eraseDups.Pairwise fun x y => (l ++ [a]).idxOf x < (l ++ [a]).idxOf y := by
      refine ih.imp_of_mem ?_
      intro x y hx hy h
      rw [List.idxOf_append_of_mem (List.mem_eraseDups.mp hx),
        List.idxOf_append_of_mem (List.mem_eraseDups.mp hy)]
      exact h
    rw [eraseDups_concat]
    split
    case isTrue => exact hkeep
    case isFalse ha =>
      refine List.pairwise_append.mpr ⟨hkeep, List.pairwise_singleton _ a, ?_⟩
      intro x hx y hy
      cases List.mem_singleton.mp hy
      have hin := List.mem_eraseDups.mp hx
      rw [List.idxOf_append_of_mem hin, List.idxOf_append_of_notMem ha]
      exact Nat.lt_of_lt_of_le (List.idxOf_lt_length_of_mem hin) (Nat.le_add_right _ _)

/-- Append what is not there yet. -/
def pushNew (out : List α) (a : α) : List α := if a ∈ out then out else out ++ [a]

theorem foldl_pushNew (l : List α) : l.foldl pushNew [] = l.eraseDups := by
  induction l using List.reverseRecOn with
  | nil => rfl
  | append_singleton l a ih =>
    rw [List.foldl_append, ih, List.foldl_cons, List.foldl_nil, eraseDups_concat, pushNew]
    simp only [List.mem_eraseDups]

theorem prefix_foldl_pushNew (out l : List α) : out <+: l.foldl pushNew out := by
  induction l generalizing out with
  | nil => exact List.prefix_rfl
  | cons a l ih =>
    refine List.IsPrefix.trans ?_ (ih (pushNew out a))
    unfold pushNew
    split
    · exact List.prefix_rfl
    · exact List.prefix_append out [a]

/-- The loop that stops when it has `cap` items. -/
def collectNew (cap : Nat) (out : List α) : List α → List α
  | [] => out
  | a :: l =>
    if a ∈ out then collectNew cap out l
    else if cap ≤ (out ++ [a]).length then out ++ [a]
    else collectNew cap (out ++ [a]) l

theorem collectNew_eq_take {cap : Nat} {out : List α} (hout : out.length < cap) (l : List α) :
    collectNew cap out l = (l.foldl pushNew out).take cap := by
  induction l generalizing out with
  | nil => exact (List.take_of_length_le (Nat.le_of_lt hout)).symm
  | cons a l ih =>
    rw [collectNew, List.foldl_cons, pushNew]
    split
    case isTrue => exact ih hout
    case isFalse =>
      split
      case isTrue hfull =>
        obtain ⟨rest, hrest⟩ := prefix_foldl_pushNew (out ++ [a]) l
        have hlen : (out ++ [a]).length = cap := by
          rw [List.length_append, List.length_singleton] at hfull ⊢
          omega
        rw [← hrest, List.take_left' hlen]
      case isFalse hroom => exact ih (Nat.lt_of_not_le hroom)

end Lyra.Lib
