import Mathlib.Data.List.DropRight

/-!
# Trimming a list at both ends

`dropWhile` removes a kind of items from the front and `rdropWhile` from the end.  An item of
another kind stops each, so they commute.
-/

namespace Lyra.Lib

variable {α : Type*} {p : α → Bool} {c : α}

theorem rdropWhile_append_cons (hc : p c = false) (a b : List α) :
    (a ++ c :: b).rdropWhile p = a ++ c :: b.rdropWhile p := by
  induction b using List.reverseRecOn with
  | nil => rw [List.rdropWhile_concat_neg _ _ _ (by rw [hc]; exact Bool.false_ne_true),
      List.rdropWhile_nil]
  | append_singleton b x ih =>
    rw [← List.cons_append, ← List.append_assoc, List.rdropWhile_concat, List.rdropWhile_concat]
    split
    · exact ih
    · rw [List.append_assoc, List.cons_append]

theorem rdropWhile_cons_of_neg (hc : p c = false) (s : List α) :
    (c :: s).rdropWhile p = c :: s.rdropWhile p := rdropWhile_append_cons hc [] s

theorem rdropWhile_cons_of_pos (hc : p c = true) (s : List α) :
    (c :: s).rdropWhile p = if s.rdropWhile p = [] then [] else c :: s.rdropWhile p := by
  induction s using List.reverseRecOn with
  | nil => rw [List.rdropWhile_singleton, if_pos hc, List.rdropWhile_nil, if_pos rfl]
  | append_singleton s x ih =>
    rw [← List.cons_append, List.rdropWhile_concat, List.rdropWhile_concat]
    split
    · exact ih
    · rw [if_neg (List.append_ne_nil_of_right_ne_nil s (List.cons_ne_nil x [])), List.cons_append]

theorem dropWhile_rdropWhile (p : α → Bool) (s : List α) :
    (s.rdropWhile p).dropWhile p = (s.dropWhile p).rdropWhile p := by
  induction s with
  | nil => rfl
  | cons c s ih =>
    cases hc : p c with
    | false =>
      have hneg : ¬p c = true := by rw [hc]; exact Bool.false_ne_true
      rw [List.dropWhile_cons_of_neg hneg, rdropWhile_cons_of_neg hc,
        List.dropWhile_cons_of_neg hneg]
    | true =>
      rw [List.dropWhile_cons_of_pos hc, ← ih, rdropWhile_cons_of_pos hc]
      split
      · rename_i hempty
        rw [hempty]
      · exact List.dropWhile_cons_of_pos hc

theorem dropWhile_append_of_forall {a : List α} (ha : ∀ x ∈ a, p x = true) (b : List α) :
    (a ++ b).dropWhile p = b.dropWhile p := by
  induction a with
  | nil => rfl
  | cons c a ih =>
    rw [List.cons_append, List.dropWhile_cons_of_pos (ha c List.mem_cons_self)]
    exact ih fun x hx => ha x (List.mem_cons_of_mem c hx)

theorem dropWhile_append_cons_of_forall {a : List α} (ha : ∀ x ∈ a, p x = true) (hc : p c = false)
    (b : List α) : (a ++ c :: b).dropWhile p = c :: b := by
  rw [dropWhile_append_of_forall ha,
    List.dropWhile_cons_of_neg (by rw [hc]; exact Bool.false_ne_true)]

end Lyra.Lib
