import Mathlib.Data.List.Basic

/-!
# Missing items

`insertMissing` takes the items of a list into a state one by one: those whose key is not among
given keys, each as a new row.
-/

namespace Lyra.Lib

variable {α β : Type}

/-- A row for every item whose key is not among `keys`. -/
def insertMissing {κ : Type} [BEq κ] (keys : List κ) (key : α → κ) (row : List β → α → β)
    (rows : List β) (items : List α) : List β :=
  items.foldl (fun rows a => if keys.contains (key a) then rows else rows ++ [row rows a]) rows

section Missing

variable {κ : Type} [BEq κ] [LawfulBEq κ] {keys : List κ} {key : α → κ} {row : List β → α → β}
  {a : α} {items : List α}

theorem insertMissing_cons_mem (h : key a ∈ keys) (rows : List β) :
    insertMissing keys key row rows (a :: items) = insertMissing keys key row rows items := by
  unfold insertMissing
  rw [List.foldl_cons, if_pos (List.contains_iff_mem.mpr h)]

theorem insertMissing_cons_not_mem (h : key a ∉ keys) (rows : List β) :
    insertMissing keys key row rows (a :: items) =
      insertMissing keys key row (rows ++ [row rows a]) items := by
  unfold insertMissing
  rw [List.foldl_cons, if_neg fun hc => h (List.contains_iff_mem.mp hc)]

theorem insertMissing_of_all (h : ∀ a ∈ items, key a ∈ keys) (rows : List β) :
    insertMissing keys key row rows items = rows := by
  induction items with
  | nil => rfl
  | cons a items ih =>
    rw [insertMissing_cons_mem (h a List.mem_cons_self)]
    exact ih fun b hb => h b (List.mem_cons_of_mem _ hb)

theorem prefix_insertMissing (rows : List β) : rows <+: insertMissing keys key row rows items := by
  induction items generalizing rows with
  | nil => exact List.prefix_rfl
  | cons a items ih =>
    by_cases h : key a ∈ keys
    · rw [insertMissing_cons_mem h]
      exact ih rows
    · rw [insertMissing_cons_not_mem h]
      exact (List.prefix_append _ _).trans (ih _)

/-- An item that is missing has its row afterwards. -/
theorem exists_insertMissing (ha : a ∈ items) (h : key a ∉ keys) (rows : List β) :
    ∃ rs, row rs a ∈ insertMissing keys key row rows items := by
  induction items generalizing rows with
  | nil => cases ha
  | cons b items ih =>
    by_cases hb : key b ∈ keys
    · rw [insertMissing_cons_mem hb]
      rcases List.mem_cons.mp ha with rfl | ha
      · exact absurd hb h
      · exact ih ha rows
    · rw [insertMissing_cons_not_mem hb]
      rcases List.mem_cons.mp ha with rfl | ha
      · exact ⟨rows, (prefix_insertMissing _).subset
          (List.mem_append_right _ List.mem_cons_self)⟩
      · exact ih ha _

end Missing

end Lyra.Lib
