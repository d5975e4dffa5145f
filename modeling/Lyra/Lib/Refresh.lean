/-!
# Values replaced while they are stale

A stored value gives way to the next one as long as it is stale.  Such an update of a record by a
list of records is idempotent, whatever is stale in each of its fields.

* `refresh_of_fresh`: a value that is not stale stays;
* `foldl_refresh_idem`: replaying a list of updates changes nothing more.
-/

namespace Lyra.Lib

variable {α : Type}

def refresh (stale : α → Bool) (current incoming : α) : α :=
  if stale current then incoming else current

variable {stale : α → Bool} {x : α}

theorem refresh_of_fresh (h : stale x = false) (a : α) : refresh stale x a = x := by
  unfold refresh
  rw [h, if_neg Bool.false_ne_true]

theorem refresh_of_stale (h : stale x = true) (a : α) : refresh stale x a = a := by
  unfold refresh
  rw [h, if_pos rfl]

/-- A value that arrives again changes nothing. -/
theorem refresh_self (stale : α → Bool) (x : α) : refresh stale x x = x := by
  unfold refresh
  split
  · rfl
  · rfl

theorem foldl_refresh_of_fresh (h : stale x = false) (items : List α) :
    items.foldl (refresh stale) x = x := by
  induction items with
  | nil => rfl
  | cons a items ih => rw [List.foldl_cons, refresh_of_fresh h, ih]

/-- A stale result was stale from the beginning, and so is every update. -/
theorem stale_of_foldl {items : List α} (h : stale (items.foldl (refresh stale) x) = true) :
    stale x = true ∧ ∀ a ∈ items, stale a = true := by
  induction items generalizing x with
  | nil => exact ⟨h, fun _ ha => nomatch ha⟩
  | cons a items ih =>
    rw [List.foldl_cons] at h
    cases hx : stale x with
    | false =>
      rw [refresh_of_fresh hx, foldl_refresh_of_fresh hx, hx] at h
      exact nomatch h
    | true =>
      rw [refresh_of_stale hx] at h
      obtain ⟨ha, hitems⟩ := ih h
      refine ⟨rfl, fun b hb => ?_⟩
      rcases List.mem_cons.mp hb with rfl | hb
      · exact ha
      · exact hitems b hb

theorem foldl_refresh_of_stale {items : List α} (hx : stale x = true)
    (h : ∀ a ∈ items, stale a = true) :
    items.foldl (refresh stale) x = items.getLast?.getD x := by
  induction items generalizing x with
  | nil => rfl
  | cons a items ih =>
    rw [List.foldl_cons, refresh_of_stale hx, ih (h a List.mem_cons_self)
      fun b hb => h b (List.mem_cons_of_mem _ hb), List.getLast?_cons]
    rfl

theorem foldl_refresh_idem (items : List α) (x : α) :
    items.foldl (refresh stale) (items.foldl (refresh stale) x) =
      items.foldl (refresh stale) x := by
  cases hresult : stale (items.foldl (refresh stale) x) with
  | false => exact foldl_refresh_of_fresh hresult items
  | true =>
    obtain ⟨hx, hitems⟩ := stale_of_foldl hresult
    rw [foldl_refresh_of_stale hresult hitems, foldl_refresh_of_stale hx hitems]
    cases items.getLast? with
    | none => rfl
    | some a => rfl

end Lyra.Lib
