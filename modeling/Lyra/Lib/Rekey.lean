import Lyra.Lib.KeyedTable

/-!
# Statements that change keys

`UPDATE … SET key = …` changes one row after the other, and a row whose new key another row holds
at that moment makes the statement fail.

* `updateEach_eq`: where the rows to change never get in each other's way, only the other rows
  decide, and the order of the rows does not matter;
* `keysDistinct_changed`: then the keys are distinct again.
-/

namespace Lyra.Lib

open KeyedTable (clash)

section Rekey

variable {α ι κ : Type} [DecidableEq ι] [DecidableEq κ] (pk : α → ι) (key : α → Option κ)
  (f : α → α)

/-- The rows with these primary keys changed. -/
def changed (is : List ι) (rows : List α) : List α :=
  rows.map fun x => if pk x ∈ is then f x else x

/-- Changing the rows of a list one by one; `none` is a violated constraint. -/
def updateEach : List α → List α → Option (List α)
  | [], rows => some rows
  | a :: todo, rows =>
    if rows.any fun x => decide (pk x ≠ pk a) && clash key (f a) x then none
    else updateEach todo (changed pk f [pk a] rows)

/-- A row that is to be changed is in nobody's way, neither before nor after its own change. -/
def Apart (todo rows : List α) (is : List ι) : Prop :=
  ∀ a ∈ todo, ∀ x ∈ rows, pk x ∈ is → pk x ≠ pk a →
    clash key (f a) (f x) = false ∧ clash key (f a) x = false

/-- No other row holds a new key. -/
def Free (todo rows : List α) (is : List ι) : Prop :=
  ∀ a ∈ todo, ∀ x ∈ rows, pk x ∉ is → clash key (f a) x = false

variable {pk key f}

theorem changed_nil (rows : List α) : changed pk f [] rows = rows := by
  simp [changed]

theorem changed_changed {is : List ι} {i : ι} {rows : List α} (hf : ∀ x, pk (f x) = pk x)
    (hi : i ∉ is) : changed pk f [i] (changed pk f is rows) = changed pk f (is ++ [i]) rows := by
  unfold changed
  rw [List.map_map]
  refine List.map_congr_left fun x _ => ?_
  simp only [Function.comp_apply, List.mem_singleton, List.mem_append]
  by_cases his : pk x ∈ is
  · have hne : pk x ≠ i := fun h => hi (h ▸ his)
    simp [his, hf, hne]
  · simp [his]

theorem updateEach_changed {rows : List α} (hf : ∀ x, pk (f x) = pk x) (todo : List α) :
    ∀ is : List ι, (is ++ todo.map pk).Nodup → Apart pk key f todo rows (is ++ todo.map pk) →
      (Free pk key f todo rows (is ++ todo.map pk) →
        updateEach pk key f todo (changed pk f is rows) =
          some (changed pk f (is ++ todo.map pk) rows)) ∧
      (¬Free pk key f todo rows (is ++ todo.map pk) →
        updateEach pk key f todo (changed pk f is rows) = none) := by
  induction todo with
  | nil =>
    intro is _ _
    rw [List.map_nil, List.append_nil]
    exact ⟨fun _ => rfl, fun h => absurd (fun a ha => (List.not_mem_nil ha).elim) h⟩
  | cons a todo ih =>
    intro is hnodup hapart
    have hsame : is ++ (a :: todo).map pk = (is ++ [pk a]) ++ todo.map pk := by simp
    have hi : pk a ∉ is := by
      intro h
      exact List.disjoint_of_nodup_append hnodup h List.mem_cons_self
    -- a row in the way of the first one is none of those to change
    have hway : ((changed pk f is rows).any fun x => decide (pk x ≠ pk a) && clash key (f a) x) =
        true ↔ ∃ x ∈ rows, pk x ∉ is ++ (a :: todo).map pk ∧ clash key (f a) x = true := by
      unfold changed
      rw [List.any_map, List.any_eq_true]
      refine exists_congr fun x => and_congr_right fun hx => ?_
      simp only [Function.comp_apply, Bool.and_eq_true, decide_eq_true_eq]
      constructor
      · rintro ⟨hne, hclash⟩
        have hpk : pk x ≠ pk a := by
          split at hne
          · rwa [hf] at hne
          · exact hne
        have hnot : pk x ∉ is ++ (a :: todo).map pk := by
          intro hmem
          have hparts := hapart a List.mem_cons_self x hx hmem hpk
          split at hclash
          · rw [hparts.1] at hclash
            cases hclash
          · rw [hparts.2] at hclash
            cases hclash
        refine ⟨hnot, ?_⟩
        rwa [if_neg fun h => hnot (List.mem_append_left _ h)] at hclash
      · rintro ⟨hnot, hclash⟩
        rw [if_neg fun h => hnot (List.mem_append_left _ h)]
        refine ⟨fun h => hnot ?_, hclash⟩
        rw [h]
        exact List.mem_append_right _ List.mem_cons_self
    have hrest := ih (is ++ [pk a]) (hsame ▸ hnodup) fun b hb => hsame ▸ hapart b
      (List.mem_cons_of_mem a hb)
    rw [← hsame] at hrest
    rw [updateEach]
    constructor
    · intro hfree
      have hno : ¬ ((changed pk f is rows).any
          fun x => decide (pk x ≠ pk a) && clash key (f a) x) = true := by
        rw [hway]
        rintro ⟨x, hx, hnot, hclash⟩
        rw [hfree a List.mem_cons_self x hx hnot] at hclash
        cases hclash
      rw [if_neg hno, changed_changed hf hi]
      exact hrest.1 fun b hb => hfree b (List.mem_cons_of_mem a hb)
    · intro hfree
      split
      · rfl
      · rename_i hno
        rw [changed_changed hf hi]
        refine hrest.2 fun hfree' => hfree fun b hb x hx hnot => ?_
        rcases List.mem_cons.mp hb with rfl | hb
        · rw [Bool.eq_false_iff]
          intro hclash
          exact hno (hway.mpr ⟨x, hx, hnot, hclash⟩)
        · exact hfree' b hb x hx hnot

/-- The statement goes through exactly where no other row holds a new key. -/
theorem updateEach_eq {rows todo : List α} (hf : ∀ x, pk (f x) = pk x)
    (hnodup : (todo.map pk).Nodup) (hapart : Apart pk key f todo rows (todo.map pk)) :
    (Free pk key f todo rows (todo.map pk) →
      updateEach pk key f todo rows = some (changed pk f (todo.map pk) rows)) ∧
    (¬Free pk key f todo rows (todo.map pk) → updateEach pk key f todo rows = none) := by
  have h := @updateEach_changed _ _ _ _ _ pk key f rows hf todo [] hnodup hapart
  rw [changed_nil] at h
  exact h

theorem map_pk_changed (hf : ∀ x, pk (f x) = pk x) (is : List ι) (rows : List α) :
    (changed pk f is rows).map pk = rows.map pk := by
  unfold changed
  rw [List.map_map]
  refine List.map_congr_left fun x _ => ?_
  simp only [Function.comp_apply]
  split
  · exact hf x
  · rfl

theorem distinct_of_clash {a x : α} (h : clash key a x = false) :
    (key a = none ∨ key a ≠ key x) ∧ (key x = none ∨ key x ≠ key a) := by
  unfold clash at h
  rcases Bool.and_eq_false_iff.mp h with hnone | hne
  · have ha : key a = none := Option.not_isSome_iff_eq_none.mp (hnone ▸ Bool.false_ne_true)
    refine ⟨.inl ha, ?_⟩
    rw [ha]
    exact (em (key x = none)).imp_right id
  · have hne := decide_eq_false_iff_not.mp hne
    exact ⟨.inr fun h => hne h.symm, .inr hne⟩

/-- The keys are distinct again. -/
theorem keysDistinct_changed {rows todo : List α} (hids : (rows.map pk).Nodup)
    (hdistinct : KeysDistinct key rows) (htodo : ∀ x ∈ rows, pk x ∈ todo.map pk → x ∈ todo)
    (hapart : Apart pk key f todo rows (todo.map pk))
    (hfree : Free pk key f todo rows (todo.map pk)) :
    KeysDistinct key (changed pk f (todo.map pk) rows) := by
  have hpairs : rows.Pairwise fun x y => pk x ≠ pk y := List.pairwise_map.mp hids
  unfold KeysDistinct changed
  refine List.pairwise_map.mpr ((hpairs.and hdistinct).imp_of_mem ?_)
  intro x y hx hy ⟨hne, hxy⟩
  by_cases hxi : pk x ∈ todo.map pk
  · rw [if_pos hxi]
    by_cases hyi : pk y ∈ todo.map pk
    · rw [if_pos hyi]
      exact (distinct_of_clash (hapart x (htodo x hx hxi) y hy hyi hne.symm).1).1
    · rw [if_neg hyi]
      exact (distinct_of_clash (hfree x (htodo x hx hxi) y hy hyi)).1
  · rw [if_neg hxi]
    by_cases hyi : pk y ∈ todo.map pk
    · rw [if_pos hyi]
      exact (distinct_of_clash (hfree y (htodo y hy hyi) x hx hxi)).2
    · rw [if_neg hyi]
      exact hxy

end Rekey

end Lyra.Lib
