import Mathlib.Data.List.Basic
import Mathlib.Data.List.Count
import Mathlib.Data.Nat.Count
import Mathlib.Order.Monotone.Basic
import Mathlib.Data.Finset.Card

/-!
# Bounded walks

A loop walks from a state to its next one for a number of rounds and may show something at each.

* `mem_walk`, `pairwise_walk`: what it shows, where the states are enumerated;
* `count_enumerated`: how many numbers of an enumerated set are below its `j`th.
-/

namespace Lyra.Lib

variable {σ β : Type}

def walk (next : σ → Option σ) (shown : σ → Option β) : Nat → σ → List β
  | 0, _ => []
  | rounds + 1, x =>
    (shown x).toList ++ match next x with
      | none => []
      | some y => walk next shown rounds y

section Enumerated

variable {next : σ → Option σ} {shown : σ → Option β} {f : Nat → σ} {goes : Nat → Prop}
  [DecidablePred goes]

/-- The walk over the states of an enumeration, from one of them on. -/
theorem walk_from (hnext : ∀ j, next (f j) = if goes j then some (f (j + 1)) else none)
    (hstays : ∀ i j, i ≤ j → goes j → goes i) (rounds j : Nat) :
    walk next shown rounds (f j) =
      ((List.range' j rounds).filter fun i => i = j ∨ goes (i - 1)).filterMap (shown ∘ f) := by
  induction rounds generalizing j with
  | zero => rfl
  | succ rounds ih =>
    have htail : (match next (f j) with | none => [] | some y => walk next shown rounds y) =
        ((List.range' (j + 1) rounds).filter fun i => i = j ∨ goes (i - 1)).filterMap
          (shown ∘ f) := by
      rw [hnext]
      by_cases hgo : goes j
      · rw [if_pos hgo]
        show walk next shown rounds (f (j + 1)) = _
        rw [ih]
        congr 1
        apply List.filter_congr
        intro i hi
        have hge := (List.mem_range'_1.mp hi).1
        rw [decide_eq_decide]
        constructor
        · rintro (rfl | h)
          · exact Or.inr hgo
          · exact Or.inr h
        · rintro (rfl | h)
          · omega
          · exact Or.inr h
      · rw [if_neg hgo]
        have hnone : (List.range' (j + 1) rounds).filter (fun i => i = j ∨ goes (i - 1)) = [] := by
          rw [List.filter_eq_nil_iff]
          intro i hi h
          have hge := (List.mem_range'_1.mp hi).1
          obtain rfl | h := of_decide_eq_true h
          · omega
          · exact hgo (hstays j (i - 1) (by omega) h)
        rw [hnone]
        rfl
    rw [walk, htail, List.range'_succ, List.filter_cons_of_pos (by simp), List.filterMap_cons]
    show (shown (f j)).toList ++ _ = _
    rw [Function.comp_apply]
    cases shown (f j) with
    | none => rfl
    | some y => rfl

theorem walk_eq (hnext : ∀ j, next (f j) = if goes j then some (f (j + 1)) else none)
    (hstays : ∀ i j, i ≤ j → goes j → goes i) (rounds : Nat) :
    walk next shown rounds (f 0) =
      ((List.range rounds).filter fun i => i = 0 ∨ goes (i - 1)).filterMap (shown ∘ f) := by
  rw [walk_from hnext hstays, List.range_eq_range']

theorem mem_walk (hnext : ∀ j, next (f j) = if goes j then some (f (j + 1)) else none)
    (hstays : ∀ i j, i ≤ j → goes j → goes i) {rounds : Nat} {y : β} :
    y ∈ walk next shown rounds (f 0) ↔
      ∃ j < rounds, (j = 0 ∨ goes (j - 1)) ∧ shown (f j) = some y := by
  rw [walk_eq hnext hstays, List.mem_filterMap]
  simp only [List.mem_filter, List.mem_range, decide_eq_true_eq, Function.comp_apply, and_assoc]

theorem pairwise_walk (hnext : ∀ j, next (f j) = if goes j then some (f (j + 1)) else none)
    (hstays : ∀ i j, i ≤ j → goes j → goes i) {r : β → β → Prop}
    (hr : ∀ i j, i < j → ∀ x y, shown (f i) = some x → shown (f j) = some y → r x y)
    (rounds : Nat) : (walk next shown rounds (f 0)).Pairwise r := by
  rw [walk_eq hnext hstays, List.pairwise_filterMap]
  apply List.Pairwise.filter
  apply List.pairwise_lt_range.imp
  intro i j hlt x hx y hy
  exact hr i j hlt x y hx hy

end Enumerated

/-- Below the `j`th member of an enumerated set there are `j` members. -/
theorem count_enumerated {p : Nat → Prop} [DecidablePred p] {f : Nat → Nat} (hf : StrictMono f)
    {j : Nat} (hp : ∀ k < f j, p k ↔ ∃ i, f i = k) : Nat.count p (f j) = j := by
  have himage : (Finset.range (f j)).filter p = (Finset.range j).image f := by
    ext k
    simp only [Finset.mem_filter, Finset.mem_range, Finset.mem_image]
    constructor
    · rintro ⟨hlt, hk⟩
      obtain ⟨i, rfl⟩ := (hp k hlt).mp hk
      exact ⟨i, hf.lt_iff_lt.mp hlt, rfl⟩
    · rintro ⟨i, hi, rfl⟩
      exact ⟨hf hi, (hp _ (hf hi)).mpr ⟨i, rfl⟩⟩
  rw [Nat.count_eq_card_filter_range, himage, Finset.card_image_of_injective _ hf.injective,
    Finset.card_range]

end Lyra.Lib
