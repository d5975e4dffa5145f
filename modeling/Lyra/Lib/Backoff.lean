import Mathlib.Data.List.Induction
import Mathlib.Order.Lattice
import Mathlib.Order.MinMax

/-!
# Growing delays with a cap

A delay that grows on a failure up to a cap and goes back to its base on a success, over any
linear order of delays.

* `after`: the delay after a list of outcomes;
* `within`: where the base is within the cap, every delay is between the base and the cap;
* `le_next_failure`: there a failure does not shorten the delay.
-/

namespace Lyra.Lib.Backoff

inductive Outcome
  | failure
  | success
deriving DecidableEq

variable {α : Type} [LinearOrder α] (grow : α → α) (base cap : α)

/-- The delay after one more outcome. -/
def next (d : α) : Outcome → α
  | .failure => min (grow d) cap
  | .success => base

/-- The delay after all outcomes, the first one first. -/
def after (l : List Outcome) : α := l.foldl (next grow base cap) base

@[simp] theorem after_nil : after grow base cap [] = base := rfl

@[simp] theorem after_concat (l : List Outcome) (o : Outcome) :
    after grow base cap (l ++ [o]) = next grow base cap (after grow base cap l) o := by
  simp [after]

variable {grow base cap}

/-- One step keeps a delay between the base and the cap. -/
theorem next_within (hgrow : ∀ d, d ≤ grow d) (hcap : base ≤ cap) {d : α} (hd : base ≤ d) (o : Outcome) :
    base ≤ next grow base cap d o ∧ next grow base cap d o ≤ cap := by
  cases o with
  | failure => exact ⟨le_min (hd.trans (hgrow d)) hcap, min_le_right _ _⟩
  | success => exact ⟨le_rfl, hcap⟩

theorem within (hgrow : ∀ d, d ≤ grow d) (hcap : base ≤ cap) (l : List Outcome) :
    base ≤ after grow base cap l ∧ after grow base cap l ≤ cap := by
  induction l using List.reverseRecOn with
  | nil => exact ⟨le_rfl, hcap⟩
  | append_singleton l o ih =>
    rw [after_concat]
    exact next_within hgrow hcap ih.1 o

/-- Within the cap a failure does not shorten a delay. -/
theorem le_next_failure (hgrow : ∀ d, d ≤ grow d) {d : α} (hd : d ≤ cap) :
    d ≤ next grow base cap d .failure :=
  le_min (hgrow d) hd

end Lyra.Lib.Backoff
