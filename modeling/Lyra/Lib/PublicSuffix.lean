import Mathlib.Data.List.Basic

/-!
# Registrable domains

The algorithm of the public suffix list, for any list of rules.  Names and rules are lists of
labels from right to left, so that a rule matches a beginning of a name.

* `sameDomain_iff`: what two names of one registrable domain have in common.
-/

namespace Lyra.Lib

variable {α : Type} [DecidableEq α]

/-- A rule of the list; a label that is `none` matches every label.  An exception is to a rule with
a label less. -/
structure SuffixRule (α : Type) where
  labels : List (Option α)
  exception : Bool
  deep : exception = true → 2 ≤ labels.length

namespace SuffixRule

/-- The labels match the beginning of a name. -/
def matchLabels : List (Option α) → List α → Bool
  | [], _ => true
  | _ :: _, [] => false
  | label :: rule, x :: name => label.all (· == x) && matchLabels rule name

end SuffixRule

variable (rules : List (SuffixRule α)) (name : List α)

/-- How many labels of a name are its public suffix: an exception has one label less than it
matches, else the longest rule prevails; without a rule it is one label. -/
def suffixLength : Nat :=
  let matching := rules.filter fun rule => SuffixRule.matchLabels rule.labels name
  match matching.find? SuffixRule.exception with
  | some rule => rule.labels.length - 1
  | none => (matching.map fun rule => rule.labels.length).foldl Nat.max 1

/-- The public suffix and one label more. -/
def registrableDomain : Option (List α) :=
  if suffixLength rules name < name.length then some (name.take (suffixLength rules name + 1))
  else none

/-- The names have a registrable domain in common. -/
def SameDomain (a b : List α) : Prop :=
  ∃ domain, registrableDomain rules a = some domain ∧ registrableDomain rules b = some domain

variable {rules} {a b : List α}

theorem le_foldl_max (lengths : List Nat) (n : Nat) : n ≤ lengths.foldl Nat.max n := by
  induction lengths generalizing n with
  | nil => exact Nat.le_refl n
  | cons m lengths ih => exact Nat.le_trans (Nat.le_max_left n m) (ih (Nat.max n m))

theorem suffixLength_pos (rules : List (SuffixRule α)) (name : List α) :
    0 < suffixLength rules name := by
  let matching := rules.filter fun rule => SuffixRule.matchLabels rule.labels name
  show 0 < match matching.find? SuffixRule.exception with
    | some rule => rule.labels.length - 1
    | none => (matching.map fun rule => rule.labels.length).foldl Nat.max 1
  cases hrule : matching.find? SuffixRule.exception with
  | some rule =>
    have hdeep := rule.deep (List.find?_some hrule)
    show 0 < rule.labels.length - 1
    omega
  | none => exact le_foldl_max _ 1

theorem registrableDomain_eq_some {domain : List α} :
    registrableDomain rules a = some domain ↔
      suffixLength rules a < a.length ∧ domain = a.take (suffixLength rules a + 1) := by
  unfold registrableDomain
  split
  · rename_i h
    simp [h, eq_comm]
  · rename_i h
    simp [h]

/-- Names of one registrable domain have a public suffix of the same length and agree in one label
more. -/
theorem sameDomain_iff : SameDomain rules a b ↔
    suffixLength rules a = suffixLength rules b ∧ suffixLength rules a < a.length ∧
      suffixLength rules a < b.length ∧
      a.take (suffixLength rules a + 1) = b.take (suffixLength rules a + 1) := by
  unfold SameDomain
  simp only [registrableDomain_eq_some]
  constructor
  · rintro ⟨domain, ⟨ha, hda⟩, hb, hdb⟩
    have hlen := congrArg List.length (hda.symm.trans hdb)
    rw [List.length_take, List.length_take] at hlen
    have heq : suffixLength rules a = suffixLength rules b := by omega
    refine ⟨heq, ha, heq ▸ hb, ?_⟩
    rw [← hda, heq, ← hdb]
  · rintro ⟨heq, ha, hb, htake⟩
    exact ⟨_, ⟨ha, rfl⟩, heq ▸ hb, by rw [htake, heq]⟩

end Lyra.Lib
