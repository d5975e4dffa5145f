import Mathlib.Logic.Basic

/-!
# Runs of a labelled transition system

A system is a set of initial states and a relation between a state, an action
and a next state.  `Reachable ok` are the states of the runs whose every action
meets `ok` in the state it is taken in; `Reachable.invariant` is the rule that
proves something of all of them from one step.
-/

namespace Lyra.Lib

/-- Initial states and labelled steps. -/
structure System (σ α : Type) where
  init : σ → Prop
  step : σ → α → σ → Prop

namespace System

variable {σ α : Type} {S : System σ α} {ok : σ → α → Prop}

/-- The states of the runs whose steps all meet `ok`. -/
inductive Reachable (S : System σ α) (ok : σ → α → Prop) : σ → Prop
  | init {s : σ} : S.init s → Reachable S ok s
  | step {s t : σ} {a : α} : Reachable S ok s → ok s a → S.step s a t → Reachable S ok t

/-- What holds initially and is kept by every admitted step holds in every state
of such a run. -/
theorem Reachable.invariant {inv : σ → Prop} (hinit : ∀ s, S.init s → inv s)
    (hstep : ∀ s a t, inv s → ok s a → S.step s a t → inv t) {s : σ} (h : S.Reachable ok s) :
    inv s := by
  induction h with
  | init hs => exact hinit _ hs
  | step _ hok hst ih => exact hstep _ _ _ ih hok hst

theorem Reachable.weaken {ok' : σ → α → Prop} {s : σ} (h : S.Reachable ok s)
    (hok : ∀ s a, ok s a → ok' s a) : S.Reachable ok' s := by
  induction h with
  | init hs => exact .init hs
  | step _ hmet hst ih => exact .step ih (hok _ _ hmet) hst

theorem Reachable.take {s t : σ} (h : S.Reachable ok s) (a : α) (hok : ok s a)
    (hst : S.step s a t) : S.Reachable ok t :=
  .step h hok hst

/-- The state after a list of actions, for steps that are a function. -/
def after (next : σ → α → Option σ) (s : σ) : List α → Option σ
  | [] => some s
  | a :: l => (next s a).bind fun t => after next t l

theorem Reachable.after {next : σ → α → Option σ}
    (hnext : ∀ s a t, next s a = some t → S.step s a t) {s t : σ} {l : List α}
    (h : S.Reachable ok s) (hok : ∀ a ∈ l, ∀ s, ok s a) (hl : System.after next s l = some t) :
    S.Reachable ok t := by
  induction l generalizing s with
  | nil =>
    cases hl
    exact h
  | cons a l ih =>
    obtain ⟨u, hu, hl⟩ := Option.bind_eq_some_iff.mp hl
    exact ih (h.take a (hok a List.mem_cons_self s) (hnext s a u hu))
      (fun b hb => hok b (List.mem_cons_of_mem _ hb)) hl

end System

end Lyra.Lib
