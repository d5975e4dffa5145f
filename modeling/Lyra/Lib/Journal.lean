import Mathlib.Data.List.Basic

/-!
# Journals

The updates of a state in the order they took effect, newest first.  What an update shows, it
shows until another one overrides it.
-/

namespace Lyra.Lib

/-- A state and its updates. -/
structure Journal (σ υ : Type) where
  start : σ
  apply : υ → σ → σ
  /-- The update can be seen in the state. -/
  shows : υ → σ → Prop
  /-- The second update may no longer be seen after the first. -/
  overrides : υ → υ → Prop
  keeps : ∀ u v s, ¬ overrides v u → shows u s → shows u (apply v s)

namespace Journal

variable {σ υ : Type} (J : Journal σ υ)

/-- The state after a journal. -/
def state : List υ → σ
  | [] => J.start
  | u :: log => J.apply u (state log)

variable {J}

theorem shows_append {u : υ} {log : List υ} (hu : J.shows u (J.state log)) {later : List υ}
    (h : ∀ v ∈ later, ¬ J.overrides v u) : J.shows u (J.state (later ++ log)) := by
  induction later with
  | nil => exact hu
  | cons v later ih =>
    have hkept := ih fun x hx => h x (List.mem_cons_of_mem v hx)
    exact J.keeps u v _ (h v List.mem_cons_self) hkept

/-- Every update can be seen until it is overridden, if it can be seen at once. -/
theorem shows_of_mem {log later earlier : List υ} {u : υ} (hlog : log = later ++ u :: earlier)
    (hu : J.shows u (J.apply u (J.state earlier))) (h : ∀ v ∈ later, ¬ J.overrides v u) :
    J.shows u (J.state log) := by
  have hshown : J.shows u (J.state (u :: earlier)) := hu
  rw [hlog]
  exact shows_append hshown h

end Journal

end Lyra.Lib
