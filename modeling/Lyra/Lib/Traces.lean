/-!
# Runs of a function

A system whose next state is a function of the state and an action.  `trace` lists the states of a
run, the first included.

* `forall_trace_iff`: if a step from a good state leads to a good one exactly where a condition is
  met, a run from a good state is good exactly if every step meets the condition.
-/

namespace Lyra.Lib

variable {σ α : Type}

def trace (next : σ → α → σ) (s : σ) : List α → List σ
  | [] => [s]
  | a :: l => s :: trace next (next s a) l

/-- Every action meets the condition in the state it is taken in. -/
def StepsMeet (next : σ → α → σ) (ok : σ → α → Prop) (s : σ) : List α → Prop
  | [] => True
  | a :: l => ok s a ∧ StepsMeet next ok (next s a) l

theorem StepsMeet.of_prefix {next : σ → α → σ} {ok : σ → α → Prop} {s : σ} {done l : List α}
    (h : StepsMeet next ok s l) (hdone : done <+: l) : StepsMeet next ok s done := by
  obtain ⟨rest, rfl⟩ := hdone
  induction done generalizing s with
  | nil => trivial
  | cons a done ih => exact ⟨h.1, ih h.2⟩

theorem forall_trace_iff {next : σ → α → σ} {inv : σ → Prop} {ok : σ → α → Prop}
    (hstep : ∀ s a, inv s → (inv (next s a) ↔ ok s a)) {s : σ} (hs : inv s) (l : List α) :
    (∀ t ∈ trace next s l, inv t) ↔ StepsMeet next ok s l := by
  induction l generalizing s with
  | nil =>
    refine ⟨fun _ => trivial, fun _ t ht => ?_⟩
    cases List.mem_singleton.mp ht
    exact hs
  | cons a l ih =>
    rw [trace, StepsMeet, List.forall_mem_cons]
    constructor
    · rintro ⟨-, hrest⟩
      have hnext : inv (next s a) := by
        cases l with
        | nil => exact hrest _ List.mem_cons_self
        | cons b l => exact hrest _ List.mem_cons_self
      exact ⟨(hstep s a hs).mp hnext, (ih hnext).mp hrest⟩
    · rintro ⟨hok, hrest⟩
      exact ⟨hs, (ih ((hstep s a hs).mpr hok)).mpr hrest⟩

end Lyra.Lib
