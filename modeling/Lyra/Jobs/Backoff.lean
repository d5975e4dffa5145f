import Mathlib.Algebra.GroupWithZero.Nat
import Lyra.Lib.Backoff
import Mathlib.Logic.Function.Basic

/-!
# The scheduler's backoff

The poll scheduler keeps a delay for each account, doubles it for a job that failed and drops it
for one that completed.

* `Backoff.step`, `Backoff.run`: the operations of a `Backoff`; `none` is a panic;
* `pollTick`: one pass over the accounts, for what the database answers;
* `delay_run`: the delay of an account is the capped growth over its own outcomes;
* `pollTicks_within`: no pass panics, and the delays stay within their bounds;
* `polite_iff`: the delays behave over every run exactly where the base is at most the cap.
-/

namespace Lyra.Scheduler

open Lyra.Lib

/-! ## Time -/

/-- `Duration::MAX` in nanoseconds. -/
def durationMax : Nat := (2 ^ 64 - 1) * 10 ^ 9 + 999999999

abbrev Duration := {nanos : Nat // nanos ≤ durationMax}

/-- `Duration::from_secs`. -/
def fromSecs (secs : UInt64) : Duration :=
  ⟨secs.toNat * 10 ^ 9, by have := secs.toNat_lt; simp only [durationMax]; omega⟩

def saturatingMul (d : Duration) (n : Nat) : Duration :=
  ⟨min (d.val * n) durationMax, min_le_right _ _⟩

/-- An `Instant` holds its seconds as `i64`. -/
abbrev Instant := {nanos : Nat // nanos < 2 ^ 63 * 10 ^ 9}

/-- A value of `Instant::now()`: the monotonic clock counts nanoseconds in 64 bits. -/
abbrev Reading := {nanos : Nat // nanos < 2 ^ 64}

def Reading.instant (now : Reading) : Instant :=
  ⟨now.val, by have := now.property; omega⟩

/-- `Instant + Duration`; `none` is an overflow. -/
def later (t : Instant) (d : Duration) : Option Instant :=
  if h : t.val + d.val < 2 ^ 63 * 10 ^ 9 then some ⟨t.val + d.val, h⟩ else none

/-! ## The backoff -/

def maxBackoffSecs : UInt64 := 3600

structure Backoff where
  delays : String → Option Duration
  nextDue : String → Option Instant
  appliedJob : String → Option String
  base : Duration
  max : Duration

namespace Backoff

def withBaseSecs (secs : UInt64) : Backoff where
  delays := fun _ => none
  nextDue := fun _ => none
  appliedJob := fun _ => none
  base := fromSecs (Max.max secs 1)
  max := fromSecs maxBackoffSecs

def delay (b : Backoff) (account : String) : Duration := (b.delays account).getD b.base

def fail (b : Backoff) (account : String) : Backoff :=
  { b with
    delays := Function.update b.delays account
      (some (Min.min (saturatingMul (b.delay account) 2) b.max)) }

def ok (b : Backoff) (account : String) : Backoff :=
  { b with delays := Function.update b.delays account none }

def markEnqueued (b : Backoff) (account : String) (now : Reading) : Option Backoff :=
  (later now.instant (b.delay account)).map fun due =>
    { b with nextDue := Function.update b.nextDue account (some due) }

def observeOutcome (b : Backoff) (account job status : String) (now : Reading) : Option Backoff :=
  if b.appliedJob account = some job then some b
  else
    let b := { b with appliedJob := Function.update b.appliedJob account (some job) }
    match status with
    -- the next poll is stretched by the new delay
    | "failed" => (b.fail account).markEnqueued account now
    | "completed" => some (b.ok account)
    | _ => some b

def isDue (b : Backoff) (account : String) (now : Reading) : Bool :=
  match b.nextDue account with
  | none => true
  | some due => decide (due.val ≤ now.val)

end Backoff

/-! ## The operations -/

inductive Event
  | failed (account : String)
  | succeeded (account : String)
  | observed (account job status : String) (now : Reading)
  | enqueued (account : String) (now : Reading)

def Event.account : Event → String
  | .failed a => a
  | .succeeded a => a
  | .observed a _ _ _ => a
  | .enqueued a _ => a

namespace Backoff

def step (b : Backoff) : Event → Option Backoff
  | .failed a => some (b.fail a)
  | .succeeded a => some (b.ok a)
  | .observed a job status now => b.observeOutcome a job status now
  | .enqueued a now => b.markEnqueued a now

def run (b : Backoff) : List Event → Option Backoff
  | [] => some b
  | e :: l => (b.step e).bind fun b => b.run l

/-- The failure or success an operation records, where `applied` is the last job applied. -/
def outcome (applied : Option String) : Event → Option Lib.Backoff.Outcome
  | .failed _ => some .failure
  | .succeeded _ => some .success
  | .observed _ job status _ =>
    if applied = some job then none
    else if status = "failed" then some .failure
    else if status = "completed" then some .success
    else none
  | .enqueued _ _ => none

end Backoff

/-! ## The scheduler's pass -/

/-- What the database and the clock answer for one active account. -/
structure AccountAnswers (ε : Type) where
  id : String
  latestTerminalSync : Except ε (Option (String × String))
  observedAt : Reading
  hasPendingOrRunningSync : Except ε Bool
  enqueue : Except ε Unit
  markedAt : Reading

/-- The loop of `poll_tick`, with the number of jobs put in the queue so far. -/
def pollAccounts {ε : Type} (now : Reading) :
    Backoff → Nat → List (AccountAnswers ε) → Option (Backoff × Except ε Nat)
  | b, n, [] => some (b, .ok n)
  | b, n, a :: rest =>
    match a.latestTerminalSync with
    | .error e => some (b, .error e)
    | .ok terminal =>
      (match terminal with
        | some (job, status) => b.observeOutcome a.id job status a.observedAt
        | none => some b).bind fun b =>
      if !b.isDue a.id now then pollAccounts now b n rest
      else
        match a.hasPendingOrRunningSync with
        | .error e => some (b, .error e)
        | .ok true => pollAccounts now b n rest
        | .ok false =>
          match a.enqueue with
          | .error e => some (b, .error e)
          | .ok () => (b.markEnqueued a.id a.markedAt).bind fun b => pollAccounts now b (n + 1) rest

def pollTick {ε : Type} (b : Backoff) (accounts : Except ε (List (AccountAnswers ε)))
    (now : Reading) : Option (Backoff × Except ε Nat) :=
  match accounts with
  | .error e => some (b, .error e)
  | .ok accounts => pollAccounts now b 0 accounts

/-! ## One account -/

def double (d : Duration) : Duration := saturatingMul d 2

theorem le_double (d : Duration) : d ≤ double d := by
  have hd := d.property
  show d.val ≤ min (d.val * 2) durationMax
  omega

/-- What a backoff knows of one account. -/
structure AccountView where
  delay : Duration
  applied : Option String

/-- One operation on the account, which nothing of the other accounts enters. -/
def AccountView.next (base cap : Duration) (v : AccountView) (e : Event) : AccountView where
  delay := (Backoff.outcome v.applied e).elim v.delay (Lib.Backoff.next double base cap v.delay)
  applied :=
    match e with
    | .observed _ job _ _ => some job
    | _ => v.applied

namespace Backoff

def view (b : Backoff) (a : String) : AccountView := ⟨b.delay a, b.appliedJob a⟩

theorem markEnqueued_eq_some {b b' : Backoff} {a : String} {now : Reading}
    (h : b.markEnqueued a now = some b') :
    b'.base = b.base ∧ b'.max = b.max ∧ ∀ c, b'.view c = b.view c := by
  obtain ⟨due, -, rfl⟩ := Option.map_eq_some_iff.mp h
  exact ⟨rfl, rfl, fun _ => rfl⟩

theorem delay_fail (b : Backoff) (a c : String) :
    (b.fail a).delay c = if a = c then min (double (b.delay a)) b.max else b.delay c := by
  by_cases h : a = c
  · subst h
    simp [fail, delay, double]
  · simp [fail, delay, h, Function.update_of_ne (Ne.symm h)]

theorem delay_ok (b : Backoff) (a c : String) :
    (b.ok a).delay c = if a = c then b.base else b.delay c := by
  by_cases h : a = c
  · subst h
    simp [ok, delay]
  · simp [ok, delay, h, Function.update_of_ne (Ne.symm h)]

theorem appliedJob_fail (b : Backoff) (a : String) : (b.fail a).appliedJob = b.appliedJob := rfl

theorem appliedJob_ok (b : Backoff) (a : String) : (b.ok a).appliedJob = b.appliedJob := rfl

/-- A job outcome seen for the first time. -/
theorem view_observeOutcome {b b' : Backoff} {a job status : String} {now : Reading}
    (h : b.observeOutcome a job status now = some b') :
    b'.base = b.base ∧ b'.max = b.max ∧ ∀ c, b'.view c =
      if a = c then (b.view c).next b.base b.max (.observed a job status now) else b.view c := by
  unfold observeOutcome at h
  split at h
  case isTrue hsame =>
    cases h
    refine ⟨rfl, rfl, fun c => ?_⟩
    split
    case isTrue heq =>
      subst heq
      simp [view, AccountView.next, outcome, hsame]
    case isFalse => rfl
  case isFalse hnew =>
    set applied : Backoff :=
      { b with appliedJob := Function.update b.appliedJob a (some job) } with happlied
    have hdelay : ∀ c, applied.delay c = b.delay c := fun _ => rfl
    have hjob : ∀ c, applied.appliedJob c = if a = c then some job else b.appliedJob c := by
      intro c
      by_cases hc : a = c
      · subst hc
        simp [happlied]
      · simp [happlied, hc, Function.update_of_ne (Ne.symm hc)]
    split at h
    · obtain ⟨hbase, hmax, hview⟩ := markEnqueued_eq_some h
      refine ⟨hbase, hmax, fun c => ?_⟩
      rw [hview]
      simp only [view, delay_fail, appliedJob_fail, hjob, hdelay, AccountView.next, outcome]
      by_cases hc : a = c
      · subst hc
        simp [hnew, Lib.Backoff.next, happlied]
      · simp [hc]
    · cases h
      refine ⟨rfl, rfl, fun c => ?_⟩
      simp only [view, delay_ok, appliedJob_ok, hjob, hdelay, AccountView.next, outcome]
      by_cases hc : a = c
      · subst hc
        simp [hnew, Lib.Backoff.next, happlied]
      · simp [hc]
    case h_3 hfailed hcompleted =>
      obtain rfl : applied = b' := Option.some.inj h
      have hfailed : ¬status = "failed" := hfailed
      have hcompleted : ¬status = "completed" := hcompleted
      refine ⟨rfl, rfl, fun c => ?_⟩
      simp only [view, hjob, hdelay, AccountView.next, outcome]
      by_cases hc : a = c
      · subst hc
        simp [hnew, hfailed, hcompleted]
      · simp [hc]

/-- What an operation does to each account. -/
theorem view_step {b b' : Backoff} {e : Event} (h : b.step e = some b') :
    b'.base = b.base ∧ b'.max = b.max ∧ ∀ a, b'.view a =
      if e.account = a then (b.view a).next b.base b.max e else b.view a := by
  cases e with
  | failed c =>
    cases h
    refine ⟨rfl, rfl, fun a => ?_⟩
    by_cases hc : c = a
    · subst hc
      simp [view, delay_fail, appliedJob_fail, Event.account, AccountView.next, outcome,
        Lib.Backoff.next]
    · simp [view, delay_fail, appliedJob_fail, Event.account, hc]
  | succeeded c =>
    cases h
    refine ⟨rfl, rfl, fun a => ?_⟩
    by_cases hc : c = a
    · subst hc
      simp [view, delay_ok, appliedJob_ok, Event.account, AccountView.next, outcome,
        Lib.Backoff.next]
    · simp [view, delay_ok, appliedJob_ok, Event.account, hc]
  | observed c job status now => exact view_observeOutcome h
  | enqueued c now =>
    obtain ⟨hbase, hmax, hview⟩ := markEnqueued_eq_some h
    refine ⟨hbase, hmax, fun a => ?_⟩
    rw [hview]
    simp [AccountView.next, outcome]

/-- What a run does to an account: its own operations, and nothing else. -/
theorem view_run {b b' : Backoff} {l : List Event} (h : b.run l = some b') :
    b'.base = b.base ∧ b'.max = b.max ∧ ∀ a, b'.view a =
      (l.filter fun e => e.account = a).foldl (AccountView.next b.base b.max) (b.view a) := by
  induction l generalizing b with
  | nil =>
    cases h
    exact ⟨rfl, rfl, fun _ => rfl⟩
  | cons e l ih =>
    obtain ⟨c, hstep, hrun⟩ := Option.bind_eq_some_iff.mp h
    obtain ⟨hbase, hmax, hview⟩ := view_step hstep
    obtain ⟨hbase', hmax', hview'⟩ := ih hrun
    refine ⟨hbase'.trans hbase, hmax'.trans hmax, fun a => ?_⟩
    rw [hview', hbase, hmax, hview]
    by_cases he : e.account = a <;> simp [he]

theorem run_append (b : Backoff) (l m : List Event) :
    b.run (l ++ m) = (b.run l).bind fun c => c.run m := by
  induction l generalizing b with
  | nil => rfl
  | cons e l ih =>
    simp only [List.cons_append, run, Option.bind_assoc]
    congr 1
    funext c
    exact ih c

end Backoff

/-! ## The delays over a run -/

namespace AccountView

/-- The outcomes the operations record, one after the other. -/
def outcomes (base cap : Duration) (v : AccountView) : List Event → List Lib.Backoff.Outcome
  | [] => []
  | e :: l => (Backoff.outcome v.applied e).toList ++ outcomes base cap (v.next base cap e) l

theorem delay_foldl (base cap : Duration) (v : AccountView) (l : List Event) :
    (l.foldl (next base cap) v).delay =
      (outcomes base cap v l).foldl (Lib.Backoff.next double base cap) v.delay := by
  induction l generalizing v with
  | nil => rfl
  | cons e l ih =>
    rw [List.foldl_cons, ih, outcomes, List.foldl_append]
    congr 1
    simp only [next]
    cases Backoff.outcome v.applied e <;> rfl

end AccountView

namespace Backoff

theorem view_withBaseSecs (secs : UInt64) (a : String) :
    (withBaseSecs secs).view a = ⟨(withBaseSecs secs).base, none⟩ := rfl

/-- The delay of an account after a run, from its own outcomes. -/
theorem delay_run {secs : UInt64} {b : Backoff} {l : List Event}
    (h : (withBaseSecs secs).run l = some b) (a : String) :
    ∃ o, b.delay a =
      Lib.Backoff.after double (withBaseSecs secs).base (withBaseSecs secs).max o := by
  obtain ⟨-, -, hview⟩ := view_run h
  have hdelay := congrArg AccountView.delay (hview a)
  rw [view_withBaseSecs, AccountView.delay_foldl] at hdelay
  exact ⟨_, hdelay⟩

theorem base_le_max_iff (secs : UInt64) :
    (withBaseSecs secs).base ≤ (withBaseSecs secs).max ↔ secs ≤ maxBackoffSecs := by
  have hmax : (Max.max secs 1).toNat = Max.max secs.toNat 1 := by
    show (if secs ≤ 1 then 1 else secs).toNat = _
    have hone : secs ≤ 1 ↔ secs.toNat ≤ 1 := UInt64.le_iff_toNat_le
    split
    case isTrue h => exact (max_eq_right (hone.mp h)).symm
    case isFalse h =>
      rw [hone] at h
      omega
  have hbase : (withBaseSecs secs).base.val = (Max.max secs 1).toNat * 10 ^ 9 := rfl
  have hcap : (withBaseSecs secs).max.val = 3600 * 10 ^ 9 := rfl
  have hle : secs ≤ maxBackoffSecs ↔ secs.toNat ≤ 3600 := UInt64.le_iff_toNat_le
  rw [hle, ← Subtype.coe_le_coe, hbase, hcap, hmax]
  omega

theorem delay_within {secs : UInt64} {b : Backoff} {l : List Event} (hsecs : secs ≤ maxBackoffSecs)
    (h : (withBaseSecs secs).run l = some b) (a : String) :
    (withBaseSecs secs).base ≤ b.delay a ∧ b.delay a ≤ (withBaseSecs secs).max := by
  obtain ⟨o, ho⟩ := delay_run h a
  rw [ho]
  exact Lib.Backoff.within le_double ((base_le_max_iff secs).mpr hsecs) o

/-! ## No step panics -/

theorem later_isSome (now : Reading) {d : Duration} (hd : d ≤ fromSecs maxBackoffSecs) :
    (later now.instant d).isSome := by
  have hnow := now.property
  have hd : d.val ≤ 3600 * 10 ^ 9 := hd
  have hlt : now.val + d.val < 2 ^ 63 * 10 ^ 9 := by omega
  have hfits : now.instant.val + d.val < 2 ^ 63 * 10 ^ 9 := hlt
  unfold later
  rw [dif_pos hfits]
  rfl

/-- An operation that keeps the delays within the cap can set the next due time. -/
theorem step_isSome {b : Backoff} (e : Event) (hmax : b.max = fromSecs maxBackoffSecs)
    (hdelay : ∀ a, b.delay a ≤ b.max) : (b.step e).isSome := by
  cases e with
  | failed a => rfl
  | succeeded a => rfl
  | enqueued a now =>
    simpa [step, markEnqueued] using later_isSome now (hmax ▸ hdelay a)
  | observed a job status now =>
    simp only [step, observeOutcome]
    split
    · rfl
    · split
      · simp only [markEnqueued, Option.isSome_map]
        refine later_isSome now ?_
        rw [delay_fail, if_pos rfl, ← hmax]
        exact min_le_right _ _
      · rfl
      · rfl

theorem run_isSome {secs : UInt64} (hsecs : secs ≤ maxBackoffSecs) (l : List Event) :
    ((withBaseSecs secs).run l).isSome := by
  induction l using List.reverseRecOn with
  | nil => rfl
  | append_singleton l e ih =>
    obtain ⟨b, hb⟩ := Option.isSome_iff_exists.mp ih
    have hmax : b.max = (withBaseSecs secs).max := (view_run hb).2.1
    have hstep : (b.step e).isSome :=
      step_isSome e hmax fun a => hmax ▸ (delay_within hsecs hb a).2
    obtain ⟨c, hc⟩ := Option.isSome_iff_exists.mp hstep
    simp [run_append, hb, run, hc]

/-- What operations make of the configured base. -/
def Reached (secs : UInt64) (b : Backoff) : Prop := ∃ l, (withBaseSecs secs).run l = some b

theorem Reached.step {secs : UInt64} {b : Backoff} (h : b.Reached secs)
    (hsecs : secs ≤ maxBackoffSecs) (e : Event) : ∃ b', b.step e = some b' ∧ b'.Reached secs := by
  obtain ⟨l, hl⟩ := h
  obtain ⟨b', hb'⟩ := Option.isSome_iff_exists.mp (run_isSome hsecs (l ++ [e]))
  refine ⟨b', ?_, l ++ [e], hb'⟩
  rw [run_append, hl] at hb'
  simpa [run] using hb'

end Backoff

/-! ## Passes -/

section Passes

variable {ε : Type} {secs : UInt64}

theorem pollAccounts_reached (hsecs : secs ≤ maxBackoffSecs) (now : Reading)
    (accounts : List (AccountAnswers ε)) (n : Nat) {b : Backoff} (hb : b.Reached secs) :
    ∃ b' r, pollAccounts now b n accounts = some (b', r) ∧ b'.Reached secs := by
  induction accounts generalizing b n with
  | nil => exact ⟨b, _, rfl, hb⟩
  | cons a rest ih =>
    unfold pollAccounts
    split
    · exact ⟨b, _, rfl, hb⟩
    · rename_i terminal _
      -- the first operation of the account, if it has one
      have hfirst : ∃ c, (match terminal with
          | some (job, status) => b.observeOutcome a.id job status a.observedAt
          | none => some b) = some c ∧ c.Reached secs := by
        cases terminal with
        | none => exact ⟨b, rfl, hb⟩
        | some seen => exact hb.step hsecs (.observed a.id seen.1 seen.2 a.observedAt)
      obtain ⟨c, hobserve, hc⟩ := hfirst
      rw [hobserve, Option.bind_some]
      split
      · exact ih n hc
      · split
        · exact ⟨c, _, rfl, hc⟩
        · exact ih n hc
        · split
          · exact ⟨c, _, rfl, hc⟩
          · obtain ⟨d, hmark, hd⟩ := hc.step hsecs (.enqueued a.id a.markedAt)
            obtain ⟨b', r, hrest, hb'⟩ := ih (n + 1) hd
            exact ⟨b', r, Option.bind_eq_some_iff.mpr ⟨d, hmark, hrest⟩, hb'⟩

/-- A pass of the scheduler is a run of the backoff's operations, and does not panic. -/
theorem pollTick_run (hsecs : secs ≤ maxBackoffSecs)
    (accounts : Except ε (List (AccountAnswers ε))) (now : Reading) {b : Backoff}
    (hb : b.Reached secs) : ∃ b' r, pollTick b accounts now = some (b', r) ∧ b'.Reached secs := by
  cases accounts with
  | error e => exact ⟨b, _, rfl, hb⟩
  | ok accounts => exact pollAccounts_reached hsecs now accounts 0 hb

/-- Passes one after the other, each with what the database and the clock answer. -/
def pollTicks : Backoff → List (Except ε (List (AccountAnswers ε)) × Reading) → Option Backoff
  | b, [] => some b
  | b, (accounts, now) :: ticks => (pollTick b accounts now).bind fun out => pollTicks out.1 ticks

/-- Whatever is answered, no pass panics, and every delay stays between the base and the cap. -/
theorem pollTicks_within (hsecs : secs ≤ maxBackoffSecs)
    (ticks : List (Except ε (List (AccountAnswers ε)) × Reading)) :
    ∃ b, pollTicks (Backoff.withBaseSecs secs) ticks = some b ∧ ∀ a,
      (Backoff.withBaseSecs secs).base ≤ b.delay a ∧
        b.delay a ≤ (Backoff.withBaseSecs secs).max := by
  have hruns : ∀ b : Backoff, b.Reached secs →
      ∃ b', pollTicks b ticks = some b' ∧ b'.Reached secs := by
    induction ticks with
    | nil => exact fun b hb => ⟨b, rfl, hb⟩
    | cons tick ticks ih =>
      intro b hb
      obtain ⟨c, r, hpoll, hc⟩ := pollTick_run hsecs tick.1 tick.2 hb
      obtain ⟨b', hrest, hb'⟩ := ih c hc
      exact ⟨b', Option.bind_eq_some_iff.mpr ⟨(c, r), hpoll, hrest⟩, hb'⟩
  obtain ⟨b, hrun, l, hl⟩ := hruns _ ⟨[], rfl⟩
  exact ⟨b, hrun, Backoff.delay_within hsecs hl⟩

end Passes

theorem pollTicks_within_failed :
    let start : Reading := ⟨0, by decide⟩
    let account : AccountAnswers Unit :=
      ⟨"work", .ok (some ("job", "failed")), start, .ok false, .ok (), start⟩
    ∃ b, pollTicks (Backoff.withBaseSecs 60) [(.ok [account], start)] = some b ∧ ∀ a,
      (Backoff.withBaseSecs 60).base ≤ b.delay a ∧
        b.delay a ≤ (Backoff.withBaseSecs 60).max :=
  pollTicks_within (by decide) _

/-! ## The delays over every run -/

/-- What is asked of the delays of a backoff with this configured base. -/
structure Polite (secs : UInt64) : Prop where
  /-- No step overflows. -/
  runs : ∀ l, ((Backoff.withBaseSecs secs).run l).isSome
  within : ∀ l b, (Backoff.withBaseSecs secs).run l = some b → ∀ a,
    (Backoff.withBaseSecs secs).base ≤ b.delay a ∧
      b.delay a ≤ max (Backoff.withBaseSecs secs).base (Backoff.withBaseSecs secs).max
  failure : ∀ l b e b', (Backoff.withBaseSecs secs).run l = some b → b.step e = some b' →
    Backoff.outcome (b.appliedJob e.account) e = some .failure →
    b.delay e.account ≤ b'.delay e.account
  success : ∀ l b e b', (Backoff.withBaseSecs secs).run l = some b → b.step e = some b' →
    Backoff.outcome (b.appliedJob e.account) e = some .success →
    b'.delay e.account = (Backoff.withBaseSecs secs).base
  /-- The delay of an account is a matter of its own operations. -/
  own : ∀ l l' b b', (Backoff.withBaseSecs secs).run l = some b →
    (Backoff.withBaseSecs secs).run l' = some b' → ∀ a,
    (l.filter fun e => e.account = a) = (l'.filter fun e => e.account = a) →
    b.delay a = b'.delay a

theorem Backoff.delay_step {b b' : Backoff} {e : Event} (h : b.step e = some b') :
    b'.delay e.account = (Backoff.outcome (b.appliedJob e.account) e).elim (b.delay e.account)
      (Lib.Backoff.next double b.base b.max (b.delay e.account)) := by
  have hview := congrArg AccountView.delay ((view_step h).2.2 e.account)
  rw [if_pos rfl] at hview
  exact hview

/-- The delays behave over every run exactly where the base is at most the cap. -/
theorem polite_iff (secs : UInt64) : Polite secs ↔ secs ≤ maxBackoffSecs := by
  constructor
  · intro h
    -- one failure makes the delay the cap at most
    have hbelow := (h.within [.failed ""] _ rfl "").1
    refine (Backoff.base_le_max_iff secs).mp (hbelow.trans ?_)
    rw [Backoff.delay_fail, if_pos rfl]
    exact min_le_right _ _
  · intro hsecs
    refine ⟨Backoff.run_isSome hsecs, ?_, ?_, ?_, ?_⟩
    · intro l b hrun a
      obtain ⟨hbase, hcap⟩ := Backoff.delay_within hsecs hrun a
      exact ⟨hbase, hcap.trans (le_max_right _ _)⟩
    · intro l b e b' hrun hstep houtcome
      have hcap := (Backoff.delay_within hsecs hrun e.account).2
      rw [← (Backoff.view_run hrun).2.1] at hcap
      rw [Backoff.delay_step hstep, houtcome]
      show b.delay e.account ≤ Lib.Backoff.next double b.base b.max (b.delay e.account) .failure
      exact Lib.Backoff.le_next_failure le_double hcap
    · intro l b e b' hrun hstep houtcome
      rw [Backoff.delay_step hstep, houtcome]
      exact (Backoff.view_run hrun).1
    · intro l l' b b' hrun hrun' a hown
      have hview := (Backoff.view_run hrun).2.2 a
      rw [hown, ← (Backoff.view_run hrun').2.2 a] at hview
      exact congrArg AccountView.delay hview

/-- With a poll interval of two hours a failing account is polled every hour. -/
theorem not_polite_twoHours :
    ∃ b, (Backoff.withBaseSecs 7200).step (.failed "work") = some b ∧
      (b.delay "work").val < (Backoff.withBaseSecs 7200).base.val ∧ ¬Polite 7200 := by
  refine ⟨_, rfl, by decide, fun h => ?_⟩
  have hbelow : (Backoff.withBaseSecs 7200).base.val ≤
      (((Backoff.withBaseSecs 7200).fail "work").delay "work").val :=
    (h.within [.failed "work"] _ rfl "work").1
  exact absurd hbelow (by decide)

end Lyra.Scheduler
