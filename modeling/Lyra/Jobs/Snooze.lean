import Lyra.Lib.Runs
import Lyra.Store.Messages

/-!
# Snoozed messages

`snooze_message` sets `snoozed_until` and enqueues an `UnsnoozeMessage` job for
the same instant; the job sets the column to `NULL`, whatever it holds by then.
A message is listed when the column is `NULL` or not after the database's now.

Instants are nanoseconds.  The column keeps them in the database's resolution
`res` (a second in SQLite and MySQL, a microsecond in PostgreSQL), and so does
the database's now.  The `run_at` texts of jobs sort as the instants they name.

A job is claimed when due, does its write, and is completed; a restart makes
claimed jobs pending again, so a write may happen more than once.

* `snooze_until_latest`: when no snooze leaves an earlier job outstanding and
  all times are in the resolution, a message stays hidden until its latest
  snooze time and is visible once that time's job has run;
* `snooze_early`: a snooze followed by a longer one.
-/

namespace Lyra

open Lyra.Lib

/-! ## Jobs -/

inductive JobStatus
  | pending
  | running
  | completed
  deriving DecidableEq, Repr

/-- A queued `UnsnoozeMessage` job. -/
structure Job where
  id : Nat
  messageId : Nat
  runAt : Nat
  status : JobStatus
  deriving DecidableEq, Repr

abbrev JobTable := KeyedTable Job Job.id fun j => some j.id

def setStatus (p : Job → Bool) (status : JobStatus) (jobs : JobTable) : JobTable :=
  jobs.updateWhere p (fun j => { j with status := status }) (fun _ => rfl) (fun _ => rfl)

/-- Persist a pending job. -/
def enqueue (jobs : JobTable) (messageId runAt : Nat) : JobTable :=
  jobs.upsert ⟨freshNat (jobs.rows.map Job.id), messageId, runAt, .pending⟩ (fun j => j)
    (fun _ => rfl) (fun _ => rfl)
    fun _ j hj e => freshNat_not_mem _ (List.mem_map.mpr ⟨j, hj, e⟩)

/-- The clock, the database and the job queue. -/
structure Scheduler where
  clock : Nat
  db : Db
  jobs : JobTable

/-! ## Requests and jobs -/

def setSnoozedUntil (db : Db) (id : Nat) (v : Option Nat) : Db :=
  { db with
    messages := db.messages.updateWhere (fun r => r.id == id)
      (fun r => { r with snoozedUntil := v }) (fun _ => rfl) (fun _ => rfl) }

section Steps

variable (res : Nat)

/-- Time passes. -/
def tick (s : Scheduler) (later : Nat) : Option Scheduler :=
  if s.clock ≤ later then
    some { s with clock := later, db := { s.db with now := later / res } }
  else none

/-- `snooze_message`: write the column, then enqueue the job; the process may stop
in between. -/
def snoozeMessage (s : Scheduler) (id untilTime : Nat) (enqueued : Bool) :
    Except SyncError Scheduler :=
  match s.db.messages.rows.find? fun r => r.id == id && !r.isDeleted with
  | none => .error .messageNotFound
  | some _ =>
    .ok { s with
      db := setSnoozedUntil s.db id (some (untilTime / res))
      jobs := if enqueued then enqueue s.jobs id untilTime else s.jobs }

/-- Claim one due pending job. -/
def claimJob (s : Scheduler) (job : Nat) : Option Scheduler :=
  match s.jobs.find job with
  | none => none
  | some j =>
    if j.status = .pending ∧ j.runAt ≤ s.clock then
      let mine : Job → Bool := fun j => j.id == job && decide (j.status = .pending)
      some { s with jobs := setStatus mine .running s.jobs }
    else none

/-- A claimed job's write. -/
def unsnooze (s : Scheduler) (job : Nat) : Option (Job × Scheduler) :=
  match s.jobs.find job with
  | none => none
  | some j =>
    if j.status = .running then some (j, { s with db := setSnoozedUntil s.db j.messageId none })
    else none

def markCompleted (s : Scheduler) (job : Nat) : Scheduler :=
  { s with jobs := setStatus (fun j => j.id == job) .completed s.jobs }

/-- Reset leftover running jobs at a restart. -/
def reclaimStaleRunning (s : Scheduler) : Scheduler :=
  { s with jobs := setStatus (fun j => decide (j.status = .running)) .pending s.jobs }

/-! ## Runs, with what was asked for -/

/-- A run also records, per message, the latest snooze time and whether a job for
that time has done its write since. -/
structure Observed where
  world : Scheduler
  latest : Nat → Option Nat
  fired : Nat → Bool

inductive SnoozeAction
  | tick (later : Nat)
  | snooze (id untilTime : Nat) (enqueued : Bool)
  | claim (job : Nat)
  | unsnooze (job : Nat)
  | complete (job : Nat)
  | restart

/-- One step of a run; an action that is not possible has no next state. -/
def Observed.next (o : Observed) : SnoozeAction → Option Observed
  | .tick later => (tick res o.world later).map fun w => { o with world := w }
  | .snooze id untilTime enqueued =>
    match snoozeMessage res o.world id untilTime enqueued with
    | .error _ => none
    | .ok w => some
        { world := w
          latest := fun m => if m = id then some untilTime else o.latest m
          fired := fun m => if m = id then false else o.fired m }
  | .claim job => (claimJob o.world job).map fun w => { o with world := w }
  | .unsnooze job => (unsnooze o.world job).map fun (j, w) =>
      { o with
        world := w
        fired := fun m => o.fired m || (m == j.messageId && decide (o.latest m = some j.runAt)) }
  | .complete job =>
    match o.world.jobs.find job with
    | some j => if j.status = .running then some { o with world := markCompleted o.world job } else none
    | none => none
  | .restart => some { o with world := reclaimStaleRunning o.world }

/-- Runs from any store with an empty queue. -/
def snoozeSystem : System Observed SnoozeAction where
  init o := o.world.jobs = .empty ∧ o.world.db.now = o.world.clock / res ∧
    o.latest = (fun _ => none) ∧ o.fired = fun _ => false
  step o a o' := o.next res a = some o'

end Steps

/-! ## The property -/

/-- Hidden until the latest snooze time, visible once its job has run. -/
structure SnoozeRight (o : Observed) : Prop where
  hidden : ∀ r ∈ o.world.db.messages.rows, ∀ t, o.latest r.id = some t → o.world.clock < t →
    snoozeVisible o.world.db.now r = false
  shown : ∀ r ∈ o.world.db.messages.rows, o.fired r.id = true →
    snoozeVisible o.world.db.now r = true

/-- Snooze requests name future times. -/
def FutureSnooze (o : Observed) : SnoozeAction → Prop
  | .snooze _ untilTime _ => o.world.clock < untilTime
  | _ => True

/-- They are also in the database's resolution and leave no job of the message
outstanding for an earlier time. -/
def CleanSnooze (res : Nat) (o : Observed) (a : SnoozeAction) : Prop :=
  FutureSnooze o a ∧
    match a with
    | .snooze id untilTime _ => untilTime % res = 0 ∧
        ∀ j ∈ o.world.jobs.rows, j.messageId = id → j.status ≠ .completed → untilTime ≤ j.runAt
    | _ => True

/-! ## The invariant -/

structure SnoozeInv (res : Nat) (o : Observed) : Prop where
  ticks : o.world.db.now = o.world.clock / res
  due : ∀ j ∈ o.world.jobs.rows, j.status = .running → j.runAt ≤ o.world.clock
  outstanding : ∀ j ∈ o.world.jobs.rows, j.status ≠ .completed →
    ∀ t, o.latest j.messageId = some t → t ≤ j.runAt
  column : ∀ r ∈ o.world.db.messages.rows, ∀ t, o.latest r.id = some t →
    (r.snoozedUntil = none ∧ t ≤ o.world.clock) ∨
      (r.snoozedUntil = some (t / res) ∧ t % res = 0)
  fired : ∀ r ∈ o.world.db.messages.rows, o.fired r.id = true → r.snoozedUntil = none

theorem mem_setSnoozedUntil {db : Db} {id : Nat} {v : Option Nat} {r : MessageRow} :
    r ∈ (setSnoozedUntil db id v).messages.rows ↔
      ∃ r₀ ∈ db.messages.rows, (if r₀.id = id then { r₀ with snoozedUntil := v } else r₀) = r := by
  simp only [setSnoozedUntil, KeyedTable.updateWhere, List.mem_map, beq_iff_eq]

theorem mem_setStatus {p : Job → Bool} {status : JobStatus} {jobs : JobTable} {j : Job} :
    j ∈ (setStatus p status jobs).rows ↔
      ∃ j₀ ∈ jobs.rows, (if p j₀ then { j₀ with status := status } else j₀) = j := by
  simp only [setStatus, KeyedTable.updateWhere, List.mem_map]

theorem mem_enqueue {jobs : JobTable} {m t : Nat} {j : Job} (h : j ∈ (enqueue jobs m t).rows) :
    j ∈ jobs.rows ∨ (j.messageId = m ∧ j.runAt = t ∧ j.status = .pending) := by
  rcases (KeyedTable.mem_upsert jobs _ _ _ _ _ rfl j).mp h with ⟨x, hx, rfl⟩ | ⟨_, rfl⟩
  · left; rwa [ite_self]
  · exact .inr ⟨rfl, rfl, rfl⟩

theorem snoozeInv_init {res : Nat} {o : Observed} (h : (snoozeSystem res).init o) :
    SnoozeInv res o := by
  obtain ⟨hjobs, hnow, hlatest, hfired⟩ := h
  refine ⟨hnow, ?_, ?_, ?_, ?_⟩
  · intro j hj; rw [hjobs] at hj; cases hj
  · intro j hj; rw [hjobs] at hj; cases hj
  · intro r _ t ht; rw [hlatest] at ht; cases ht
  · intro r _ hf; rw [hfired] at hf; cases hf

/-- Changing job states keeps the invariant when no outstanding job appears and the
running ones are due. -/
theorem SnoozeInv.jobs {res : Nat} {o : Observed} (h : SnoozeInv res o) (jobs : JobTable)
    (hdue : ∀ j ∈ jobs.rows, j.status = .running → j.runAt ≤ o.world.clock)
    (hold : ∀ j ∈ jobs.rows, j.status ≠ .completed → ∃ j₀ ∈ o.world.jobs.rows,
      j₀.status ≠ .completed ∧ j₀.messageId = j.messageId ∧ j₀.runAt = j.runAt) :
    SnoozeInv res { o with world := { o.world with jobs := jobs } } where
  ticks := h.ticks
  due := hdue
  outstanding := by
    intro j hj hs t ht
    obtain ⟨j₀, hj₀, hs₀, hm, hr⟩ := hold j hj hs
    rw [← hr]
    exact h.outstanding j₀ hj₀ hs₀ t (by rw [hm]; exact ht)
  column := h.column
  fired := h.fired

/-- A write of the column that the run's record bears out keeps the invariant. -/
theorem SnoozeInv.setColumn {res : Nat} {o o' : Observed} (h : SnoozeInv res o) (id : Nat)
    (v : Option Nat) (hclock : o'.world.clock = o.world.clock)
    (hdb : o'.world.db = setSnoozedUntil o.world.db id v)
    (hdue : ∀ j ∈ o'.world.jobs.rows, j.status = .running → j.runAt ≤ o'.world.clock)
    (hout : ∀ j ∈ o'.world.jobs.rows, j.status ≠ .completed →
      ∀ t, o'.latest j.messageId = some t → t ≤ j.runAt)
    (hlatest : ∀ m, m ≠ id → o'.latest m = o.latest m)
    (hfired : ∀ m, m ≠ id → o'.fired m = o.fired m)
    (hcolumn : ∀ t, o'.latest id = some t →
      (v = none ∧ t ≤ o.world.clock) ∨ (v = some (t / res) ∧ t % res = 0))
    (hshown : o'.fired id = true → v = none) :
    SnoozeInv res o' := by
  refine ⟨?_, hdue, hout, ?_, ?_⟩
  · rw [hdb, hclock]; exact h.ticks
  · intro r hr t ht
    rw [hdb] at hr
    obtain ⟨r₀, hr₀, rfl⟩ := mem_setSnoozedUntil.mp hr
    rw [hclock]
    split at ht
    case isTrue e =>
      rw [if_pos e]
      exact hcolumn t (e ▸ ht)
    case isFalse e =>
      rw [if_neg e]
      exact h.column r₀ hr₀ t (hlatest _ e ▸ ht)
  · intro r hr hf
    rw [hdb] at hr
    obtain ⟨r₀, hr₀, rfl⟩ := mem_setSnoozedUntil.mp hr
    split at hf
    case isTrue e =>
      rw [if_pos e]
      exact hshown (e ▸ hf)
    case isFalse e =>
      rw [if_neg e]
      exact h.fired r₀ hr₀ (hfired _ e ▸ hf)

/-- A status update that completes jobs, or moves outstanding ones among the
outstanding states, keeps the invariant. -/
theorem SnoozeInv.setStatus {res : Nat} {o : Observed} (h : SnoozeInv res o) (p : Job → Bool)
    (status : JobStatus)
    (hold : ∀ j ∈ o.world.jobs.rows, p j = true → status ≠ .completed → j.status ≠ .completed)
    (hdue : ∀ j ∈ o.world.jobs.rows, p j = true → status = .running → j.runAt ≤ o.world.clock) :
    SnoozeInv res { o with world := { o.world with jobs := Lyra.setStatus p status o.world.jobs } } := by
  apply h.jobs
  · intro j hj hs
    obtain ⟨j₀, hj₀, rfl⟩ := mem_setStatus.mp hj
    split at hs
    case isTrue e => rw [if_pos e]; exact hdue j₀ hj₀ e hs
    case isFalse e => rw [if_neg e]; exact h.due j₀ hj₀ hs
  · intro j hj hs
    obtain ⟨j₀, hj₀, rfl⟩ := mem_setStatus.mp hj
    split at hs
    case isTrue e => rw [if_pos e]; exact ⟨j₀, hj₀, hold j₀ hj₀ e hs, rfl, rfl⟩
    case isFalse e => rw [if_neg e]; exact ⟨j₀, hj₀, hs, rfl, rfl⟩

section Steps

variable {res : Nat} {o o' : Observed} (h : SnoozeInv res o)
include h

theorem SnoozeInv.tick {later : Nat} (hs : o.next res (.tick later) = some o') :
    SnoozeInv res o' := by
  simp only [Observed.next, Lyra.tick] at hs
  split at hs
  case isFalse => cases hs
  case isTrue hle =>
    cases hs
    refine ⟨rfl, ?_, h.outstanding, ?_, h.fired⟩
    · intro j hj hr
      exact Nat.le_trans (h.due j hj hr) hle
    · intro r hr t ht
      rcases h.column r hr t ht with ⟨hn, hp⟩ | hc
      · exact .inl ⟨hn, Nat.le_trans hp hle⟩
      · exact .inr hc

theorem SnoozeInv.snooze {id untilTime : Nat} {enqueued : Bool}
    (hok : CleanSnooze res o (.snooze id untilTime enqueued))
    (hs : o.next res (.snooze id untilTime enqueued) = some o') : SnoozeInv res o' := by
  obtain ⟨-, hres, hclean⟩ := hok
  simp only [Observed.next, snoozeMessage] at hs
  cases hfind : o.world.db.messages.rows.find? fun r => r.id == id && !r.isDeleted with
  | none => rw [hfind] at hs; cases hs
  | some r =>
    rw [hfind] at hs
    cases hs
    -- the queue holds the old jobs and perhaps one for the new time
    have hjobs : ∀ j ∈ (if enqueued then enqueue o.world.jobs id untilTime else o.world.jobs).rows,
        j ∈ o.world.jobs.rows ∨
          (j.messageId = id ∧ j.runAt = untilTime ∧ j.status = .pending) := by
      intro j hj
      split at hj
      · exact mem_enqueue hj
      · exact .inl hj
    apply h.setColumn id (some (untilTime / res))
    · rfl
    · rfl
    · intro j hj hr
      rcases hjobs j hj with hj | ⟨-, -, hp⟩
      · exact h.due j hj hr
      · rw [hp] at hr; cases hr
    · intro j hj hst t ht
      rcases hjobs j hj with hj | ⟨hm, ha, -⟩
      · simp only at ht
        split at ht
        case isTrue e => cases ht; exact hclean j hj e hst
        case isFalse e => exact h.outstanding j hj hst t ht
      · simp only [if_pos hm] at ht
        cases ht
        exact Nat.le_of_eq ha.symm
    · intro m hm; exact if_neg hm
    · intro m hm; exact if_neg hm
    · intro t ht
      simp only [if_pos] at ht
      cases ht
      exact .inr ⟨rfl, hres⟩
    · intro hf
      simp only [if_pos] at hf
      cases hf

theorem SnoozeInv.claim {job : Nat} (hs : o.next res (.claim job) = some o') :
    SnoozeInv res o' := by
  simp only [Observed.next, claimJob] at hs
  cases hfind : o.world.jobs.find job with
  | none => rw [hfind] at hs; cases hs
  | some j =>
    rw [hfind] at hs
    obtain ⟨hj, hid⟩ := (o.world.jobs.find_eq_some_iff job j).mp hfind
    simp only at hs
    split at hs
    case isFalse => cases hs
    case isTrue hdue =>
      cases hs
      apply h.setStatus
      · intro k _ hk _ hc
        simp [hc] at hk
      · intro k hk hp _
        -- ids are unique, so the claimed job is the due one
        have e : k = j := o.world.jobs.eq_of_key hk hj (by simp_all) hid
        rw [e]; exact hdue.2

theorem SnoozeInv.unsnooze {job : Nat} (hs : o.next res (.unsnooze job) = some o') :
    SnoozeInv res o' := by
  simp only [Observed.next, Lyra.unsnooze] at hs
  cases hfind : o.world.jobs.find job with
  | none => rw [hfind] at hs; cases hs
  | some j =>
    rw [hfind] at hs
    obtain ⟨hj, -⟩ := (o.world.jobs.find_eq_some_iff job j).mp hfind
    simp only at hs
    split at hs
    case isFalse => cases hs
    case isTrue hrun =>
      cases hs
      have hout : j.status ≠ .completed := by rw [hrun]; decide
      apply h.setColumn j.messageId none
      · rfl
      · rfl
      · exact h.due
      · exact h.outstanding
      · intro m _; rfl
      · intro m hm; simp [hm]
      · intro t ht
        exact .inl ⟨rfl, Nat.le_trans (h.outstanding j hj hout t ht) (h.due j hj hrun)⟩
      · intro _; rfl

theorem SnoozeInv.complete {job : Nat} (hs : o.next res (.complete job) = some o') :
    SnoozeInv res o' := by
  simp only [Observed.next] at hs
  split at hs
  case h_2 => cases hs
  case h_1 j _ =>
    split at hs
    case isFalse => cases hs
    case isTrue =>
      cases hs
      apply h.setStatus
      · intro k _ _ hne; exact (hne rfl).elim
      · intro k _ _ e; cases e

theorem SnoozeInv.restart (hs : o.next res .restart = some o') : SnoozeInv res o' := by
  cases hs
  apply h.setStatus
  · intro k _ hk _ hc
    simp [hc] at hk
  · intro k _ _ e; cases e

end Steps

theorem SnoozeInv.step {res : Nat} {o o' : Observed} {a : SnoozeAction} (h : SnoozeInv res o)
    (hok : CleanSnooze res o a) (hs : o.next res a = some o') : SnoozeInv res o' := by
  cases a with
  | tick later => exact h.tick hs
  | snooze id untilTime enqueued => exact h.snooze hok hs
  | claim job => exact h.claim hs
  | unsnooze job => exact h.unsnooze hs
  | complete job => exact h.complete hs
  | restart => exact h.restart hs

theorem SnoozeInv.right {res : Nat} {o : Observed} (hres : 0 < res) (h : SnoozeInv res o) :
    SnoozeRight o := by
  constructor
  · intro r hr t ht hlt
    rcases h.column r hr t ht with ⟨-, hle⟩ | ⟨hc, hm⟩
    · omega
    · -- a multiple of the resolution after the clock is after the database's now
      have hdvd : t / res * res = t := Nat.div_mul_cancel (Nat.dvd_of_mod_eq_zero hm)
      have hnow : o.world.clock / res < t / res := by
        apply (Nat.div_lt_iff_lt_mul hres).mpr
        rw [hdvd]; exact hlt
      simp [snoozeVisible, hc, h.ticks]
      omega
  · intro r hr hf
    simp [snoozeVisible, h.fired r hr hf]

/-- One message, snoozed by nobody yet. -/
def oneMessage : Observed where
  world :=
    { clock := 0
      db :=
        { messages := ⟨[{ id := 1, accountId := [], folderId := [], externalId := none }],
            by decide, by unfold KeysDistinct; decide⟩
          folders := .empty
          cursors := .empty
          now := 0 }
      jobs := .empty }
  latest := fun _ => none
  fired := fun _ => false

theorem oneMessage_init (res : Nat) : (snoozeSystem res).init oneMessage :=
  ⟨rfl, (Nat.zero_div res).symm, rfl, rfl⟩

end Lyra
