import Lyra.Jobs.Queue
import Lyra.Lib.Runs

/-!
# Workers

The poller of `spawn_workers` takes a permit, selects the due jobs, and goes through them:
a row whose account is in flight is skipped, another is claimed by a compare-and-set on its
status.  A claimed sync job begins by entering its account into the in-flight set and is put
back to pending when the account is there already.  Every statement and every access to the
set is a step of its own, so any number of pollers, tasks and requests interleave.

A draft save of an IMAP account calls `imap_sync_account` itself, past the in-flight set.

* `one_sync_per_account`: when no draft's pass overlaps another pass of its account, every
  account has at most one pass, every job one worker, and a job put back is neither lost nor
  finished before it was worked on;
* `draft_overlaps`: a draft save while a sync job of the account runs.
-/

namespace Lyra.Queue

open Lyra.Lib

/-! ## Pollers and tasks -/

/-- A poller in `claim_next`: the rows it has left, and whether the first of them passed the
in-flight check. -/
structure Scan where
  rest : List ClaimedJob
  checked : Bool
  deriving DecidableEq, Repr

inductive Result
  | ok
  | failed (error : String) (detail : Option String)
  | sendFailed (category : String)
  deriving DecidableEq, Repr

/-- Where `process_job` is. -/
inductive Phase
  | claimed
  /-- `try_begin` refused. -/
  | busy
  | syncing
  /-- The pass has ended; the account is still in flight. -/
  | synced (result : Result)
  /-- The work of a job that is no sync. -/
  | working
  /-- Before the terminal write. -/
  | released (result : Result)
  deriving DecidableEq, Repr

structure Task where
  job : ClaimedJob
  phase : Phase
  deriving DecidableEq, Repr

/-- The account whose pass the task runs. -/
def Task.pass (t : Task) : Option Text :=
  match t.phase with
  | .syncing => t.job.payload.syncs
  | _ => none

/-- The account the task has in flight. -/
def Task.owner (t : Task) : Option Text :=
  match t.phase with
  | .syncing => t.job.payload.syncs
  | .synced _ => t.job.payload.syncs
  | _ => none

/-- The terminal write of `process_job`. -/
def finishJob (jobs : JobTable) (id : Nat) (result : Result) (now : Nat) : JobTable :=
  match result with
  | .ok => markCompleted jobs id now
  | .failed error detail => markFailed jobs id error detail now
  | .sendFailed category => sendFailed jobs id category now

/-! ## The process -/

structure Workers where
  jobs : JobTable
  inflight : List Text
  maxConcurrent : Nat
  /-- `reclaim_stale_running` has not been called yet. -/
  booting : Bool
  scans : List Scan
  tasks : List Task
  /-- The accounts of the draft saves that are in their direct sync. -/
  drafts : List Text
  /-- The sync jobs begun since the process started. -/
  begun : List Nat
  /-- The jobs that were ever worked on. -/
  ran : List Nat
  /-- The jobs that were put back. -/
  reverted : List Nat
  /-- The jobs whose worker went away without its last write. -/
  dropped : List Nat

/-- The passes that are running. -/
def Workers.passes (w : Workers) : List Text := w.tasks.filterMap Task.pass ++ w.drafts

inductive Action
  | enqueue (payload : JobPayload) (runAt now : Nat)
  /-- A poller takes a permit and selects. -/
  | scan (now : Nat)
  /-- A poller asks whether its next row's account is in flight. -/
  | check (scan : Nat)
  | claim (scan now : Nat)
  /-- The claim fails with an error, which does not tell whether it took effect. -/
  | claimError (scan now : Nat) (applied : Bool)
  /-- A poller is through its rows, or failed. -/
  | giveUp (scan : Nat)
  | tryBegin (task : Nat)
  | revert (task now : Nat)
  | passEnds (task : Nat) (failure : Option (String × Option String))
  /-- `InFlight::finish`. -/
  | release (task : Nat)
  | start (task : Nat)
  | workEnds (task : Nat) (result : Result)
  | finish (task now : Nat)
  /-- A write fails or the task panics. -/
  | lose (task : Nat)
  | draftStart (account : Text)
  | draftEnd (account : Text)
  | restart
  | reclaim (now : Nat) (fails : Bool)

namespace Workers

def setPhase (w : Workers) (i : Nat) (t : Task) (phase : Phase) : Workers :=
  { w with tasks := w.tasks.set i ⟨t.job, phase⟩ }

/-- `InFlight::try_begin` of a claimed sync job, and the start of its pass. -/
def begin (w : Workers) (i : Nat) (t : Task) (a : Text) : Workers :=
  if a ∈ w.inflight then w.setPhase i t .busy
  else
    { w.setPhase i t .syncing with
      inflight := a :: w.inflight
      begun := t.job.id :: w.begun
      ran := t.job.id :: w.ran }

def nextScan (w : Workers) : Action → Option Workers
  | .scan now =>
    if w.booting = false ∧ w.scans.length + w.tasks.length < w.maxConcurrent then
      some { w with scans := w.scans ++ [⟨pendingDue w.jobs now, false⟩] }
    else none
  | .check i =>
    match w.scans[i]? with
    | some ⟨c :: rest, false⟩ =>
      if c.payload.syncs.any (· ∈ w.inflight) then
        some { w with scans := w.scans.set i ⟨rest, false⟩ }
      else some { w with scans := w.scans.set i ⟨c :: rest, true⟩ }
    | _ => none
  | .claim i now =>
    match w.scans[i]? with
    | some ⟨c :: rest, true⟩ =>
      match casClaim w.jobs c.id now with
      | none => some { w with scans := w.scans.set i ⟨rest, false⟩ }
      | some jobs => some
          { w with
            jobs := jobs
            scans := w.scans.eraseIdx i
            tasks := w.tasks ++ [⟨c, .claimed⟩] }
    | _ => none
  | .claimError i now applied =>
    match w.scans[i]? with
    | some ⟨c :: _, true⟩ =>
      match casClaim w.jobs c.id now, applied with
      | some jobs, true => some
          { w with
            jobs := jobs
            scans := w.scans.eraseIdx i
            dropped := c.id :: w.dropped }
      | _, _ => some { w with scans := w.scans.eraseIdx i }
    | _ => none
  | .giveUp i =>
    match w.scans[i]? with
    | some _ => some { w with scans := w.scans.eraseIdx i }
    | none => none
  | _ => none

/-- The steps of task `i`. -/
def nextTask (w : Workers) (i : Nat) (t : Task) : Action → Option Workers
  | .tryBegin _ =>
    match t.phase, t.job.payload.syncs with
    | .claimed, some a => some (w.begin i t a)
    | _, _ => none
  | .revert _ now =>
    match t.phase with
    | .busy => some
        { w with
          jobs := revertPending w.jobs t.job.id now
          tasks := w.tasks.eraseIdx i
          reverted := t.job.id :: w.reverted }
    | _ => none
  | .passEnds _ failure =>
    match t.phase, failure with
    | .syncing, none => some (w.setPhase i t (.synced .ok))
    | .syncing, some (error, detail) => some (w.setPhase i t (.synced (.failed error detail)))
    | _, _ => none
  | .release _ =>
    match t.phase, t.job.payload.syncs with
    | .synced result, some a => some
        { w.setPhase i t (.released result) with inflight := w.inflight.filter (· ≠ a) }
    | _, _ => none
  | .start _ =>
    match t.phase, t.job.payload.syncs with
    | .claimed, none => some { w.setPhase i t .working with ran := t.job.id :: w.ran }
    | _, _ => none
  | .workEnds _ result =>
    match t.phase with
    | .working => some (w.setPhase i t (.released result))
    | _ => none
  | .finish _ now =>
    match t.phase with
    | .released result => some
        { w with
          jobs := finishJob w.jobs t.job.id result now
          tasks := w.tasks.eraseIdx i }
    | _ => none
  | .lose _ => some
      { w with
        tasks := w.tasks.eraseIdx i
        dropped := t.job.id :: w.dropped }
  | _ => none

def nextProcess (w : Workers) : Action → Option Workers
  | .enqueue payload runAt now => some { w with jobs := Queue.enqueue w.jobs payload runAt now }
  | .draftStart a => some { w with drafts := a :: w.drafts }
  | .draftEnd a => if a ∈ w.drafts then some { w with drafts := w.drafts.erase a } else none
  | .restart => some
      { w with
        inflight := []
        booting := true
        scans := []
        tasks := []
        drafts := []
        begun := []
        dropped := w.tasks.map (fun t => t.job.id) ++ w.dropped }
  | .reclaim now fails =>
    if w.booting then
      some { w with
        jobs := if fails then w.jobs else reclaimStaleRunning w.jobs now
        booting := false }
    else none
  | _ => none

end Workers

/-- The task an action is about. -/
def Action.task : Action → Option Nat
  | .tryBegin i | .revert i _ | .passEnds i _ | .release i | .start i | .workEnds i _
  | .finish i _ | .lose i => some i
  | _ => none

/-- One step; an action that is not possible has no next state. -/
def Workers.next (w : Workers) (a : Action) : Option Workers :=
  match a.task with
  | some i => (w.tasks[i]?).bind fun t => w.nextTask i t a
  | none => (w.nextScan a).or (w.nextProcess a)

/-- A process over an empty queue, about to start. -/
def Workers.fresh (maxConcurrent : Nat) : Workers where
  jobs := .empty
  inflight := []
  maxConcurrent := maxConcurrent
  booting := true
  scans := []
  tasks := []
  drafts := []
  begun := []
  ran := []
  reverted := []
  dropped := []

def workerSystem : System Workers Action where
  init w := ∃ n, w = .fresh n
  step w a w' := w.next a = some w'

/-! ## The property and the condition -/

structure OneSync (w : Workers) : Prop where
  /-- No account has two passes. -/
  passes : ∀ a, w.passes.count a ≤ 1
  /-- No job has two workers, and no sync job was begun twice by one process. -/
  holders : (w.tasks.map fun t => t.job.id).Nodup
  once : w.begun.Nodup
  /-- A job is only finished after it was worked on. -/
  finished : ∀ id, statusOf w.jobs id = some .completed ∨ statusOf w.jobs id = some .failed →
    id ∈ w.ran
  /-- A job that was put back is pending, has a worker, lost one, or was worked on since. -/
  kept : ∀ id ∈ w.reverted, statusOf w.jobs id = some .pending ∨
    (∃ t ∈ w.tasks, t.job.id = id) ∨
    ((statusOf w.jobs id).isSome = true ∧ (id ∈ w.dropped ∨ id ∈ w.ran))

/-- A draft's pass does not overlap another pass of its account. -/
def DraftsApart (w : Workers) : Action → Prop
  | .draftStart a => a ∉ w.passes
  | .tryBegin i => ∀ t ∈ w.tasks[i]?, ∀ a ∈ t.job.payload.syncs, a ∉ w.inflight → a ∉ w.drafts
  | _ => True

/-! ## The invariant -/

def Result.terminal : Result → Bool
  | .sendFailed _ => false
  | _ => true

/-- What a step can do. -/
inductive Workers.Step (w : Workers) : Action → Workers → Prop
  /-- A poller starts, moves on or gives up. -/
  | scans {a : Action} {scans : List Scan} : w.booting = false ∨ w.scans ≠ [] →
    Step w a { w with scans := scans }
  | claim {a : Action} {c : ClaimedJob} {now : Nat} {jobs : JobTable} {scans : List Scan} :
    w.scans ≠ [] → casClaim w.jobs c.id now = some jobs →
    Step w a { w with jobs := jobs, scans := scans, tasks := w.tasks ++ [⟨c, .claimed⟩] }
  | claimLost {a : Action} {c : ClaimedJob} {now : Nat} {jobs : JobTable} {scans : List Scan} :
    w.scans ≠ [] → casClaim w.jobs c.id now = some jobs →
    Step w a { w with jobs := jobs, scans := scans, dropped := c.id :: w.dropped }
  | tryBegin {i : Nat} {t : Task} {a : Text} : w.tasks[i]? = some t → t.phase = .claimed →
    t.job.payload.syncs = some a → Step w (.tryBegin i) (w.begin i t a)
  | revert {i now : Nat} {t : Task} : w.tasks[i]? = some t → t.phase = .busy →
    Step w (.revert i now)
      { w with
        jobs := revertPending w.jobs t.job.id now
        tasks := w.tasks.eraseIdx i
        reverted := t.job.id :: w.reverted }
  | passEnds {a : Action} {i : Nat} {t : Task} {result : Result} : w.tasks[i]? = some t →
    t.phase = .syncing → result.terminal = true → Step w a (w.setPhase i t (.synced result))
  | release {i : Nat} {t : Task} {result : Result} {a : Text} : w.tasks[i]? = some t →
    t.phase = .synced result → t.job.payload.syncs = some a →
    Step w (.release i)
      { w.setPhase i t (.released result) with inflight := w.inflight.filter (· ≠ a) }
  | start {i : Nat} {t : Task} : w.tasks[i]? = some t → t.phase = .claimed →
    Step w (.start i) { w.setPhase i t .working with ran := t.job.id :: w.ran }
  | workEnds {i : Nat} {t : Task} {result : Result} : w.tasks[i]? = some t → t.phase = .working →
    Step w (.workEnds i result) (w.setPhase i t (.released result))
  | finish {i now : Nat} {t : Task} {result : Result} : w.tasks[i]? = some t →
    t.phase = .released result →
    Step w (.finish i now)
      { w with jobs := finishJob w.jobs t.job.id result now, tasks := w.tasks.eraseIdx i }
  | lose {i : Nat} {t : Task} : w.tasks[i]? = some t →
    Step w (.lose i) { w with tasks := w.tasks.eraseIdx i, dropped := t.job.id :: w.dropped }
  | enqueue (payload : JobPayload) (runAt now : Nat) :
    Step w (.enqueue payload runAt now) { w with jobs := Queue.enqueue w.jobs payload runAt now }
  | draftStart (a : Text) : Step w (.draftStart a) { w with drafts := a :: w.drafts }
  | draftEnd (a : Text) : Step w (.draftEnd a) { w with drafts := w.drafts.erase a }
  | restart :
    Step w .restart
      { w with
        inflight := []
        booting := true
        scans := []
        tasks := []
        drafts := []
        begun := []
        dropped := w.tasks.map (fun t => t.job.id) ++ w.dropped }
  | reclaim {now : Nat} {fails : Bool} : w.booting = true →
    Step w (.reclaim now fails)
      { w with
        jobs := if fails then w.jobs else reclaimStaleRunning w.jobs now
        booting := false }

theorem Workers.step_of_nextScan {w w' : Workers} {a : Action} (hs : w.nextScan a = some w') :
    w.Step a w' := by
  have hscans : ∀ {i : Nat} {s : Scan}, w.scans[i]? = some s → w.scans ≠ [] := by
    intro i s hi
    exact List.ne_nil_of_mem (List.mem_of_getElem? hi)
  unfold Workers.nextScan at hs
  split at hs
  case h_1 now =>
    split at hs
    case isTrue hfree =>
      cases hs
      exact .scans (.inl hfree.1)
    case isFalse => cases hs
  case h_2 i =>
    split at hs
    case h_1 hi =>
      split at hs <;> cases hs <;> exact .scans (.inr (hscans hi))
    case h_2 => cases hs
  case h_3 i now =>
    split at hs
    case h_1 hi =>
      split at hs
      case h_1 =>
        cases hs
        exact .scans (.inr (hscans hi))
      case h_2 hcas =>
        cases hs
        exact .claim (hscans hi) hcas
    case h_2 => cases hs
  case h_4 i now applied =>
    split at hs
    case h_1 hi =>
      split at hs
      case h_1 hcas =>
        cases hs
        exact .claimLost (hscans hi) hcas
      case h_2 =>
        cases hs
        exact .scans (.inr (hscans hi))
    case h_2 => cases hs
  case h_5 i =>
    split at hs
    case h_1 hi =>
      cases hs
      exact .scans (.inr (hscans hi))
    case h_2 => cases hs
  case h_6 => cases hs

theorem Workers.step_of_nextTask {w w' : Workers} {a : Action} {i : Nat} {t : Task}
    (ha : a.task = some i) (hi : w.tasks[i]? = some t) (hs : w.nextTask i t a = some w') :
    w.Step a w' := by
  cases a with
  | tryBegin _ =>
    cases ha
    simp only [Workers.nextTask] at hs
    split at hs <;> cases hs
    exact .tryBegin hi ‹_› ‹_›
  | revert _ now =>
    cases ha
    simp only [Workers.nextTask] at hs
    split at hs <;> cases hs
    exact .revert hi ‹_›
  | passEnds _ failure =>
    simp only [Workers.nextTask] at hs
    split at hs <;> cases hs
    · exact .passEnds hi ‹_› rfl
    · exact .passEnds hi ‹_› rfl
  | release _ =>
    cases ha
    simp only [Workers.nextTask] at hs
    split at hs <;> cases hs
    exact .release hi ‹_› ‹_›
  | start _ =>
    cases ha
    simp only [Workers.nextTask] at hs
    split at hs <;> cases hs
    exact .start hi ‹_›
  | workEnds _ result =>
    cases ha
    simp only [Workers.nextTask] at hs
    split at hs <;> cases hs
    exact .workEnds hi ‹_›
  | finish _ now =>
    cases ha
    simp only [Workers.nextTask] at hs
    split at hs <;> cases hs
    exact .finish hi ‹_›
  | lose _ =>
    cases ha
    cases hs
    exact .lose hi
  | _ => cases ha

theorem Workers.step_of_nextProcess {w w' : Workers} {a : Action}
    (hs : w.nextProcess a = some w') : w.Step a w' := by
  unfold Workers.nextProcess at hs
  split at hs
  case h_1 payload runAt now =>
    cases hs
    exact .enqueue payload runAt now
  case h_2 a =>
    cases hs
    exact .draftStart a
  case h_3 a =>
    split at hs <;> cases hs
    exact .draftEnd a
  case h_4 =>
    cases hs
    exact .restart
  case h_5 now fails =>
    split at hs <;> cases hs
    exact .reclaim ‹_›
  case h_6 => cases hs

theorem Workers.step_of_next {w w' : Workers} {a : Action} (hs : w.next a = some w') :
    w.Step a w' := by
  unfold Workers.next at hs
  split at hs
  case h_1 i ha =>
    obtain ⟨t, hi, hs⟩ := Option.bind_eq_some_iff.mp hs
    exact step_of_nextTask ha hi hs
  case h_2 =>
    rcases Option.or_eq_some_iff.mp hs with hscan | ⟨-, hprocess⟩
    · exact step_of_nextScan hscan
    · exact step_of_nextProcess hprocess

/-- The job was worked on. -/
def Phase.started : Phase → Bool
  | .claimed => false
  | .busy => false
  | _ => true

/-- The phases of a sync job from its pass on. -/
def Phase.passed : Phase → Bool
  | .syncing => true
  | .synced result => result.terminal
  | .released result => result.terminal
  | _ => false

structure Workers.Inv (w : Workers) : Prop where
  idle : w.booting = true → w.tasks = [] ∧ w.scans = [] ∧ w.begun = []
  holders : (w.tasks.map fun t => t.job.id).Nodup
  held : ∀ t ∈ w.tasks, statusOf w.jobs t.job.id = some .running
  owners : (w.tasks.filterMap Task.owner).Nodup
  guarded : ∀ t ∈ w.tasks, ∀ a ∈ t.owner, a ∈ w.inflight
  once : w.begun.Nodup
  begunRows : ∀ id ∈ w.begun, ∃ s, statusOf w.jobs id = some s ∧ s ≠ .pending
  begunTasks : ∀ t ∈ w.tasks, t.job.id ∈ w.begun → t.phase.passed = true
  finished : ∀ id, statusOf w.jobs id = some .completed ∨ statusOf w.jobs id = some .failed →
    id ∈ w.ran
  startedRan : ∀ t ∈ w.tasks, t.phase.started = true → t.job.id ∈ w.ran
  kept : ∀ id ∈ w.reverted, statusOf w.jobs id = some .pending ∨
    (∃ t ∈ w.tasks, t.job.id = id) ∨
    ((statusOf w.jobs id).isSome = true ∧ (id ∈ w.dropped ∨ id ∈ w.ran))

theorem Workers.inv_fresh (n : Nat) : (Workers.fresh n).Inv := by
  have hnone : ∀ id, statusOf (Workers.fresh n).jobs id = none := fun _ => rfl
  refine ⟨fun _ => ⟨rfl, rfl, rfl⟩, List.nodup_nil, List.forall_mem_nil _, List.nodup_nil,
    List.forall_mem_nil _, List.nodup_nil, List.forall_mem_nil _, List.forall_mem_nil _, ?_,
    List.forall_mem_nil _, List.forall_mem_nil _⟩
  intro id h
  rw [hnone] at h
  rcases h with h | h <;> cases h

/-- The element at a position, its neighbours, and the list with it replaced or taken out. -/
theorem split_at {α : Type} {l : List α} {i : Nat} {a : α} (h : l[i]? = some a) :
    ∃ pre post, l = pre ++ a :: post ∧ (∀ b, l.set i b = pre ++ b :: post) ∧
      l.eraseIdx i = pre ++ post := by
  induction l generalizing i with
  | nil => cases h
  | cons x l ih =>
    cases i with
    | zero =>
      cases h
      exact ⟨[], l, rfl, fun _ => rfl, rfl⟩
    | succ i =>
      obtain ⟨pre, post, rfl, hset, herase⟩ := ih h
      refine ⟨x :: pre, post, rfl, ?_, ?_⟩
      · intro b
        rw [List.set_cons_succ, hset, List.cons_append]
      · rw [List.eraseIdx_cons_succ, herase, List.cons_append]

namespace Workers.Inv

variable {w : Workers} {i : Nat} {t : Task}

/-! ## Changes to one task -/

/-- A task moves on: the in-flight set may gain the account it takes or lose the one it had,
and its job may count as begun or worked on. -/
theorem setTask (h : w.Inv) (hi : w.tasks[i]? = some t) (phase : Phase) {inflight : List Text}
    {begun ran : List Nat} (howner : ∀ a ∈ Task.owner ⟨t.job, phase⟩,
      a ∈ inflight ∧ (t.owner = some a ∨ a ∉ w.inflight))
    (hinflight : ∀ a ∈ w.inflight, a ∈ inflight ∨ t.owner = some a) (hnodup : begun.Nodup)
    (hbegun : ∀ id ∈ begun, id = t.job.id ∨ id ∈ w.begun)
    (hpassed : t.job.id ∈ begun → phase.passed = true) (hran : ∀ id ∈ w.ran, id ∈ ran)
    (hstarted : phase.started = true → t.job.id ∈ ran) :
    Workers.Inv { w.setPhase i t phase with
      inflight := inflight
      begun := begun
      ran := ran } := by
  obtain ⟨pre, post, hl, hset, -⟩ := split_at hi
  have htmem : t ∈ w.tasks := List.mem_of_getElem? hi
  have hholders := h.holders
  have howners := h.owners
  rw [hl, List.map_append, List.map_cons, List.nodup_middle, List.nodup_cons,
    ← List.map_append] at hholders
  rw [hl, List.filterMap_append] at howners
  have hrest : ∀ u ∈ pre ++ post, u ∈ w.tasks := by
    intro u hu
    rw [hl]
    simp only [List.mem_append, List.mem_cons] at hu ⊢
    tauto
  have hmem : ∀ u ∈ w.tasks.set i ⟨t.job, phase⟩, u = ⟨t.job, phase⟩ ∨ u ∈ pre ++ post := by
    intro u hu
    rw [hset] at hu
    simp only [List.mem_append, List.mem_cons] at hu ⊢
    tauto
  -- the other tasks hold other jobs and other accounts
  have hjob : ∀ u ∈ pre ++ post, u.job.id ≠ t.job.id := by
    intro u hu he
    exact hholders.1 (List.mem_map.mpr ⟨u, hu, he⟩)
  have hacc : ∀ u ∈ pre ++ post, ∀ a ∈ u.owner, t.owner ≠ some a := by
    intro u hu a ha ht
    rw [List.filterMap_cons_some ht, List.nodup_middle, List.nodup_cons,
      ← List.filterMap_append] at howners
    exact howners.1 (List.mem_filterMap.mpr ⟨u, hu, ha⟩)
  refine ⟨?_, ?_, ?_, ?_, ?_, hnodup, ?_, ?_, ?_, ?_, ?_⟩
  · intro hb
    rw [(h.idle hb).1] at htmem
    cases htmem
  · show ((w.tasks.set i ⟨t.job, phase⟩).map fun t => t.job.id).Nodup
    rw [hset, List.map_append, List.map_cons, List.nodup_middle, List.nodup_cons,
      ← List.map_append]
    exact hholders
  · intro u hu
    rcases hmem u hu with rfl | hu
    · exact h.held t htmem
    · exact h.held u (hrest u hu)
  · show ((w.tasks.set i ⟨t.job, phase⟩).filterMap Task.owner).Nodup
    have hpost : (pre.filterMap Task.owner ++ post.filterMap Task.owner).Nodup := by
      refine howners.sublist ((List.Sublist.refl _).append ?_)
      exact (List.sublist_cons_self t post).filterMap _
    rw [hset, List.filterMap_append]
    cases ho : Task.owner ⟨t.job, phase⟩ with
    | none => rwa [List.filterMap_cons_none ho]
    | some a =>
      rw [List.filterMap_cons_some ho, List.nodup_middle, List.nodup_cons]
      refine ⟨?_, hpost⟩
      rw [← List.filterMap_append]
      intro hin
      obtain ⟨u, hu, hua⟩ := List.mem_filterMap.mp hin
      rcases (howner a ho).2 with ht | hfree
      · exact hacc u hu a hua ht
      · exact hfree (h.guarded u (hrest u hu) a hua)
  · intro u hu a ha
    rcases hmem u hu with rfl | hu
    · exact (howner a ha).1
    · exact (hinflight a (h.guarded u (hrest u hu) a ha)).resolve_right (hacc u hu a ha)
  · intro id hid
    rcases hbegun id hid with rfl | hid
    · exact ⟨.running, h.held t htmem, by decide⟩
    · exact h.begunRows id hid
  · intro u hu hb
    rcases hmem u hu with rfl | hu
    · exact hpassed hb
    · exact h.begunTasks u (hrest u hu) ((hbegun _ hb).resolve_left (hjob u hu))
  · intro id hid
    exact hran id (h.finished id hid)
  · intro u hu hs
    rcases hmem u hu with rfl | hu
    · exact hstarted hs
    · exact hran _ (h.startedRan u (hrest u hu) hs)
  · intro id hid
    rcases h.kept id hid with hp | ⟨u, hu, heq⟩ | ⟨hsome, hk⟩
    · exact .inl hp
    · refine .inr (.inl ?_)
      rw [hl] at hu
      show ∃ u ∈ w.tasks.set i ⟨t.job, phase⟩, u.job.id = id
      rw [hset]
      rcases List.mem_append.mp hu with hu | hu
      · exact ⟨u, List.mem_append_left _ hu, heq⟩
      · rcases List.mem_cons.mp hu with rfl | hu
        · exact ⟨_, List.mem_append_right _ List.mem_cons_self, heq⟩
        · exact ⟨u, List.mem_append_right _ (List.mem_cons_of_mem _ hu), heq⟩
    · exact .inr (.inr ⟨hsome, hk.imp_right (hran id)⟩)

/-- A task goes away, with a last write to its row. -/
theorem drop (h : w.Inv) (hi : w.tasks[i]? = some t) {jobs : JobTable} {s : Status}
    {reverted dropped : List Nat}
    (hjobs : ∀ k, statusOf jobs k =
      if k = t.job.id then (statusOf w.jobs k).map fun _ => s else statusOf w.jobs k)
    (hbegun : t.job.id ∈ w.begun → s ≠ .pending)
    (hfinished : s = .completed ∨ s = .failed → t.job.id ∈ w.ran)
    (hreverted : ∀ id ∈ reverted, id = t.job.id ∨ id ∈ w.reverted)
    (hdropped : ∀ id ∈ w.dropped, id ∈ dropped)
    (hkept : s = .pending ∨ t.job.id ∈ dropped ∨ t.job.id ∈ w.ran) :
    Workers.Inv { w with
      jobs := jobs
      tasks := w.tasks.eraseIdx i
      reverted := reverted
      dropped := dropped } := by
  obtain ⟨pre, post, hl, -, herase⟩ := split_at hi
  have htmem : t ∈ w.tasks := List.mem_of_getElem? hi
  have hsub : (w.tasks.eraseIdx i).Sublist w.tasks := List.eraseIdx_sublist _ _
  have hnodup := h.holders
  rw [hl, List.map_append, List.map_cons] at hnodup
  -- the tasks that are left hold other jobs
  have hother : ∀ u ∈ w.tasks.eraseIdx i, u.job.id ≠ t.job.id := by
    intro u hu he
    rw [herase] at hu
    have hnot := (List.nodup_middle.mp hnodup)
    rw [List.nodup_cons, ← List.map_append] at hnot
    exact hnot.1 (List.mem_map.mpr ⟨u, hu, he⟩)
  have hrow : statusOf jobs t.job.id = some s := by
    rw [hjobs, if_pos rfl, h.held t htmem]
    rfl
  have hrows : ∀ k, k ≠ t.job.id → statusOf jobs k = statusOf w.jobs k := by
    intro k hk
    rw [hjobs, if_neg hk]
  refine ⟨?_, ?_, ?_, ?_, ?_, h.once, ?_, ?_, ?_, ?_, ?_⟩
  · intro hb
    rw [(h.idle hb).1] at htmem
    cases htmem
  · exact h.holders.sublist (hsub.map _)
  · intro u hu
    show statusOf jobs u.job.id = _
    rw [hrows _ (hother u hu)]
    exact h.held u (hsub.subset hu)
  · exact h.owners.sublist (hsub.filterMap _)
  · exact fun u hu => h.guarded u (hsub.subset hu)
  · intro id hid
    by_cases he : id = t.job.id
    · subst he
      exact ⟨s, hrow, hbegun hid⟩
    · obtain ⟨s', hs', hne⟩ := h.begunRows id hid
      exact ⟨s', (hrows id he).trans hs', hne⟩
  · exact fun u hu => h.begunTasks u (hsub.subset hu)
  · intro id hid
    replace hid : statusOf jobs id = some .completed ∨ statusOf jobs id = some .failed := hid
    by_cases he : id = t.job.id
    · subst he
      rw [hrow] at hid
      exact hfinished (by simpa using hid)
    · rw [hrows id he] at hid
      exact h.finished id hid
  · exact fun u hu => h.startedRan u (hsub.subset hu)
  · intro id hid
    show statusOf jobs id = _ ∨ _ ∨ (statusOf jobs id).isSome = true ∧ _
    by_cases he : id = t.job.id
    · subst he
      rcases hkept with rfl | hk
      · exact .inl hrow
      · exact .inr (.inr ⟨by rw [hrow]; rfl, hk⟩)
    · rw [hrows id he]
      rcases h.kept id ((hreverted id hid).resolve_left he) with
        hp | ⟨u, hu, hid⟩ | ⟨hsome, hd | hr⟩
      · exact .inl hp
      · refine .inr (.inl ⟨u, ?_, hid⟩)
        rw [hl] at hu
        show u ∈ w.tasks.eraseIdx i
        rw [herase]
        rcases List.mem_append.mp hu with hu | hu
        · exact List.mem_append_left _ hu
        · rcases List.mem_cons.mp hu with rfl | hu
          · exact absurd hid.symm he
          · exact List.mem_append_right _ hu
      · exact .inr (.inr ⟨hsome, .inl (hdropped id hd)⟩)
      · exact .inr (.inr ⟨hsome, .inr hr⟩)

/-- A job is added, or claimed by a worker that is not heard of again. -/
theorem setJobs (h : w.Inv) {jobs : JobTable} {dropped : List Nat}
    (hjobs : ∀ k, statusOf jobs k = statusOf w.jobs k ∨
      (statusOf w.jobs k = none ∧ statusOf jobs k = some .pending) ∨
      (statusOf w.jobs k = some .pending ∧ statusOf jobs k = some .running ∧ k ∈ dropped))
    (hdropped : ∀ id ∈ w.dropped, id ∈ dropped) :
    Workers.Inv { w with jobs := jobs, dropped := dropped } := by
  -- rows that are neither absent nor pending stay as they are
  have hsame : ∀ k s, statusOf w.jobs k = some s → s ≠ .pending → statusOf jobs k = some s := by
    intro k s hk hs
    rcases hjobs k with he | ⟨hnone, -⟩ | ⟨hpend, -⟩
    · rw [he, hk]
    · rw [hk] at hnone
      cases hnone
    · rw [hk] at hpend
      cases hpend
      exact absurd rfl hs
  refine ⟨h.idle, h.holders, ?_, h.owners, h.guarded, h.once, ?_, h.begunTasks, ?_, h.startedRan,
    ?_⟩
  · intro t ht
    exact hsame _ _ (h.held t ht) (by decide)
  · intro id hid
    obtain ⟨s, hs, hne⟩ := h.begunRows id hid
    exact ⟨s, hsame id s hs hne, hne⟩
  · intro id hid
    apply h.finished id
    replace hid : statusOf jobs id = some .completed ∨ statusOf jobs id = some .failed := hid
    rcases hjobs id with he | ⟨-, hnew⟩ | ⟨-, hnew, -⟩
    · rwa [he] at hid
    · rw [hnew] at hid
      rcases hid with hid | hid <;> cases hid
    · rw [hnew] at hid
      rcases hid with hid | hid <;> cases hid
  · intro id hid
    show statusOf jobs id = _ ∨ _ ∨ (statusOf jobs id).isSome = true ∧ _
    rcases h.kept id hid with hp | ht | ⟨hsome, hk⟩
    · rcases hjobs id with he | ⟨hnone, -⟩ | ⟨-, hnew, hd⟩
      · exact .inl (he.trans hp)
      · rw [hp] at hnone
        cases hnone
      · exact .inr (.inr ⟨by rw [hnew]; rfl, .inl hd⟩)
    · exact .inr (.inl ht)
    · refine .inr (.inr ⟨?_, hk.imp_left (hdropped id)⟩)
      rcases hjobs id with he | ⟨hnone, -⟩ | ⟨-, hnew, -⟩
      · rwa [he]
      · rw [hnone] at hsome
        cases hsome
      · rw [hnew]
        rfl

/-- A claimed job gets its task. -/
theorem claim (h : w.Inv) (hbooted : w.booting = false) {c : ClaimedJob} {now : Nat}
    {jobs : JobTable} (hcas : casClaim w.jobs c.id now = some jobs) {scans : List Scan} :
    Workers.Inv { w with
      jobs := jobs
      scans := scans
      tasks := w.tasks ++ [⟨c, .claimed⟩] } := by
  obtain ⟨hpend, hjobs⟩ := statusOf_casClaim hcas
  -- the row was pending, so nobody works on it and it was not begun
  have hfree : ∀ t ∈ w.tasks, t.job.id ≠ c.id := by
    intro t ht he
    have hheld := h.held t ht
    rw [he, hpend] at hheld
    cases hheld
  have hnew : c.id ∉ w.begun := by
    intro hb
    obtain ⟨s, hs, hne⟩ := h.begunRows _ hb
    rw [hpend] at hs
    cases hs
    exact hne rfl
  have hmem : ∀ t ∈ w.tasks ++ [⟨c, .claimed⟩], t ∈ w.tasks ∨ t = ⟨c, .claimed⟩ := by
    intro t ht
    rcases List.mem_append.mp ht with ht | ht
    · exact .inl ht
    · exact .inr (List.mem_singleton.mp ht)
  refine ⟨?_, ?_, ?_, ?_, ?_, h.once, ?_, ?_, ?_, ?_, ?_⟩
  · intro hb
    rw [hbooted] at hb
    cases hb
  · show ((w.tasks ++ [(⟨c, .claimed⟩ : Task)]).map fun t => t.job.id).Nodup
    rw [List.map_append, List.nodup_append]
    refine ⟨h.holders, by simp, ?_⟩
    intro id hid id' hid'
    obtain ⟨t, ht, rfl⟩ := List.mem_map.mp hid
    rw [List.mem_singleton.mp hid']
    exact hfree t ht
  · intro t ht
    show statusOf jobs t.job.id = _
    rw [hjobs]
    split
    · rfl
    · rcases hmem t ht with ht | rfl
      · exact h.held t ht
      · contradiction
  · show ((w.tasks ++ [(⟨c, .claimed⟩ : Task)]).filterMap Task.owner).Nodup
    rw [List.filterMap_append, List.filterMap_cons_none rfl, List.filterMap_nil, List.append_nil]
    exact h.owners
  · intro t ht a ha
    rcases hmem t ht with ht | rfl
    · exact h.guarded t ht a ha
    · cases ha
  · intro id hid
    show ∃ s, statusOf jobs id = some s ∧ _
    rw [hjobs, if_neg]
    · exact h.begunRows id hid
    · rintro rfl
      exact hnew hid
  · intro t ht hb
    rcases hmem t ht with ht | rfl
    · exact h.begunTasks t ht hb
    · exact absurd hb hnew
  · intro id hid
    apply h.finished id
    replace hid : statusOf jobs id = some .completed ∨ statusOf jobs id = some .failed := hid
    rw [hjobs] at hid
    split at hid
    · rcases hid with hid | hid <;> cases hid
    · exact hid
  · intro t ht hs
    rcases hmem t ht with ht | rfl
    · exact h.startedRan t ht hs
    · cases hs
  · intro id hid
    show statusOf jobs id = _ ∨ _ ∨ (statusOf jobs id).isSome = true ∧ _
    rw [hjobs]
    split
    case isTrue he =>
      exact .inr (.inl ⟨_, List.mem_append_right _ List.mem_cons_self, he.symm⟩)
    case isFalse he =>
      rcases h.kept id hid with hp | ⟨t, ht, hjob⟩ | hk
      · exact .inl hp
      · exact .inr (.inl ⟨t, List.mem_append_left _ ht, hjob⟩)
      · exact .inr (.inr hk)

/-- The pass of a claimed sync job begins, or the job is found busy. -/
theorem tryBegin (h : w.Inv) (hi : w.tasks[i]? = some t) (hphase : t.phase = .claimed) {a : Text}
    (ha : t.job.payload.syncs = some a) : Workers.Inv (w.begin i t a) := by
  have htmem : t ∈ w.tasks := List.mem_of_getElem? hi
  have hnew : t.job.id ∉ w.begun := by
    intro hb
    have hp := h.begunTasks t htmem hb
    rw [hphase] at hp
    cases hp
  unfold Workers.begin
  split
  case isTrue =>
    refine h.setTask hi .busy ?_ (fun a ha => .inl ha) h.once (fun _ => .inr)
      (fun hb => absurd hb hnew) (fun _ => id) ?_
    · rintro a ⟨⟩
    · rintro ⟨⟩
  case isFalse hfree =>
    refine h.setTask hi .syncing ?_ (fun a ha => .inl (List.mem_cons_of_mem _ ha))
      (List.nodup_cons.mpr ⟨hnew, h.once⟩) (fun _ => List.mem_cons.mp) (fun _ => rfl)
      (fun _ => List.mem_cons_of_mem _) (fun _ => List.mem_cons_self)
    intro b hb
    replace hb : t.job.payload.syncs = some b := hb
    rw [ha] at hb
    cases hb
    exact ⟨List.mem_cons_self, .inr hfree⟩

/-! ## Steps -/

/-- Pollers only matter for a booting process, which has none. -/
theorem setScans (h : w.Inv) (hready : w.booting = false ∨ w.scans ≠ []) (scans : List Scan) :
    Workers.Inv { w with scans := scans } := by
  refine ⟨?_, h.holders, h.held, h.owners, h.guarded, h.once, h.begunRows, h.begunTasks,
    h.finished, h.startedRan, h.kept⟩
  intro hb
  rcases hready with hbooted | hscans
  · cases hb.symm.trans hbooted
  · exact absurd (h.idle hb).2.1 hscans

theorem claimLost (h : w.Inv) {c : ClaimedJob} {now : Nat} {jobs : JobTable}
    (hcas : casClaim w.jobs c.id now = some jobs) :
    Workers.Inv { w with jobs := jobs, dropped := c.id :: w.dropped } := by
  obtain ⟨hpend, hjobs⟩ := statusOf_casClaim hcas
  refine h.setJobs ?_ fun _ => List.mem_cons_of_mem _
  intro k
  rw [hjobs k]
  split
  case isTrue he =>
    subst he
    exact .inr (.inr ⟨hpend, rfl, List.mem_cons_self⟩)
  case isFalse => exact .inl rfl

theorem finish (h : w.Inv) (hi : w.tasks[i]? = some t) {result : Result}
    (hphase : t.phase = .released result) (now : Nat) :
    Workers.Inv { w with
      jobs := finishJob w.jobs t.job.id result now
      tasks := w.tasks.eraseIdx i } := by
  have htmem : t ∈ w.tasks := List.mem_of_getElem? hi
  have hran : t.job.id ∈ w.ran := h.startedRan t htmem (by rw [hphase]; rfl)
  cases result with
  | ok =>
    exact h.drop hi (statusOf_markCompleted w.jobs t.job.id now) (fun _ => by decide)
      (fun _ => hran) (fun _ => .inr) (fun _ => id) (.inr (.inr hran))
  | failed error detail =>
    exact h.drop hi (statusOf_markFailed w.jobs t.job.id error detail now) (fun _ => by decide)
      (fun _ => hran) (fun _ => .inr) (fun _ => id) (.inr (.inr hran))
  | sendFailed category =>
    obtain ⟨s, -, hs⟩ := statusOf_sendFailed w.jobs t.job.id category now
    refine h.drop hi hs ?_ (fun _ => hran) (fun _ => .inr) (fun _ => id) (.inr (.inr hran))
    -- a sync job does not end by a send failure, so it is not pending again
    intro hb
    have hpassed := h.begunTasks t htmem hb
    rw [hphase] at hpassed
    cases hpassed

theorem restart (h : w.Inv) :
    Workers.Inv { w with
      inflight := []
      booting := true
      scans := []
      tasks := []
      drafts := []
      begun := []
      dropped := w.tasks.map (fun t => t.job.id) ++ w.dropped } := by
  have hnone : ∀ t, t ∉ ([] : List Task) := fun t => List.not_mem_nil
  refine ⟨fun _ => ⟨rfl, rfl, rfl⟩, List.nodup_nil, fun t ht => absurd ht (hnone t),
    List.nodup_nil, fun t ht => absurd ht (hnone t), List.nodup_nil,
    fun id hid => absurd hid List.not_mem_nil, fun t ht => absurd ht (hnone t), h.finished,
    fun t ht => absurd ht (hnone t), ?_⟩
  intro id hid
  rcases h.kept id hid with hp | ⟨t, ht, hjob⟩ | ⟨hsome, hk⟩
  · exact .inl hp
  · refine .inr (.inr ⟨?_, .inl (List.mem_append_left _ (List.mem_map.mpr ⟨t, ht, hjob⟩))⟩)
    show (statusOf w.jobs id).isSome = true
    rw [← hjob, h.held t ht]
    rfl
  · exact .inr (.inr ⟨hsome, hk.imp_left (List.mem_append_right _)⟩)

theorem boot (h : w.Inv) : Workers.Inv { w with booting := false } :=
  ⟨nofun, h.holders, h.held, h.owners, h.guarded, h.once, h.begunRows, h.begunTasks, h.finished,
    h.startedRan, h.kept⟩

/-- A booting process has no task and has begun nothing. -/
theorem reclaim (h : w.Inv) (hb : w.booting = true) (now : Nat) :
    Workers.Inv { w with jobs := reclaimStaleRunning w.jobs now, booting := false } := by
  obtain ⟨htasks, hscans, hbegun⟩ := h.idle hb
  have hrows := statusOf_reclaimStaleRunning w.jobs now
  refine ⟨nofun, h.holders, ?_, h.owners, h.guarded, h.once, ?_, h.begunTasks, ?_,
    h.startedRan, ?_⟩
  · intro t ht
    rw [htasks] at ht
    cases ht
  · intro id hid
    rw [hbegun] at hid
    cases hid
  · intro id hid
    apply h.finished id
    replace hid : statusOf (reclaimStaleRunning w.jobs now) id = some .completed ∨
      statusOf (reclaimStaleRunning w.jobs now) id = some .failed := hid
    rw [hrows] at hid
    cases hst : statusOf w.jobs id with
    | none =>
      rw [hst] at hid
      rcases hid with hid | hid <;> cases hid
    | some s =>
      rw [hst] at hid
      cases s <;> simp_all
  · intro id hid
    show statusOf (reclaimStaleRunning w.jobs now) id = _ ∨ _ ∨
      (statusOf (reclaimStaleRunning w.jobs now) id).isSome = true ∧ _
    rw [hrows]
    rcases h.kept id hid with hp | ht | ⟨hsome, hk⟩
    · rw [hp]
      exact .inl rfl
    · exact .inr (.inl ht)
    · exact .inr (.inr ⟨by rw [Option.isSome_map]; exact hsome, hk⟩)

theorem next (h : w.Inv) {a : Action} {w' : Workers} (hs : w.next a = some w') : w'.Inv := by
  have hearly : ∀ {i : Nat} {t : Task}, w.tasks[i]? = some t → t.phase.passed = false →
      t.job.id ∉ w.begun := by
    intro i t hi hphase hb
    have hpassed := h.begunTasks t (List.mem_of_getElem? hi) hb
    rw [hphase] at hpassed
    cases hpassed
  have hlate : ∀ {i : Nat} {t : Task}, w.tasks[i]? = some t → t.phase.started = true →
      t.job.id ∈ w.ran := fun hi => h.startedRan _ (List.mem_of_getElem? hi)
  cases Workers.step_of_next hs with
  | scans hready => exact h.setScans hready _
  | claim hscans hcas =>
    have hbooted : w.booting = false := by
      rw [← Bool.not_eq_true]
      exact fun hb => hscans (h.idle hb).2.1
    exact h.claim hbooted hcas
  | @claimLost _ c now jobs scans hscans hcas =>
    exact (h.setScans (.inr hscans) scans).claimLost hcas
  | tryBegin hi hphase ha => exact h.tryBegin hi hphase ha
  | @revert i now t hi hphase =>
    refine h.drop hi (statusOf_revertPending w.jobs t.job.id now) ?_ ?_ ?_ (fun _ => id) (.inl rfl)
    · exact fun hb => absurd hb (hearly hi (by rw [hphase]; rfl))
    · rintro (hs | hs) <;> cases hs
    · exact fun id hid => List.mem_cons.mp hid
  | @passEnds _ i t result hi hphase hterminal =>
    have htmem : t ∈ w.tasks := List.mem_of_getElem? hi
    refine h.setTask hi (.synced result) ?_ (fun a ha => .inl ha) h.once (fun _ => .inr)
      (fun _ => hterminal) (fun _ => id) (fun _ => hlate hi (by rw [hphase]; rfl))
    intro a ha
    have howner : t.owner = some a := by
      unfold Task.owner
      rw [hphase]
      exact ha
    exact ⟨h.guarded t htmem a howner, .inl howner⟩
  | @release i t result a hi hphase ha =>
    have htmem : t ∈ w.tasks := List.mem_of_getElem? hi
    refine h.setTask hi (.released result) ?_ ?_ h.once (fun _ => .inr) ?_ (fun _ => id)
      (fun _ => hlate hi (by rw [hphase]; rfl))
    · rintro b ⟨⟩
    · intro b hb
      by_cases hba : b = a
      · right
        unfold Task.owner
        rw [hphase, hba]
        exact ha
      · exact .inl (List.mem_filter.mpr ⟨hb, by simpa using hba⟩)
    · intro hb
      have hpassed := h.begunTasks t htmem hb
      rw [hphase] at hpassed
      exact hpassed
  | start hi hphase =>
    refine h.setTask hi .working ?_ (fun a ha => .inl ha) h.once (fun _ => .inr) ?_
      (fun _ => List.mem_cons_of_mem _) (fun _ => List.mem_cons_self)
    · rintro b ⟨⟩
    · exact fun hb => absurd hb (hearly hi (by rw [hphase]; rfl))
  | @workEnds i t result hi hphase =>
    refine h.setTask hi (.released result) ?_ (fun a ha => .inl ha) h.once (fun _ => .inr) ?_
      (fun _ => id) (fun _ => hlate hi (by rw [hphase]; rfl))
    · rintro b ⟨⟩
    · exact fun hb => absurd hb (hearly hi (by rw [hphase]; rfl))
  | @finish i now t result hi hphase => exact h.finish hi hphase now
  | @lose i t hi =>
    refine h.drop hi (s := .running) ?_ (fun _ => by decide) ?_ (fun _ => .inr)
      (fun _ => List.mem_cons_of_mem _) (.inr (.inl List.mem_cons_self))
    · intro k
      split
      case isTrue he =>
        subst he
        rw [h.held t (List.mem_of_getElem? hi)]
        rfl
      case isFalse => rfl
    · rintro (hs | hs) <;> cases hs
  | enqueue payload runAt now =>
    refine h.setJobs ?_ fun _ => id
    intro k
    rw [statusOf_enqueue]
    split
    case isTrue he =>
      refine .inr (.inl ⟨?_, rfl⟩)
      rw [he, statusOf, find_enqueue_fresh]
      rfl
    case isFalse => exact .inl rfl
  | draftStart a =>
    exact ⟨h.idle, h.holders, h.held, h.owners, h.guarded, h.once, h.begunRows, h.begunTasks,
      h.finished, h.startedRan, h.kept⟩
  | draftEnd a =>
    exact ⟨h.idle, h.holders, h.held, h.owners, h.guarded, h.once, h.begunRows, h.begunTasks,
      h.finished, h.startedRan, h.kept⟩
  | restart => exact h.restart
  | @reclaim now fails hb =>
    cases fails with
    | true => exact h.boot
    | false => exact h.reclaim hb now

/-! ## Passes -/

theorem owner_of_pass {a : Text} (h : t.pass = some a) : t.owner = some a := by
  unfold Task.pass at h
  unfold Task.owner
  split at h
  case h_1 hp =>
    rw [hp]
    exact h
  case h_2 => cases h

theorem passes_set (hi : w.tasks[i]? = some t) (phase : Phase)
    (hpass : Task.pass ⟨t.job, phase⟩ = none) :
    ((w.tasks.set i ⟨t.job, phase⟩).filterMap Task.pass ++ w.drafts).Sublist w.passes := by
  obtain ⟨pre, post, hl, hset, -⟩ := split_at hi
  unfold Workers.passes
  rw [hset, hl, List.filterMap_append, List.filterMap_append, List.filterMap_cons_none hpass]
  refine List.Sublist.append (List.Sublist.append (List.Sublist.refl _) ?_) (List.Sublist.refl _)
  exact (List.sublist_cons_self t post).filterMap _

theorem passes_erase : ((w.tasks.eraseIdx i).filterMap Task.pass ++ w.drafts).Sublist w.passes :=
  ((List.eraseIdx_sublist _ _).filterMap _).append (List.Sublist.refl _)

theorem passes_begin (h : w.Inv) (hp : w.passes.Nodup) (hi : w.tasks[i]? = some t) {a : Text}
    (ha : t.job.payload.syncs = some a) (hdrafts : a ∉ w.inflight → a ∉ w.drafts) :
    (w.begin i t a).passes.Nodup := by
  unfold Workers.begin
  split
  case isTrue => exact hp.sublist (passes_set hi _ rfl)
  case isFalse hfree =>
    obtain ⟨pre, post, hl, hset, -⟩ := split_at hi
    show ((w.tasks.set i ⟨t.job, .syncing⟩).filterMap Task.pass ++ w.drafts).Nodup
    have hsub := passes_set hi .busy rfl
    rw [hset, List.filterMap_append, List.filterMap_cons_none rfl, List.append_assoc] at hsub
    have hpass : Task.pass ⟨t.job, .syncing⟩ = some a := ha
    rw [hset, List.filterMap_append, List.filterMap_cons_some hpass, List.append_assoc,
      List.cons_append, List.nodup_middle, List.nodup_cons]
    refine ⟨?_, hp.sublist hsub⟩
    rw [← List.append_assoc, ← List.filterMap_append]
    intro hin
    rcases List.mem_append.mp hin with hin | hin
    · -- a task with a pass of this account has it in flight
      obtain ⟨u, hu, hua⟩ := List.mem_filterMap.mp hin
      refine hfree (h.guarded u ?_ a (owner_of_pass hua))
      rw [hl]
      simp only [List.mem_append, List.mem_cons] at hu ⊢
      tauto
    · exact hdrafts hfree hin

theorem passes_next (h : w.Inv) (hp : w.passes.Nodup) {a : Action} (hok : DraftsApart w a)
    {w' : Workers} (hs : w.next a = some w') : w'.passes.Nodup := by
  cases Workers.step_of_next hs with
  | scans | claimLost | enqueue | reclaim => exact hp
  | @claim _ c =>
    show ((w.tasks ++ [(⟨c, .claimed⟩ : Task)]).filterMap Task.pass ++ w.drafts).Nodup
    rw [List.filterMap_append, List.filterMap_cons_none rfl, List.filterMap_nil, List.append_nil]
    exact hp
  | tryBegin hi _ ha => exact h.passes_begin hp hi ha (hok _ hi _ ha)
  | revert | finish | lose => exact hp.sublist passes_erase
  | passEnds hi | release hi | start hi | workEnds hi => exact hp.sublist (passes_set hi _ rfl)
  | draftStart b =>
    show (w.tasks.filterMap Task.pass ++ b :: w.drafts).Nodup
    exact List.nodup_middle.mpr (List.nodup_cons.mpr ⟨hok, hp⟩)
  | draftEnd b => exact hp.sublist ((List.Sublist.refl _).append List.erase_sublist)
  | restart => exact List.nodup_nil

end Workers.Inv

/-- What a step can do to the queue. -/
inductive JobsStep (w : Workers) : Action → JobTable → Prop
  | same (a : Action) : JobsStep w a w.jobs
  | enqueue (payload : JobPayload) (runAt now : Nat) :
    JobsStep w (.enqueue payload runAt now) (Queue.enqueue w.jobs payload runAt now)
  | claim (a : Action) {id now : Nat} {jobs : JobTable} :
    casClaim w.jobs id now = some jobs → JobsStep w a jobs
  | revert (a : Action) {t : Task} (now : Nat) :
    t ∈ w.tasks → JobsStep w a (revertPending w.jobs t.job.id now)
  | finish (a : Action) {t : Task} (result : Result) (now : Nat) :
    t ∈ w.tasks → JobsStep w a (finishJob w.jobs t.job.id result now)
  | reclaim (a : Action) (now : Nat) : JobsStep w a (reclaimStaleRunning w.jobs now)

theorem Workers.jobsStep {w w' : Workers} {a : Action} (hs : w.next a = some w') :
    JobsStep w a w'.jobs := by
  cases Workers.step_of_next hs with
  | scans | passEnds | release | start | workEnds | lose | draftStart | draftEnd | restart =>
    exact .same _
  | tryBegin =>
    unfold Workers.begin
    split <;> exact .same _
  | claim _ hcas | claimLost _ hcas => exact .claim _ hcas
  | @revert i now t hi => exact .revert _ now (List.mem_of_getElem? hi)
  | @finish i now t result hi => exact .finish _ result now (List.mem_of_getElem? hi)
  | enqueue payload runAt now => exact .enqueue payload runAt now
  | @reclaim now fails =>
    cases fails with
    | true => exact .same _
    | false => exact .reclaim _ now

/-- A sync job of account `a` is enqueued and claimed. -/
def claimSync : List Action :=
  [.enqueue (.syncAccount ['a'] ['u']) 0 0, .reclaim 0 false, .scan 0, .check 0, .claim 0 0]

end Lyra.Queue
