import Lyra.Jobs.Workers
import Mathlib.Logic.Relation
import Mathlib.Tactic.IntervalCases

/-!
# Retries

`handle_send_message` calls the send plugin, and on an error reads the attempts of its row and
reschedules the job or fails it: the call, the read and the write are steps of their own,
between which every other worker acts.

* `WorkerStep.row`: what a step of the workers does to the row of one job;
* `Sends.next_workers`: with the separate read, the workers still do only steps of
  `workerSystem`;
* `sends_bounded`: in every run, with restarts, no job is executed that is not running, a
  finished job stays as it is, attempts only grow and stay within the maximum, one process
  calls the plugin at most that often for a job, and a retry is due after its delay.
-/

namespace Lyra.Queue

open Lyra.Lib

/-! ## The delay -/

/-- A value of type `i64`; `none` is an overflow. -/
def inI64 (n : Int) : Option Int :=
  if -2 ^ 63 ≤ n ∧ n < 2 ^ 63 then some n else none

/-- `1i64 << shift`, where the amount must be a bit position. -/
def oneShl (shift : Int) : Option Int :=
  if 0 ≤ shift ∧ shift < 64 then some (Int.bmod (2 ^ shift.toNat) (2 ^ 64)) else none

/-- `30i64 * (1i64 << attempts.min(4))`. -/
def retryDelay (attempts : Int) : Option Int :=
  (oneShl (min attempts 4)).bind fun factor => inI64 (30 * factor)

/-- No attempt count makes the delay overflow. -/
theorem retryDelay_eq (attempts : Nat) :
    retryDelay attempts = some ((30 * 2 ^ min attempts 4 : Nat) : Int) := by
  have hle : min attempts 4 ≤ 4 := Nat.min_le_right _ _
  have hshift : min (attempts : Int) 4 = ((min attempts 4 : Nat) : Int) := by omega
  unfold retryDelay
  rw [hshift]
  generalize min attempts 4 = shift at hle
  interval_cases shift <;> rfl

/-! ## The handler of a send job -/

def attemptsOf (jobs : JobTable) (id : Nat) : Nat := ((jobs.find id).map Job.attempts).getD 0

def isTransient (category : String) : Bool :=
  category = "SMTP transient" || category = "JMAP transient"

/-- The write of `handle_send_message` after the plugin failed, with the attempts it has read;
`none` is an overflow. -/
def handleSendFailure (jobs : JobTable) (id : Nat) (category : String) (attempts : Int)
    (now : Nat) : Option JobTable :=
  let failed := markFailed jobs id
    (if "SMTP ".isPrefixOf category ∨ "JMAP ".isPrefixOf category then category else "send error")
    none now
  if isTransient category then
    (inI64 (attempts + 1)).bind fun next =>
      if next < smtpTransientMaxAttempts then
        (retryDelay attempts).map fun delay =>
          rescheduleTransient jobs id category delay.toNat now
      else some failed
  else some failed

/-- The errors of a send job that ends before the plugin is called. -/
def sendRefusals : List String :=
  ["invalid outbound payload", "send protocol not configured", "unknown send protocol"]

/-- How the handler of a payload can end, when it has `called` the plugin or not. -/
def JobPayload.ends (payload : JobPayload) (called : Bool) (result : Result) : Bool :=
  match payload, result with
  | .sendMessage .., .failed error detail =>
    !called && decide (error ∈ sendRefusals) && detail.isNone
  | .sendMessage .., _ => called
  | _, .sendFailed _ => false
  | _, _ => true

/-! ## The process -/

/-- The workers, with what the handlers of send jobs know. -/
structure Sends where
  workers : Workers
  /-- The jobs whose handler has called the plugin. -/
  calling : List Nat
  /-- The attempts a handler has read after its plugin failed. -/
  read : List (Nat × Nat)
  /-- The jobs the plugin was called for, once a call, since the process started. -/
  invoked : List Nat

inductive SendAction
  | worker (a : Action)
  /-- `plugin.send`. -/
  | call (task : Nat)
  /-- The handler selects the attempts of its row. -/
  | readAttempts (task : Nat)
  /-- The handler's last write after its plugin failed. -/
  | settle (task now : Nat)

namespace Sends

/-- After a step of the workers: what a handler knew goes with it, and a new process has called
no plugin. -/
def follow (s : Sends) (w : Workers) : Sends where
  workers := w
  calling := s.calling.filter fun id =>
    w.tasks.any fun t => t.job.id == id && decide (t.phase = .working)
  read := s.read.filter fun r => w.tasks.any fun t => t.job.id == r.1
  invoked := if w.booting then [] else s.invoked

/-- The steps the workers can take by themselves. -/
def permits (s : Sends) : Action → Bool
  | .workEnds i result =>
    s.workers.tasks[i]?.any fun t => t.job.payload.ends (decide (t.job.id ∈ s.calling)) result
  | .finish i _ =>
    s.workers.tasks[i]?.all fun t =>
      match t.phase with
      | .released (.sendFailed _) => false
      | _ => true
  | _ => true

def next (s : Sends) : SendAction → Option Sends
  | .worker a => if s.permits a then (s.workers.next a).map s.follow else none
  | .call i =>
    match s.workers.tasks[i]? with
    | some ⟨⟨id, .sendMessage ..⟩, .working⟩ =>
      if id ∈ s.calling then none
      else some { s with calling := id :: s.calling, invoked := id :: s.invoked }
    | _ => none
  | .readAttempts i =>
    match s.workers.tasks[i]? with
    | some ⟨job, .released (.sendFailed _)⟩ =>
      if (s.read.lookup job.id).isSome then none
      else some { s with read := (job.id, attemptsOf s.workers.jobs job.id) :: s.read }
    | _ => none
  | .settle i now =>
    match s.workers.tasks[i]? with
    | some ⟨job, .released (.sendFailed category)⟩ =>
      (s.read.lookup job.id).map fun attempts : Nat =>
        let tasks := s.workers.tasks.eraseIdx i
        match handleSendFailure s.workers.jobs job.id category attempts now with
        | some jobs => s.follow { s.workers with jobs := jobs, tasks := tasks }
        -- the handler panics
        | none => s.follow { s.workers with
            tasks := tasks
            dropped := job.id :: s.workers.dropped }
    | _ => none

end Sends

/-- A process over an empty queue, about to start. -/
def Sends.fresh (maxConcurrent : Nat) : Sends := ⟨.fresh maxConcurrent, [], [], []⟩

def sendSystem : System Sends SendAction where
  init s := ∃ n, s = .fresh n
  step s a s' := s.next a = some s'

/-! ## What a step does to the row of one job -/

theorem find_write_of_ne (jobs : JobTable) {id k : Nat} (hk : k ≠ id) (f : Job → Job)
    (hid : ∀ j, (f j).id = j.id) (now : Nat) :
    (write jobs (fun j => j.id == id) f hid now).find k = jobs.find k := by
  rw [write, jobs.find_updateWhere]
  cases hj : jobs.find k with
  | none => rfl
  | some j =>
    obtain ⟨-, hjk⟩ := (jobs.find_eq_some_iff k j).mp hj
    cases hjk
    rw [Option.map_some, if_neg (by simpa using hk)]

theorem find_write_id {jobs : JobTable} {id : Nat} {j : Job} (hj : jobs.find id = some j)
    (f : Job → Job) (hid : ∀ j, (f j).id = j.id) (now : Nat) :
    (write jobs (fun j => j.id == id) f hid now).find id =
      some { f j with updatedAt := now } := by
  obtain ⟨-, hjid⟩ := (jobs.find_eq_some_iff id j).mp hj
  cases hjid
  rw [write, jobs.find_updateWhere, hj, Option.map_some, if_pos (beq_self_eq_true _)]

/-- What a step of the workers may do to the row of one job. -/
inductive RowStep (w : Workers) (a : Action) : Option Job → Option Job → Prop
  | same (r : Option Job) : RowStep w a r r
  | created {j : Job} : j.status = .pending → j.attempts = 0 → RowStep w a none (some j)
  | claimed {j j' : Job} : j.status = .pending → j'.status = .running →
    j'.attempts = j.attempts → RowStep w a (some j) (some j')
  | reverted {t : Task} {j j' : Job} : t ∈ w.tasks → t.job.id = j.id → t.phase = .busy →
    j.status = .running → j'.status = .pending → j'.attempts = j.attempts →
    RowStep w a (some j) (some j')
  | completed {j j' : Job} : j.status = .running → j'.status = .completed →
    j'.attempts = j.attempts → RowStep w a (some j) (some j')
  | failed {j j' : Job} : j.status = .running → j'.status = .failed →
    j'.attempts = j.attempts + 1 → RowStep w a (some j) (some j')
  | retried {i : Nat} {t : Task} {category : String} {now : Nat} {j j' : Job} :
    w.tasks[i]? = some t → t.phase = .released (.sendFailed category) → a = .finish i now →
    j.status = .running → j.attempts + 1 < smtpTransientMaxAttempts → j'.status = .pending →
    j'.attempts = j.attempts + 1 → j'.runAt = now + 30 * 2 ^ min j.attempts 4 →
    RowStep w a (some j) (some j')
  | reclaimed {j j' : Job} : w.booting = true → j.status = .running → j'.status = .pending →
    j'.attempts = j.attempts → RowStep w a (some j) (some j')

/-- What a step of the workers does to the table and to the tasks. -/
inductive WorkerStep (w : Workers) (a : Action) (w' : Workers) : Prop
  | quiet : w'.jobs = w.jobs → w'.tasks = w.tasks → w'.ran = w.ran → w'.booting = w.booting →
    WorkerStep w a w'
  | enqueue (payload : JobPayload) (runAt now : Nat) :
    w'.jobs = Queue.enqueue w.jobs payload runAt now → w'.tasks = w.tasks → w'.ran = w.ran →
    w'.booting = w.booting → WorkerStep w a w'
  | claim {c : ClaimedJob} {now : Nat} : casClaim w.jobs c.id now = some w'.jobs →
    w'.tasks = w.tasks ∨ w'.tasks = w.tasks ++ [⟨c, .claimed⟩] → w'.ran = w.ran →
    w'.booting = w.booting → WorkerStep w a w'
  | move {i : Nat} {t : Task} {phase : Phase} : w.tasks[i]? = some t → w'.jobs = w.jobs →
    w'.tasks = w.tasks.set i ⟨t.job, phase⟩ → w'.ran = w.ran ∨ w'.ran = t.job.id :: w.ran →
    (phase = .claimed ∨ phase = .busy ∨ phase = .working → t.phase = .claimed) →
    w'.booting = w.booting → WorkerStep w a w'
  | leave {i : Nat} {t : Task} : w.tasks[i]? = some t → w'.jobs = w.jobs ∨
      (t.phase = .busy ∧ ∃ now, w'.jobs = revertPending w.jobs t.job.id now) ∨
      (∃ result now, t.phase = .released result ∧ a = .finish i now ∧
        w'.jobs = finishJob w.jobs t.job.id result now) →
    w'.tasks = w.tasks.eraseIdx i → w'.ran = w.ran → w'.booting = w.booting → WorkerStep w a w'
  | restart : w'.jobs = w.jobs → w'.tasks = [] → w'.ran = w.ran → w'.booting = true →
    WorkerStep w a w'
  | reclaim : w.booting = true →
    w'.jobs = w.jobs ∨ (∃ now, w'.jobs = reclaimStaleRunning w.jobs now) →
    w'.tasks = w.tasks → w'.ran = w.ran → w'.booting = false → WorkerStep w a w'

theorem Workers.step_cases {w w' : Workers} {a : Action} (hs : w.next a = some w') :
    WorkerStep w a w' := by
  cases Workers.step_of_next hs with
  | scans | draftStart | draftEnd => exact .quiet rfl rfl rfl rfl
  | claim _ hcas => exact .claim hcas (.inr rfl) rfl rfl
  | claimLost _ hcas => exact .claim hcas (.inl rfl) rfl rfl
  | tryBegin hi hphase =>
    unfold Workers.begin
    split
    · exact .move hi rfl rfl (.inl rfl) (fun _ => hphase) rfl
    · exact .move hi rfl rfl (.inr rfl) (fun _ => hphase) rfl
  | @revert i now t hi hphase => exact .leave hi (.inr (.inl ⟨hphase, now, rfl⟩)) rfl rfl rfl
  | passEnds hi | release hi | workEnds hi => exact .move hi rfl rfl (.inl rfl) (by simp) rfl
  | start hi hphase => exact .move hi rfl rfl (.inr rfl) (fun _ => hphase) rfl
  | @finish i now t result hi hphase =>
    exact .leave hi (.inr (.inr ⟨result, now, hphase, rfl, rfl⟩)) rfl rfl rfl
  | lose hi => exact .leave hi (.inl rfl) rfl rfl rfl
  | enqueue payload runAt now => exact .enqueue payload runAt now rfl rfl rfl rfl
  | restart => exact .restart rfl rfl rfl rfl
  | @reclaim now fails hb =>
    cases fails with
    | true => exact .reclaim hb (.inl rfl) rfl rfl rfl
    | false => exact .reclaim hb (.inr ⟨now, rfl⟩) rfl rfl rfl

theorem find_of_held {w : Workers} (h : w.Inv) {t : Task} (ht : t ∈ w.tasks) :
    ∃ j, w.jobs.find t.job.id = some j ∧ j.id = t.job.id ∧ j.status = .running := by
  obtain ⟨j, hj, hid, hstatus⟩ := statusOf_eq_some_iff.mp (h.held t ht)
  exact ⟨j, (w.jobs.find_eq_some_iff _ j).mpr ⟨hj, congrArg some hid⟩, hid, hstatus⟩

/-- A statement over the id of a held job is a step of its row and of no other. -/
theorem rowStep_write_id {w : Workers} {a : Action} (h : w.Inv) {t : Task} (ht : t ∈ w.tasks)
    {f : Job → Job} {hid : ∀ j, (f j).id = j.id} {now : Nat}
    (hrow : ∀ j, w.jobs.find t.job.id = some j → j.id = t.job.id → j.status = .running →
      RowStep w a (some j) (some { f j with updatedAt := now })) (id : Nat) :
    RowStep w a (w.jobs.find id)
      ((write w.jobs (fun j => j.id == t.job.id) f hid now).find id) := by
  by_cases he : id = t.job.id
  · subst he
    obtain ⟨j, hj, hjid, hstatus⟩ := find_of_held h ht
    rw [find_write_id hj, hj]
    exact hrow j hj hjid hstatus
  · rw [find_write_of_ne w.jobs he]
    exact .same _

theorem rowStep_finishJob {w : Workers} (h : w.Inv) {i : Nat} {t : Task}
    (hi : w.tasks[i]? = some t) {result : Result} (hphase : t.phase = .released result)
    (now id : Nat) :
    RowStep w (.finish i now) (w.jobs.find id)
      ((finishJob w.jobs t.job.id result now).find id) := by
  have ht : t ∈ w.tasks := List.mem_of_getElem? hi
  have hfailed : ∀ error detail, RowStep w (.finish i now) (w.jobs.find id)
      ((markFailed w.jobs t.job.id error detail now).find id) := by
    intro error detail
    unfold markFailed
    apply rowStep_write_id h ht
    intro j _ _ hstatus
    exact .failed hstatus rfl rfl
  cases result with
  | ok =>
    unfold finishJob markCompleted
    apply rowStep_write_id h ht
    intro j _ _ hstatus
    exact .completed hstatus rfl rfl
  | failed error detail => exact hfailed error detail
  | sendFailed category =>
    unfold finishJob sendFailed
    dsimp only
    split
    case isTrue hlt =>
      apply rowStep_write_id h ht
      intro j hj _ hstatus
      rw [hj] at hlt ⊢
      exact .retried hi hphase rfl hstatus hlt.2 rfl rfl rfl
    case isFalse =>
      split
      · exact hfailed _ _
      · exact hfailed _ _

theorem WorkerStep.row {w w' : Workers} {a : Action} (h : w.Inv) (hs : WorkerStep w a w')
    (id : Nat) : RowStep w a (w.jobs.find id) (w'.jobs.find id) := by
  cases hs with
  | quiet hjobs =>
    rw [hjobs]
    exact .same _
  | move _ hjobs =>
    rw [hjobs]
    exact .same _
  | restart hjobs =>
    rw [hjobs]
    exact .same _
  | enqueue payload runAt now hjobs =>
    rw [hjobs, Queue.enqueue, w.jobs.find_upsert _ _ _ _ _ rfl, find_enqueue_fresh]
    split
    case isTrue he =>
      rw [he, find_enqueue_fresh]
      exact .created rfl rfl
    case isFalse => exact .same _
  | claim hcas =>
    unfold casClaim at hcas
    split at hcas
    case isFalse => cases hcas
    case isTrue =>
      rw [← Option.some.inj hcas, write, w.jobs.find_updateWhere]
      cases w.jobs.find id with
      | none => exact .same _
      | some j =>
        rw [Option.map_some]
        split
        case isTrue hp =>
          simp only [Bool.and_eq_true, decide_eq_true_eq] at hp
          exact .claimed hp.2 rfl rfl
        case isFalse => exact .same _
  | leave hi hjobs =>
    rcases hjobs with hjobs | ⟨hphase, now, hjobs⟩ | ⟨result, now, hphase, rfl, hjobs⟩
    · rw [hjobs]
      exact .same _
    · have ht := List.mem_of_getElem? hi
      rw [hjobs]
      apply rowStep_write_id h ht
      intro j _ hjid hstatus
      exact .reverted ht hjid.symm hphase hstatus rfl rfl
    · rw [hjobs]
      exact rowStep_finishJob h hi hphase now id
  | reclaim hb hjobs =>
    rcases hjobs with hjobs | ⟨now, hjobs⟩
    · rw [hjobs]
      exact .same _
    · rw [hjobs, reclaimStaleRunning, write, w.jobs.find_updateWhere]
      cases w.jobs.find id with
      | none => exact .same _
      | some j =>
        rw [Option.map_some]
        split
        case isTrue hp => exact .reclaimed hb (of_decide_eq_true hp) rfl rfl
        case isFalse => exact .same _

/-- A task before its work has ended was there before, still claimed if it moved, or its job was
pending. -/
theorem WorkerStep.origin {w w' : Workers} {a : Action} (hs : WorkerStep w a w') {u : Task}
    (hu : u ∈ w'.tasks) (hearly : u.phase = .claimed ∨ u.phase = .busy ∨ u.phase = .working) :
    u ∈ w.tasks ∨ (∃ t ∈ w.tasks, t.job = u.job ∧ t.phase = .claimed) ∨
      (u.phase = .claimed ∧ statusOf w.jobs u.job.id = some .pending) := by
  cases hs with
  | quiet _ htasks | enqueue _ _ _ _ htasks | reclaim _ _ htasks =>
    rw [htasks] at hu
    exact .inl hu
  | restart _ htasks =>
    rw [htasks] at hu
    cases hu
  | claim hcas htasks =>
    rcases htasks with htasks | htasks
    · rw [htasks] at hu
      exact .inl hu
    · rw [htasks] at hu
      rcases List.mem_append.mp hu with hu | hu
      · exact .inl hu
      · obtain rfl := List.mem_singleton.mp hu
        exact .inr (.inr ⟨rfl, (statusOf_casClaim hcas).1⟩)
  | move hi _ htasks _ hclaimed =>
    rw [htasks] at hu
    rcases List.mem_or_eq_of_mem_set hu with hu | rfl
    · exact .inl hu
    · exact .inr (.inl ⟨_, List.mem_of_getElem? hi, rfl, hclaimed hearly⟩)
  | leave _ _ htasks =>
    rw [htasks] at hu
    exact .inl ((List.eraseIdx_sublist _ _).subset hu)

/-! ## The invariant -/

/-- The attempts a job may still make beyond the next. -/
def Status.left : Status → Nat
  | .failed => 0
  | _ => 1

/-- The calls of the plugin that the attempts of the row do not count yet. -/
def Status.uncounted : Status → Nat
  | .running => 1
  | .completed => 1
  | _ => 0

/-- The task has not called the plugin. -/
def Sends.Unsent (s : Sends) (t : Task) : Prop :=
  t.phase = .claimed ∨ t.phase = .busy ∨ (t.phase = .working ∧ t.job.id ∉ s.calling)

structure Sends.Inv (s : Sends) : Prop where
  workers : s.workers.Inv
  limit : ∀ id j, s.workers.jobs.find id = some j →
    j.attempts + j.status.left ≤ smtpTransientMaxAttempts
  calls : ∀ id j, s.workers.jobs.find id = some j →
    s.invoked.count id ≤ j.attempts + j.status.uncounted
  unsent : ∀ t ∈ s.workers.tasks, s.Unsent t →
    s.invoked.count t.job.id ≤ attemptsOf s.workers.jobs t.job.id
  rows : ∀ id ∈ s.invoked, (s.workers.jobs.find id).isSome = true
  booting : s.workers.booting = true → s.invoked = []
  read : ∀ r ∈ s.read, (∃ t ∈ s.workers.tasks, t.job.id = r.1) ∧
    attemptsOf s.workers.jobs r.1 = r.2

theorem Sends.inv_fresh (n : Nat) : (Sends.fresh n).Inv :=
  ⟨Workers.inv_fresh n, fun _ j h => (Option.some_ne_none j h.symm).elim,
    fun _ j h => (Option.some_ne_none j h.symm).elim, List.forall_mem_nil _, List.forall_mem_nil _,
    fun _ => rfl, List.forall_mem_nil _⟩

theorem attemptsOf_of_find {jobs : JobTable} {id : Nat} {j : Job} (hj : jobs.find id = some j) :
    attemptsOf jobs id = j.attempts := by
  rw [attemptsOf, hj]
  rfl

namespace Sends.Inv

variable {s : Sends} {a : Action} {w' : Workers}

/-- A step that leaves the job held does not touch its attempts. -/
theorem attempts_held (h : s.Inv) (hs : WorkerStep s.workers a w') (hw : w'.Inv) {u : Task}
    (hu : u ∈ w'.tasks) :
    attemptsOf w'.jobs u.job.id = attemptsOf s.workers.jobs u.job.id := by
  obtain ⟨j', hj', -, hrunning⟩ := find_of_held hw hu
  have hrow := hs.row h.workers u.job.id
  rw [hj'] at hrow
  rw [attemptsOf_of_find hj']
  generalize hr : s.workers.jobs.find u.job.id = r at hrow
  cases hrow with
  | same => exact (attemptsOf_of_find hr).symm
  | claimed _ _ hattempts => exact hattempts.trans (attemptsOf_of_find hr).symm
  | created hstatus | reverted _ _ _ _ hstatus | completed _ hstatus | failed _ hstatus
  | retried _ _ _ _ _ hstatus | reclaimed _ _ hstatus =>
    rw [hrunning] at hstatus
    cases hstatus

theorem count_follow (s : Sends) (w : Workers) (id : Nat) :
    (s.follow w).invoked.count id ≤ s.invoked.count id := by
  unfold Sends.follow
  dsimp only
  split
  · exact Nat.zero_le _
  · exact Nat.le_refl _

theorem limit_follow (h : s.Inv) (hs : WorkerStep s.workers a w') (id : Nat) (j' : Job)
    (hj' : w'.jobs.find id = some j') :
    j'.attempts + j'.status.left ≤ smtpTransientMaxAttempts := by
  have hrow := hs.row h.workers id
  have hlimit := h.limit id
  rw [hj'] at hrow
  generalize s.workers.jobs.find id = r at hrow hlimit
  cases hrow with
  | same => exact hlimit j' rfl
  | created hstatus hattempts =>
    rw [hstatus, hattempts]
    decide
  | claimed hold hstatus hattempts | reverted _ _ _ hold hstatus hattempts
  | completed hold hstatus hattempts | reclaimed _ hold hstatus hattempts =>
    have hj := hlimit _ rfl
    rw [hold] at hj
    rw [hstatus, hattempts]
    exact hj
  | failed hold hstatus hattempts =>
    have hj := hlimit _ rfl
    rw [hold] at hj
    rw [hstatus, hattempts]
    exact hj
  | retried _ _ _ _ hlt hstatus hattempts =>
    rw [hstatus, hattempts]
    exact hlt

theorem calls_follow (h : s.Inv) (hs : WorkerStep s.workers a w') (id : Nat) (j' : Job)
    (hj' : w'.jobs.find id = some j') :
    (s.follow w').invoked.count id ≤ j'.attempts + j'.status.uncounted := by
  apply Nat.le_trans (count_follow s w' id)
  have hrow := hs.row h.workers id
  have hcalls := h.calls id
  rw [hj'] at hrow
  generalize hr : s.workers.jobs.find id = r at hrow hcalls
  cases hrow with
  | same => exact hcalls j' rfl
  | created =>
    have hnot : id ∉ s.invoked := by
      intro hid
      have hsome := h.rows id hid
      rw [hr] at hsome
      cases hsome
    rw [List.count_eq_zero_of_not_mem hnot]
    exact Nat.zero_le _
  | claimed hold hstatus hattempts =>
    have hj := hcalls _ rfl
    rw [hold] at hj
    rw [hstatus, hattempts]
    exact Nat.le_succ_of_le hj
  | reverted ht hid hphase _ hstatus hattempts =>
    -- a task that found its account in flight has called nothing
    have hj := h.unsent _ ht (.inr (.inl hphase))
    obtain ⟨-, hjid⟩ := (s.workers.jobs.find_eq_some_iff id _).mp hr
    rw [hid, Option.some.inj hjid, attemptsOf_of_find hr] at hj
    rw [hstatus, hattempts]
    exact hj
  | completed hold hstatus hattempts =>
    have hj := hcalls _ rfl
    rw [hold] at hj
    rw [hstatus, hattempts]
    exact hj
  | failed hold hstatus hattempts | retried _ _ _ hold _ hstatus hattempts =>
    have hj := hcalls _ rfl
    rw [hold] at hj
    rw [hstatus, hattempts]
    exact hj
  | reclaimed hb =>
    rw [h.booting hb]
    exact Nat.zero_le _

theorem unsent_follow (h : s.Inv) (hs : WorkerStep s.workers a w') (hw : w'.Inv) {u : Task}
    (hu : u ∈ w'.tasks) (hunsent : (s.follow w').Unsent u) :
    (s.follow w').invoked.count u.job.id ≤ attemptsOf w'.jobs u.job.id := by
  rw [h.attempts_held hs hw hu]
  apply Nat.le_trans (count_follow s w' _)
  have hearly : u.phase = .claimed ∨ u.phase = .busy ∨ u.phase = .working :=
    hunsent.imp_right (Or.imp_right And.left)
  rcases hs.origin hu hearly with hu' | ⟨t, ht, hjob, hclaimed⟩ | ⟨-, hpending⟩
  · refine h.unsent u hu' (hunsent.imp_right (Or.imp_right ?_))
    rintro ⟨hphase, hnot⟩
    refine ⟨hphase, fun hcalling => hnot (List.mem_filter.mpr ⟨hcalling, ?_⟩)⟩
    exact List.any_eq_true.mpr ⟨u, hu, by simp [hphase]⟩
  · rw [← hjob]
    exact h.unsent t ht (.inl hclaimed)
  · obtain ⟨j, hj, hstatus⟩ := Option.map_eq_some_iff.mp hpending
    have hcalls := h.calls _ j hj
    rw [hstatus] at hcalls
    rw [attemptsOf_of_find hj]
    exact hcalls

theorem follow (h : s.Inv) (hs : WorkerStep s.workers a w') (hw : w'.Inv) :
    (s.follow w').Inv := by
  refine ⟨hw, h.limit_follow hs, h.calls_follow hs, fun u => h.unsent_follow hs hw, ?_, ?_, ?_⟩
  · intro id hid
    have hold : id ∈ s.invoked :=
      List.count_pos_iff.mp (Nat.lt_of_lt_of_le (List.count_pos_iff.mpr hid) (count_follow s w' id))
    have hsome := h.rows id hold
    have hrow := hs.row h.workers id
    show (w'.jobs.find id).isSome = true
    generalize s.workers.jobs.find id = r at hsome hrow
    generalize w'.jobs.find id = r' at hrow ⊢
    cases hrow with
    | same => exact hsome
    | _ => rfl
  · intro hb
    exact if_pos hb
  · intro r hr
    obtain ⟨hold, hheld⟩ := List.mem_filter.mp hr
    obtain ⟨t, ht, hid⟩ := List.any_eq_true.mp hheld
    obtain hid := beq_iff_eq.mp hid
    refine ⟨⟨t, ht, hid⟩, ?_⟩
    rw [← (h.read r hold).2, ← hid]
    exact h.attempts_held hs hw ht

end Sends.Inv

/-! ## Steps -/

theorem isTransient_iff (category : String) :
    isTransient category = true ↔ category = "SMTP transient" ∨ category = "JMAP transient" := by
  rw [isTransient, Bool.or_eq_true, decide_eq_true_eq, decide_eq_true_eq]

section Failure

variable {jobs : JobTable} {id : Nat} {category : String}

theorem sendFailed_of_retry (hcategory : isTransient category = true)
    (hlt : attemptsOf jobs id + 1 < smtpTransientMaxAttempts) (now : Nat) :
    sendFailed jobs id category now =
      rescheduleTransient jobs id category (30 * 2 ^ min (attemptsOf jobs id) 4) now :=
  if_pos ⟨(isTransient_iff category).mp hcategory, hlt⟩

theorem sendFailed_of_end
    (hend : isTransient category = true → smtpTransientMaxAttempts ≤ attemptsOf jobs id + 1)
    (now : Nat) :
    sendFailed jobs id category now =
      markFailed jobs id
        (if "SMTP ".isPrefixOf category ∨ "JMAP ".isPrefixOf category then category
        else "send error") none now := by
  rw [apply_ite (fun error => markFailed jobs id error none now)]
  refine if_neg ?_
  rintro ⟨hcategory, hlt⟩
  exact absurd hlt (Nat.not_lt.mpr (hend ((isTransient_iff category).mpr hcategory)))

/-- With the attempts of the row, the handler writes what `sendFailed` does. -/
theorem handleSendFailure_eq (hle : attemptsOf jobs id ≤ smtpTransientMaxAttempts) (now : Nat) :
    handleSendFailure jobs id category (attemptsOf jobs id) now =
      some (sendFailed jobs id category now) := by
  have hbound : inI64 ((attemptsOf jobs id : Int) + 1) = some ((attemptsOf jobs id : Int) + 1) := by
    apply if_pos
    unfold smtpTransientMaxAttempts at hle
    omega
  unfold handleSendFailure
  dsimp only
  rw [hbound, retryDelay_eq, Option.map_some, Int.toNat_natCast, Option.bind_some]
  split
  case isTrue hcategory =>
    split
    case isTrue hlt => rw [sendFailed_of_retry hcategory (by omega)]
    case isFalse hge => rw [sendFailed_of_end (fun _ => by omega)]
  case isFalse hcategory => rw [sendFailed_of_end (fun h => absurd h hcategory)]

end Failure

/-- What a step can be: a handler that settles does what a worker does that ends a failed send. -/
inductive SendStep (s : Sends) : SendAction → Sends → Prop
  | worker {b : Action} {w' : Workers} : s.permits b = true → s.workers.next b = some w' →
    SendStep s (.worker b) (s.follow w')
  | settle {i now : Nat} {w' : Workers} : s.workers.next (.finish i now) = some w' →
    SendStep s (.settle i now) (s.follow w')
  | call {i : Nat} {t : Task} : s.workers.tasks[i]? = some t → t.phase = .working →
    t.job.id ∉ s.calling → SendStep s (.call i)
      { s with calling := t.job.id :: s.calling, invoked := t.job.id :: s.invoked }
  | readAttempts {i : Nat} {t : Task} : s.workers.tasks[i]? = some t →
    SendStep s (.readAttempts i)
      { s with read := (t.job.id, attemptsOf s.workers.jobs t.job.id) :: s.read }

theorem mem_of_lookup {κ β : Type} [BEq κ] [LawfulBEq κ] {l : List (κ × β)} {k : κ} {b : β}
    (h : l.lookup k = some b) : (k, b) ∈ l := by
  obtain ⟨l₁, l₂, rfl, -⟩ := List.lookup_eq_some_iff.mp h
  exact List.mem_append_right _ List.mem_cons_self

theorem attempts_le {s : Sends} (h : s.Inv) (id : Nat) :
    attemptsOf s.workers.jobs id ≤ smtpTransientMaxAttempts := by
  cases hj : s.workers.jobs.find id with
  | none =>
    rw [attemptsOf, hj]
    exact Nat.zero_le _
  | some j =>
    rw [attemptsOf_of_find hj]
    exact Nat.le_of_add_right_le (h.limit id j hj)

theorem Sends.Inv.step_cases {s s' : Sends} {a : SendAction} (h : s.Inv)
    (hs : s.next a = some s') : SendStep s a s' := by
  cases a with
  | worker b =>
    simp only [Sends.next] at hs
    split at hs
    case isTrue hpermits =>
      obtain ⟨w', hw, rfl⟩ := Option.map_eq_some_iff.mp hs
      exact .worker hpermits hw
    case isFalse => cases hs
  | call i =>
    simp only [Sends.next] at hs
    split at hs
    case h_1 hi =>
      split at hs
      case isTrue => cases hs
      case isFalse hnot =>
        cases hs
        exact .call hi rfl hnot
    case h_2 => cases hs
  | readAttempts i =>
    simp only [Sends.next] at hs
    split at hs
    case h_1 hi =>
      split at hs
      case isTrue => cases hs
      case isFalse =>
        cases hs
        exact .readAttempts hi
    case h_2 => cases hs
  | settle i now =>
    simp only [Sends.next] at hs
    split at hs
    case h_1 job category hi =>
      obtain ⟨attempts, hread, hs⟩ := Option.map_eq_some_iff.mp hs
      obtain ⟨-, hattempts⟩ := h.read _ (mem_of_lookup hread)
      dsimp only at hs hattempts
      rw [← hattempts, handleSendFailure_eq (attempts_le h job.id)] at hs
      subst hs
      apply SendStep.settle
      unfold Workers.next
      simp only [Action.task, hi, Option.bind_some, Workers.nextTask, finishJob]
    case h_2 => cases hs

namespace Sends.Inv

variable {s s' : Sends} {a : SendAction}

theorem call (h : s.Inv) {i : Nat} {t : Task} (hi : s.workers.tasks[i]? = some t)
    (hphase : t.phase = .working) (hnot : t.job.id ∉ s.calling) :
    Sends.Inv
      { s with calling := t.job.id :: s.calling, invoked := t.job.id :: s.invoked } := by
  have ht : t ∈ s.workers.tasks := List.mem_of_getElem? hi
  obtain ⟨j, hj, -, hrunning⟩ := find_of_held h.workers ht
  refine ⟨h.workers, h.limit, ?_, ?_, ?_, ?_, h.read⟩
  · intro id k hk
    dsimp only at hk ⊢
    by_cases he : id = t.job.id
    · subst he
      obtain rfl := Option.some.inj (hk.symm.trans hj)
      have hcount := h.unsent t ht (.inr (.inr ⟨hphase, hnot⟩))
      rw [attemptsOf_of_find hj] at hcount
      rw [List.count_cons_self, hrunning]
      exact Nat.succ_le_succ hcount
    · rw [List.count_cons_of_ne (Ne.symm he)]
      exact h.calls id k hk
  · intro u hu hunsent
    by_cases he : u.job.id = t.job.id
    · -- the only task of the job has called the plugin now
      obtain rfl := List.inj_on_of_nodup_map h.workers.holders hu ht he
      rcases hunsent with hclaimed | hbusy | ⟨-, hfree⟩
      · rw [hphase] at hclaimed
        cases hclaimed
      · rw [hphase] at hbusy
        cases hbusy
      · exact absurd List.mem_cons_self hfree
    · dsimp only at hu ⊢
      rw [List.count_cons_of_ne (Ne.symm he)]
      refine h.unsent u hu (hunsent.imp_right (Or.imp_right ?_))
      rintro ⟨hworking, hfree⟩
      exact ⟨hworking, fun hcalling => hfree (List.mem_cons_of_mem _ hcalling)⟩
  · intro id hid
    rcases List.mem_cons.mp hid with rfl | hid
    · rw [hj]
      rfl
    · exact h.rows id hid
  · intro hb
    rw [(h.workers.idle hb).1] at ht
    cases ht

theorem next (h : s.Inv) (hs : s.next a = some s') : s'.Inv := by
  cases h.step_cases hs with
  | worker _ hw => exact h.follow (Workers.step_cases hw) (h.workers.next hw)
  | settle hw => exact h.follow (Workers.step_cases hw) (h.workers.next hw)
  | call hi hphase hnot => exact h.call hi hphase hnot
  | readAttempts hi =>
    refine ⟨h.workers, h.limit, h.calls, h.unsent, h.rows, h.booting, ?_⟩
    intro r hr
    rcases List.mem_cons.mp hr with rfl | hr
    · exact ⟨⟨_, List.mem_of_getElem? hi, rfl⟩, rfl⟩
    · exact h.read r hr

end Sends.Inv

/-- With the read apart from the write, the workers do only what `workerSystem` can do. -/
theorem Sends.Inv.next_workers {s s' : Sends} {a : SendAction} (h : s.Inv)
    (hs : s.next a = some s') :
    s'.workers = s.workers ∨ ∃ b, s.workers.next b = some s'.workers := by
  cases h.step_cases hs with
  | worker _ hw => exact .inr ⟨_, hw⟩
  | settle hw => exact .inr ⟨_, hw⟩
  | call => exact .inl rfl
  | readAttempts => exact .inl rfl

/-! ## The property -/

def Status.terminal : Status → Bool
  | .completed => true
  | .failed => true
  | _ => false

/-- What holds of the jobs in one state. -/
structure Bounded (s : Sends) : Prop where
  /-- Only a running job is executed. -/
  executing : ∀ t ∈ s.workers.tasks, statusOf s.workers.jobs t.job.id = some .running
  attempts : ∀ j ∈ s.workers.jobs.rows, j.attempts ≤ smtpTransientMaxAttempts
  /-- The plugin was called for no job more often since the process started. -/
  calls : ∀ id, s.invoked.count id ≤ smtpTransientMaxAttempts

/-- What every later state keeps. -/
structure Later (s s' : Sends) : Prop where
  /-- A finished job keeps its row and is not worked on again. -/
  settled : ∀ id j, s.workers.jobs.find id = some j → j.status.terminal = true →
    s'.workers.jobs.find id = some j ∧ s'.workers.ran.count id = s.workers.ran.count id
  attempts : ∀ id j, s.workers.jobs.find id = some j →
    ∃ j', s'.workers.jobs.find id = some j' ∧ j.attempts ≤ j'.attempts

/-- A job a step makes pending with an attempt more is due after its delay. -/
def RetriesLater (s : Sends) (a : SendAction) (s' : Sends) : Prop :=
  ∀ id j j', s.workers.jobs.find id = some j → s'.workers.jobs.find id = some j' →
    j.attempts < j'.attempts → j'.status = .pending →
      ∃ i now delay, a = .settle i now ∧ retryDelay j.attempts = some delay ∧
        (j'.runAt : Int) = now + delay ∧ now ≤ j'.runAt

/-- Any number of steps. -/
def Sends.Continues : Sends → Sends → Prop :=
  Relation.ReflTransGen fun s s' => ∃ a, s.next a = some s'

theorem Later.refl (s : Sends) : Later s s :=
  ⟨fun _ _ hj _ => ⟨hj, rfl⟩, fun _ j hj => ⟨j, hj, Nat.le_refl _⟩⟩

theorem Later.trans {s t u : Sends} (hst : Later s t) (htu : Later t u) : Later s u := by
  constructor
  · intro id j hj hterminal
    obtain ⟨hj', hran⟩ := hst.settled id j hj hterminal
    obtain ⟨hj'', hran'⟩ := htu.settled id j hj' hterminal
    exact ⟨hj'', hran'.trans hran⟩
  · intro id j hj
    obtain ⟨j', hj', hle⟩ := hst.attempts id j hj
    obtain ⟨j'', hj'', hle'⟩ := htu.attempts id j' hj'
    exact ⟨j'', hj'', Nat.le_trans hle hle'⟩

/-- A step of the workers works on no finished job. -/
theorem WorkerStep.ran {w w' : Workers} {a : Action} (h : w.Inv) (hs : WorkerStep w a w')
    {id : Nat} {j : Job} (hj : w.jobs.find id = some j) (hterminal : j.status.terminal = true) :
    w'.ran.count id = w.ran.count id := by
  cases hs with
  | quiet _ _ hran | enqueue _ _ _ _ _ hran | claim _ _ hran | leave _ _ _ hran
  | restart _ _ hran | reclaim _ _ _ hran => rw [hran]
  | move hi _ _ hran =>
    rcases hran with hran | hran
    · rw [hran]
    · rw [hran]
      apply List.count_cons_of_ne
      rintro rfl
      obtain ⟨k, hk, -, hrunning⟩ := find_of_held h (List.mem_of_getElem? hi)
      obtain rfl := Option.some.inj (hk.symm.trans hj)
      rw [hrunning] at hterminal
      cases hterminal

theorem Sends.Inv.later_workers {s s' : Sends} (h : s.Inv) {a : Action}
    (hs : WorkerStep s.workers a s'.workers) : Later s s' := by
  constructor
  · intro id j hj hterminal
    refine ⟨?_, hs.ran h.workers hj hterminal⟩
    have hrow := hs.row h.workers id
    rw [hj] at hrow
    generalize s'.workers.jobs.find id = r at hrow ⊢
    cases hrow with
    | same => rfl
    | claimed hold | reverted _ _ _ hold | completed hold | failed hold | retried _ _ _ hold
    | reclaimed _ hold =>
      rw [hold] at hterminal
      cases hterminal
  · intro id j hj
    have hrow := hs.row h.workers id
    rw [hj] at hrow
    generalize s'.workers.jobs.find id = r at hrow ⊢
    cases hrow with
    | same => exact ⟨j, rfl, Nat.le_refl _⟩
    | claimed _ _ hattempts | reverted _ _ _ _ _ hattempts | completed _ _ hattempts
    | reclaimed _ _ _ hattempts => exact ⟨_, rfl, Nat.le_of_eq hattempts.symm⟩
    | failed _ _ hattempts | retried _ _ _ _ _ _ hattempts =>
      refine ⟨_, rfl, ?_⟩
      rw [hattempts]
      exact Nat.le_succ _

theorem Sends.Inv.later {s s' : Sends} {a : SendAction} (h : s.Inv) (hs : s.next a = some s') :
    Later s s' := by
  rcases h.next_workers hs with hsame | ⟨b, hw⟩
  · have hrefl := Later.refl s
    exact ⟨hsame ▸ hrefl.settled, hsame ▸ hrefl.attempts⟩
  · exact h.later_workers (Workers.step_cases hw)

theorem Sends.Inv.retriesLater {s s' : Sends} {a : SendAction} (h : s.Inv)
    (hs : s.next a = some s') : RetriesLater s a s' := by
  -- only the end of a failed send adds an attempt to a row it makes pending
  have hretried : ∀ {b : Action} {w' : Workers}, WorkerStep s.workers b w' → ∀ id j j',
      s.workers.jobs.find id = some j → w'.jobs.find id = some j' → j.attempts < j'.attempts →
      j'.status = .pending → ∃ i t category now, s.workers.tasks[i]? = some t ∧
        t.phase = .released (.sendFailed category) ∧ b = .finish i now ∧
        j'.runAt = now + 30 * 2 ^ min j.attempts 4 := by
    intro b w' hw id j j' hj hj' hlt hpending
    have hrow := hw.row h.workers id
    rw [hj, hj'] at hrow
    cases hrow with
    | same => exact absurd hlt (Nat.lt_irrefl _)
    | claimed _ _ hattempts | reverted _ _ _ _ _ hattempts | completed _ _ hattempts
    | reclaimed _ _ _ hattempts =>
      rw [hattempts] at hlt
      exact absurd hlt (Nat.lt_irrefl _)
    | failed _ hstatus =>
      rw [hstatus] at hpending
      cases hpending
    | retried hi hphase hb _ _ _ _ hrunAt => exact ⟨_, _, _, _, hi, hphase, hb, hrunAt⟩
  intro id j j' hj hj' hlt hpending
  cases h.step_cases hs with
  | worker hpermits hw =>
    obtain ⟨i, t, category, now, hi, hphase, rfl, -⟩ :=
      hretried (Workers.step_cases hw) id j j' hj hj' hlt hpending
    simp only [Sends.permits, hi, Option.all_some, hphase] at hpermits
    cases hpermits
  | settle hw =>
    obtain ⟨i, t, category, now, -, -, he, hrunAt⟩ :=
      hretried (Workers.step_cases hw) id j j' hj hj' hlt hpending
    cases he
    refine ⟨_, _, _, rfl, retryDelay_eq j.attempts, ?_, ?_⟩
    · rw [hrunAt, Int.natCast_add]
    · rw [hrunAt]
      exact Nat.le_add_right _ _
  | call =>
    obtain rfl := Option.some.inj (hj.symm.trans hj')
    exact absurd hlt (Nat.lt_irrefl _)
  | readAttempts =>
    obtain rfl := Option.some.inj (hj.symm.trans hj')
    exact absurd hlt (Nat.lt_irrefl _)

theorem Sends.Inv.bounded {s : Sends} (h : s.Inv) : Bounded s := by
  have hfind : ∀ j ∈ s.workers.jobs.rows, s.workers.jobs.find j.id = some j := by
    intro j hj
    exact (s.workers.jobs.find_eq_some_iff j.id j).mpr ⟨hj, rfl⟩
  refine ⟨h.workers.held, ?_, ?_⟩
  · intro j hj
    exact Nat.le_of_add_right_le (h.limit j.id j (hfind j hj))
  · intro id
    by_cases hid : id ∈ s.invoked
    · obtain ⟨j, hj⟩ := Option.isSome_iff_exists.mp (h.rows id hid)
      have hcalls := h.calls id j hj
      have hlimit := h.limit id j hj
      have huncounted : j.status.uncounted ≤ j.status.left := by
        cases j.status <;> decide
      omega
    · rw [List.count_eq_zero_of_not_mem hid]
      exact Nat.zero_le _

theorem Sends.Inv.reached {s : Sends} (h : sendSystem.Reachable (fun _ _ => True) s) : s.Inv := by
  apply System.Reachable.invariant _ _ h
  · rintro s ⟨n, rfl⟩
    exact Sends.inv_fresh n
  · intro s a t hs _ hst
    exact hs.next hst

theorem Sends.Inv.later_run {s s' : Sends} (h : s.Inv) (hrun : s.Continues s') :
    s'.Inv ∧ Later s s' := by
  induction hrun with
  | refl => exact ⟨h, Later.refl s⟩
  | tail _ hst ih =>
    obtain ⟨a, hst⟩ := hst
    exact ⟨ih.1.next hst, ih.2.trans (ih.1.later hst)⟩

/-- In every state of every run, with any number of workers and restarts in any order and any
outcome of the plugin: no delay overflows, only running jobs are executed, attempts and the
calls of one process are at most the maximum, a retry is due after its delay, and from there on
a finished job stays as it is, is not worked on again, and attempts never decrease. -/
theorem sends_bounded (s : Sends) (h : sendSystem.Reachable (fun _ _ => True) s) :
    (∀ attempts : Nat, ∃ delay, retryDelay attempts = some delay ∧ 0 ≤ delay) ∧ Bounded s ∧
      (∀ a s', s.next a = some s' → RetriesLater s a s') ∧
      ∀ s', s.Continues s' → Later s s' := by
  have hinv := Sends.Inv.reached h
  refine ⟨?_, hinv.bounded, ?_, ?_⟩
  · intro attempts
    exact ⟨_, retryDelay_eq attempts, Int.natCast_nonneg _⟩
  · intro a s' hs
    exact hinv.retriesLater hs
  · intro s' hrun
    exact (hinv.later_run hrun).2

/-- A worker claims the first due job, calls the plugin, which fails for now, and settles. -/
def sendRound (now : Nat) : List SendAction :=
  [.worker (.scan now), .worker (.check 0), .worker (.claim 0 now), .worker (.start 0), .call 0,
    .worker (.workEnds 0 (.sendFailed "SMTP transient")), .readAttempts 0, .settle 0 now]

def sendRun : List SendAction :=
  [.worker (.enqueue (.sendMessage ['a'] ['m']) 0 0), .worker (.reclaim 0 false)] ++
    sendRound 100 ++ sendRound 200 ++ sendRound 300

/-- A message whose plugin fails for now three times: the third failure is the last. -/
theorem send_given_up : ∃ s, sendSystem.Reachable (fun _ _ => True) s ∧ s.invoked = [1, 1, 1] ∧
    (s.workers.jobs.find 1).map (fun j => (j.status, j.attempts)) = some (.failed, 3) ∧
    Bounded s ∧ ∀ s', s.Continues s' → Later s s' := by
  have hrun : (System.after Sends.next (.fresh 1) sendRun).map (fun s =>
      (s.invoked, (s.workers.jobs.find 1).map fun j => (j.status, j.attempts))) =
        some ([1, 1, 1], some (.failed, 3)) := by
    decide +kernel
  obtain ⟨s, hrun, heq⟩ := Option.map_eq_some_iff.mp hrun
  obtain ⟨hinvoked, hrow⟩ := Prod.mk.inj heq
  have hreach : sendSystem.Reachable (fun _ _ => True) s :=
    .after (fun _ _ _ h => h) (.init ⟨1, rfl⟩) (fun _ _ _ => trivial) hrun
  obtain ⟨-, hbounded, -, hlater⟩ := sends_bounded s hreach
  exact ⟨s, hreach, hinvoked, hrow, hbounded, hlater⟩

end Lyra.Queue
