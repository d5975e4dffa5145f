import Lyra.Lib.KeyedTable
import Lyra.Store.Schema

/-!
# The job queue

The table `jobs` with the statements of `jobs.rs` and `scheduler.rs` that read or write it.
A row's payload is what `enqueue` serialised, so it always parses.  Ids are UUIDv7 texts,
here numbers; times are what the text columns sort by.

No constraint of the table keeps two rows from naming one account, and the statements that
end a job (`mark_completed`, `mark_failed`, `revert_pending`, `reschedule_transient`) find
their row by id alone, whatever its status is.
-/

namespace Lyra.Queue

open Lyra.Lib

/-! ## Rows -/

inductive JobPayload
  | syncAccount (accountId userId : Text)
  | unsnoozeMessage (messageId : Text)
  | sendMessage (accountId outbound : Text)
  | exportBackup (userId artifactId passwordWrapped : Text)
  | importBackup (userId uploadId passwordWrapped : Text)
  deriving DecidableEq, Repr

def payloadKind : JobPayload → String
  | .syncAccount .. => "sync_account"
  | .unsnoozeMessage .. => "unsnooze_message"
  | .sendMessage .. => "send_message"
  | .exportBackup .. => "export_backup"
  | .importBackup .. => "import_backup"

/-- The account a payload synchronises. -/
def JobPayload.syncs : JobPayload → Option Text
  | .syncAccount a _ => some a
  | _ => none

inductive Status
  | pending
  | running
  | completed
  | failed
  deriving DecidableEq, Repr

/-- A row of `jobs`. -/
structure Job where
  id : Nat
  kind : String
  runAt : Nat
  payload : JobPayload
  status : Status := .pending
  attempts : Nat := 0
  lastError : Option String := none
  lastErrorDetail : Option String := none
  createdAt : Nat
  updatedAt : Nat
  deriving DecidableEq, Repr

abbrev JobTable := KeyedTable Job Job.id fun j => some j.id

/-- A row claimed by a worker. -/
structure ClaimedJob where
  id : Nat
  payload : JobPayload
  deriving DecidableEq, Repr

/-! ## Statements -/

def newJob (jobs : JobTable) (payload : JobPayload) (runAt now : Nat) : Job where
  id := freshNat (jobs.rows.map Job.id)
  kind := payloadKind payload
  runAt := runAt
  payload := payload
  createdAt := now
  updatedAt := now

/-- Persist a pending job. -/
def enqueue (jobs : JobTable) (payload : JobPayload) (runAt now : Nat) : JobTable :=
  jobs.upsert (newJob jobs payload runAt now) (fun j => j) (fun _ => rfl) (fun _ => rfl)
    fun _ j hj e => freshNat_not_mem _ (List.mem_map.mpr ⟨j, hj, e⟩)

/-- `UPDATE jobs … WHERE`, with the stamp `updated_at`. -/
def write (jobs : JobTable) (p : Job → Bool) (f : Job → Job) (hid : ∀ j, (f j).id = j.id)
    (now : Nat) : JobTable :=
  jobs.updateWhere p (fun j => { f j with updatedAt := now }) hid
    (fun j => congrArg some (hid j))

/-- The rows `claim_next` goes through. -/
def pendingDue (jobs : JobTable) (now : Nat) : List ClaimedJob :=
  ((jobs.rows.filter fun j => decide (j.status = .pending) && decide (j.runAt ≤ now)).mergeSort
    fun a b => decide (a.runAt < b.runAt ∨ (a.runAt = b.runAt ∧ a.createdAt ≤ b.createdAt))).map
      fun j => ⟨j.id, j.payload⟩

/-- The compare-and-set of `claim_next`: the table when one row changed. -/
def casClaim (jobs : JobTable) (id now : Nat) : Option JobTable :=
  if jobs.rows.any fun j => j.id == id && decide (j.status = .pending) then
    some (write jobs (fun j => j.id == id && decide (j.status = .pending))
      (fun j => { j with status := .running }) (fun _ => rfl) now)
  else none

/-- Reset leftover running rows at a start. -/
def reclaimStaleRunning (jobs : JobTable) (now : Nat) : JobTable :=
  write jobs (fun j => decide (j.status = .running)) (fun j => { j with status := .pending })
    (fun _ => rfl) now

def markCompleted (jobs : JobTable) (id now : Nat) : JobTable :=
  write jobs (fun j => j.id == id)
    (fun j => { j with status := .completed, lastError := none, lastErrorDetail := none })
    (fun _ => rfl) now

def markFailed (jobs : JobTable) (id : Nat) (error : String) (detail : Option String) (now : Nat) :
    JobTable :=
  write jobs (fun j => j.id == id)
    (fun j => { j with
      status := .failed
      lastError := some error
      lastErrorDetail := detail
      attempts := j.attempts + 1 })
    (fun _ => rfl) now

def rescheduleTransient (jobs : JobTable) (id : Nat) (error : String) (delay now : Nat) :
    JobTable :=
  write jobs (fun j => j.id == id)
    (fun j => { j with
      status := .pending
      lastError := some error
      attempts := j.attempts + 1
      runAt := now + delay })
    (fun _ => rfl) now

def revertPending (jobs : JobTable) (id now : Nat) : JobTable :=
  write jobs (fun j => j.id == id) (fun j => { j with status := .pending }) (fun _ => rfl) now

def smtpTransientMaxAttempts : Nat := 3

/-- What `handle_send_message` writes after the plugin failed. -/
def sendFailed (jobs : JobTable) (id : Nat) (category : String) (now : Nat) : JobTable :=
  let attempts := ((jobs.find id).map Job.attempts).getD 0
  if (category = "SMTP transient" ∨ category = "JMAP transient") ∧
      attempts + 1 < smtpTransientMaxAttempts then
    rescheduleTransient jobs id category (30 * 2 ^ min attempts 4) now
  else if "SMTP ".isPrefixOf category ∨ "JMAP ".isPrefixOf category then
    markFailed jobs id category none now
  else markFailed jobs id "send error" none now

/-! ## Lookups -/

/-- A pending or running `sync_account` job of the account. -/
def Job.activeSync (a : Text) (j : Job) : Bool :=
  decide (j.kind = "sync_account") && (decide (j.status = .pending) || decide (j.status = .running)) &&
    decide (j.payload.syncs = some a)

/-- `pending_or_running_sync_job_id`. -/
def pendingOrRunningSyncJobId (jobs : JobTable) (a : Text) : Option Nat :=
  (((jobs.rows.filter fun j => decide (j.kind = "sync_account") &&
      (decide (j.status = .pending) || decide (j.status = .running))).mergeSort
    fun x y => decide (x.runAt < y.runAt ∨ (x.runAt = y.runAt ∧ x.createdAt ≤ y.createdAt))).find?
      fun j => decide (j.payload.syncs = some a)).map Job.id

/-- `latest_terminal_sync`. -/
def latestTerminalSync (jobs : JobTable) (a : Text) : Option (Nat × Status) :=
  (((jobs.rows.filter fun j => decide (j.kind = "sync_account") &&
      (decide (j.status = .completed) || decide (j.status = .failed))).mergeSort
    fun x y =>
      decide (y.updatedAt < x.updatedAt ∨ (x.updatedAt = y.updatedAt ∧ y.createdAt ≤ x.createdAt))).find?
      fun j => decide (j.payload.syncs = some a)).map fun j => (j.id, j.status)

/-! ## What a statement does to the status of a row -/

def statusOf (jobs : JobTable) (id : Nat) : Option Status := (jobs.find id).map Job.status

theorem statusOf_eq_some_iff {jobs : JobTable} {id : Nat} {s : Status} :
    statusOf jobs id = some s ↔ ∃ j ∈ jobs.rows, j.id = id ∧ j.status = s := by
  rw [statusOf, Option.map_eq_some_iff]
  constructor
  · rintro ⟨j, hj, hs⟩
    obtain ⟨hmem, hid⟩ := (jobs.find_eq_some_iff id j).mp hj
    exact ⟨j, hmem, Option.some.inj hid, hs⟩
  · rintro ⟨j, hmem, rfl, hs⟩
    exact ⟨j, (jobs.find_eq_some_iff j.id j).mpr ⟨hmem, rfl⟩, hs⟩

theorem find_enqueue_fresh (jobs : JobTable) (payload : JobPayload) (runAt now : Nat) :
    jobs.find (newJob jobs payload runAt now).id = none := by
  rw [jobs.find_eq_none_iff]
  intro j hj e
  exact freshNat_not_mem _ (List.mem_map.mpr ⟨j, hj, Option.some.inj e⟩)

theorem rows_enqueue (jobs : JobTable) (payload : JobPayload) (runAt now : Nat) :
    (enqueue jobs payload runAt now).rows = jobs.rows ++ [newJob jobs payload runAt now] :=
  jobs.upsert_of_free _ _ _ _ _ rfl (find_enqueue_fresh jobs payload runAt now)

theorem statusOf_enqueue (jobs : JobTable) (payload : JobPayload) (runAt now id : Nat) :
    statusOf (enqueue jobs payload runAt now) id =
      if id = (newJob jobs payload runAt now).id then some .pending else statusOf jobs id := by
  rw [statusOf, enqueue, jobs.find_upsert _ _ _ _ _ rfl, find_enqueue_fresh]
  split
  · rfl
  · rfl

theorem statusOf_write_id {jobs : JobTable} {id : Nat} {f : Job → Job}
    {hid : ∀ j, (f j).id = j.id} {now : Nat} {s : Status} (hs : ∀ j, (f j).status = s) (k : Nat) :
    statusOf (write jobs (fun j => j.id == id) f hid now) k =
      if k = id then (statusOf jobs k).map fun _ => s else statusOf jobs k := by
  rw [statusOf, write, jobs.find_updateWhere, statusOf]
  cases hk : jobs.find k with
  | none => simp
  | some j =>
    obtain ⟨-, hjk⟩ := (jobs.find_eq_some_iff k j).mp hk
    cases hjk
    by_cases h : j.id = id
    · simp [h, hs]
    · simp [h]

theorem statusOf_markCompleted (jobs : JobTable) (id now k : Nat) :
    statusOf (markCompleted jobs id now) k =
      if k = id then (statusOf jobs k).map fun _ => .completed else statusOf jobs k := by
  unfold markCompleted
  apply statusOf_write_id
  intro j
  rfl

theorem statusOf_markFailed (jobs : JobTable) (id : Nat) (error : String) (detail : Option String)
    (now k : Nat) :
    statusOf (markFailed jobs id error detail now) k =
      if k = id then (statusOf jobs k).map fun _ => .failed else statusOf jobs k := by
  unfold markFailed
  apply statusOf_write_id
  intro j
  rfl

theorem statusOf_revertPending (jobs : JobTable) (id now k : Nat) :
    statusOf (revertPending jobs id now) k =
      if k = id then (statusOf jobs k).map fun _ => .pending else statusOf jobs k := by
  unfold revertPending
  apply statusOf_write_id
  intro j
  rfl

theorem statusOf_rescheduleTransient (jobs : JobTable) (id : Nat) (error : String)
    (delay now k : Nat) :
    statusOf (rescheduleTransient jobs id error delay now) k =
      if k = id then (statusOf jobs k).map fun _ => .pending else statusOf jobs k := by
  unfold rescheduleTransient
  apply statusOf_write_id
  intro j
  rfl

theorem statusOf_casClaim {jobs jobs' : JobTable} {id now : Nat}
    (h : casClaim jobs id now = some jobs') :
    statusOf jobs id = some .pending ∧
      ∀ k, statusOf jobs' k = if k = id then some .running else statusOf jobs k := by
  unfold casClaim at h
  split at h
  case isFalse => cases h
  case isTrue hany =>
    cases h
    obtain ⟨j, hj, hp⟩ := List.any_eq_true.mp hany
    simp only [Bool.and_eq_true, beq_iff_eq, decide_eq_true_eq] at hp
    obtain ⟨rfl, hpend⟩ := hp
    have hfind : jobs.find j.id = some j := (jobs.find_eq_some_iff j.id j).mpr ⟨hj, rfl⟩
    refine ⟨by rw [statusOf, hfind, Option.map_some, hpend], ?_⟩
    intro k
    rw [statusOf, write, jobs.find_updateWhere, statusOf]
    by_cases hk : k = j.id
    · subst hk
      simp [hfind, hpend]
    · rw [if_neg hk]
      cases hk' : jobs.find k with
      | none => rfl
      | some j' =>
        obtain ⟨-, hjk⟩ := (jobs.find_eq_some_iff k j').mp hk'
        cases hjk
        simp [hk]

theorem statusOf_reclaimStaleRunning (jobs : JobTable) (now k : Nat) :
    statusOf (reclaimStaleRunning jobs now) k =
      (statusOf jobs k).map fun s => if s = .running then .pending else s := by
  rw [statusOf, reclaimStaleRunning, write, jobs.find_updateWhere, statusOf]
  cases jobs.find k with
  | none => rfl
  | some j =>
    by_cases h : j.status = .running
    · simp [h]
    · simp [h]

/-- A failed send ends the job or makes it pending again. -/
theorem statusOf_sendFailed (jobs : JobTable) (id : Nat) (category : String) (now : Nat) :
    ∃ s, (s = .pending ∨ s = .failed) ∧ ∀ k, statusOf (sendFailed jobs id category now) k =
      if k = id then (statusOf jobs k).map fun _ => s else statusOf jobs k := by
  unfold sendFailed
  dsimp only
  split
  · exact ⟨.pending, .inl rfl, statusOf_rescheduleTransient jobs id _ _ now⟩
  · split
    · exact ⟨.failed, .inr rfl, statusOf_markFailed jobs id _ none now⟩
    · exact ⟨.failed, .inr rfl, statusOf_markFailed jobs id _ none now⟩

/-! ## Pending and running sync jobs -/

def activeSyncs (jobs : JobTable) (a : Text) : Nat := jobs.rows.countP (Job.activeSync a)

theorem activeSyncs_enqueue (jobs : JobTable) (payload : JobPayload) (runAt now : Nat) (a : Text) :
    activeSyncs (enqueue jobs payload runAt now) a =
      activeSyncs jobs a + if payload.syncs = some a then 1 else 0 := by
  rw [activeSyncs, rows_enqueue, List.countP_append, List.countP_singleton, activeSyncs]
  cases payload <;> simp [Job.activeSync, newJob, payloadKind, JobPayload.syncs]

theorem activeSyncs_write {jobs : JobTable} {p : Job → Bool} {f : Job → Job}
    {hid : ∀ j, (f j).id = j.id} {now : Nat} {a : Text}
    (h : ∀ j ∈ jobs.rows, p j = true → (f j).activeSync a = true → j.activeSync a = true) :
    activeSyncs (write jobs p f hid now) a ≤ activeSyncs jobs a := by
  rw [activeSyncs, write, KeyedTable.updateWhere, List.countP_map]
  apply List.countP_mono_left
  intro j hj hact
  simp only [Function.comp] at hact
  split at hact
  · exact h j hj ‹_› hact
  · exact hact

theorem activeSync_of_status {a : Text} {j j' : Job} (h : j'.activeSync a = true)
    (hkind : j'.kind = j.kind) (hpayload : j'.payload = j.payload)
    (hstatus : j.status = .pending ∨ j.status = .running) : j.activeSync a = true := by
  unfold Job.activeSync at h ⊢
  rw [hkind, hpayload] at h
  simp only [Bool.and_eq_true, Bool.or_eq_true, decide_eq_true_eq] at h ⊢
  exact ⟨⟨h.1.1, hstatus⟩, h.2⟩

theorem not_activeSync {a : Text} {j : Job} (h : j.status = .completed ∨ j.status = .failed) :
    j.activeSync a = false := by
  rcases h with h | h <;> simp [Job.activeSync, h]

theorem activeSyncs_casClaim {jobs jobs' : JobTable} {id now : Nat} {a : Text}
    (h : casClaim jobs id now = some jobs') : activeSyncs jobs' a ≤ activeSyncs jobs a := by
  unfold casClaim at h
  split at h
  · cases h
    apply activeSyncs_write
    intro j _ hp hact
    simp only [Bool.and_eq_true, decide_eq_true_eq] at hp
    exact activeSync_of_status hact rfl rfl (.inl hp.2)
  · cases h

theorem activeSyncs_reclaimStaleRunning (jobs : JobTable) (now : Nat) (a : Text) :
    activeSyncs (reclaimStaleRunning jobs now) a ≤ activeSyncs jobs a := by
  apply activeSyncs_write
  intro j _ hp hact
  exact activeSync_of_status hact rfl rfl (.inr (of_decide_eq_true hp))

theorem status_of_id {jobs : JobTable} {id : Nat} {s : Status} (h : statusOf jobs id = some s)
    {j : Job} (hj : j ∈ jobs.rows) (hid : j.id = id) : j.status = s := by
  obtain ⟨k, hk, hkid, hks⟩ := statusOf_eq_some_iff.mp h
  rw [jobs.eq_of_pk hj hk (hid.trans hkid.symm)]
  exact hks

section Running

variable {jobs : JobTable} {id : Nat} (hrun : statusOf jobs id = some .running)
include hrun

theorem activeSyncs_revertPending (now : Nat) (a : Text) :
    activeSyncs (revertPending jobs id now) a ≤ activeSyncs jobs a := by
  apply activeSyncs_write
  intro j hj hp hact
  exact activeSync_of_status hact rfl rfl (.inr (status_of_id hrun hj (beq_iff_eq.mp hp)))

theorem activeSyncs_rescheduleTransient (error : String) (delay now : Nat) (a : Text) :
    activeSyncs (rescheduleTransient jobs id error delay now) a ≤ activeSyncs jobs a := by
  apply activeSyncs_write
  intro j hj hp hact
  exact activeSync_of_status hact rfl rfl (.inr (status_of_id hrun hj (beq_iff_eq.mp hp)))

end Running

theorem activeSyncs_markCompleted (jobs : JobTable) (id now : Nat) (a : Text) :
    activeSyncs (markCompleted jobs id now) a ≤ activeSyncs jobs a := by
  apply activeSyncs_write
  intro j _ _ hact
  rw [not_activeSync (.inl rfl)] at hact
  cases hact

theorem activeSyncs_markFailed (jobs : JobTable) (id : Nat) (error : String)
    (detail : Option String) (now : Nat) (a : Text) :
    activeSyncs (markFailed jobs id error detail now) a ≤ activeSyncs jobs a := by
  apply activeSyncs_write
  intro j _ _ hact
  rw [not_activeSync (.inr rfl)] at hact
  cases hact

theorem activeSyncs_sendFailed {jobs : JobTable} {id : Nat}
    (hrun : statusOf jobs id = some .running) (category : String) (now : Nat) (a : Text) :
    activeSyncs (sendFailed jobs id category now) a ≤ activeSyncs jobs a := by
  unfold sendFailed
  dsimp only
  split
  · exact activeSyncs_rescheduleTransient hrun _ _ now a
  · split
    · exact activeSyncs_markFailed jobs id _ none now a
    · exact activeSyncs_markFailed jobs id _ none now a

theorem activeSyncs_eq_zero {jobs : JobTable} {a : Text}
    (h : pendingOrRunningSyncJobId jobs a = none) : activeSyncs jobs a = 0 := by
  unfold pendingOrRunningSyncJobId at h
  rw [Option.map_eq_none_iff, List.find?_eq_none] at h
  rw [activeSyncs, List.countP_eq_zero]
  intro j hj hact
  unfold Job.activeSync at hact
  rw [Bool.and_eq_true] at hact
  exact h j (List.mem_mergeSort.mpr (List.mem_filter.mpr ⟨hj, hact.1⟩)) hact.2

end Lyra.Queue
