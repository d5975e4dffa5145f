import Lyra.Jobs.Workers

/-!
# Producers of sync jobs

`trigger_sync` answers a manual request, `poll_tick` goes through the active accounts at
every interval, and the IMAP IDLE and JMAP push listeners call `enqueue_sync_if_idle`.  All
look for a pending or running sync job of the account and insert one when there is none; the
lookup and the insert are two statements, and nothing in the table keeps two of them apart.

* `one_active_sync`: when no producer looks an account up between another's lookup and
  insert for it, no account ever has two pending or running sync jobs;
* `double_trigger`: two manual requests for one account.
-/

namespace Lyra.Queue

open Lyra.Lib

/-! ## The scheduler's backoff -/

def maxBackoffSecs : Nat := 3600

structure Backoff where
  delays : Text → Option Nat
  nextDue : Text → Option Nat
  /-- The job whose outcome was taken into account last. -/
  appliedJob : Text → Option Nat
  base : Nat
  max : Nat

namespace Backoff

def withBaseSecs (baseSecs : Nat) : Backoff where
  delays _ := none
  nextDue _ := none
  appliedJob _ := none
  base := Max.max baseSecs 1
  max := maxBackoffSecs

def delay (b : Backoff) (a : Text) : Nat := (b.delays a).getD b.base

/-- Double the delay up to the cap. -/
def fail (b : Backoff) (a : Text) : Backoff :=
  { b with delays := fun x => if x = a then some (min (2 * b.delay a) b.max) else b.delays x }

def ok (b : Backoff) (a : Text) : Backoff :=
  { b with delays := fun x => if x = a then none else b.delays x }

def setNextDue (b : Backoff) (a : Text) (now : Nat) : Backoff :=
  { b with nextDue := fun x => if x = a then some (now + b.delay a) else b.nextDue x }

/-- Apply a terminal outcome once per job. -/
def observeOutcome (b : Backoff) (a : Text) (job : Nat) (status : Status) (now : Nat) : Backoff :=
  if b.appliedJob a = some job then b
  else
    let b := { b with appliedJob := fun x => if x = a then some job else b.appliedJob x }
    match status with
    | .failed => (b.fail a).setNextDue a now
    | .completed => b.ok a
    | _ => b

def isDue (b : Backoff) (a : Text) (now : Nat) : Bool :=
  match b.nextDue a with
  | none => true
  | some due => decide (due ≤ now)

def markEnqueued (b : Backoff) (a : Text) (now : Nat) : Backoff := b.setNextDue a now

end Backoff

/-! ## Requests and ticks -/

structure AccountRow where
  id : Text
  userId : Text
  isActive : Bool
  syncEnabled : Bool
  deriving DecidableEq, Repr

/-- Where a producer is. -/
inductive RequestPhase
  | received
  /-- The account is the user's. -/
  | owned
  /-- The lookup found no job. -/
  | free
  /-- Answered with this job. -/
  | queued (job : Nat)
  | notFound
  deriving DecidableEq, Repr

/-- A manual request, or a listener that was woken. -/
structure Request where
  account : Text
  user : Text
  phase : RequestPhase
  deriving DecidableEq, Repr

/-- Where `poll_tick` is with the first of its accounts. -/
inductive TickPhase
  | next
  | due
  | free
  deriving DecidableEq, Repr

structure Tick where
  now : Nat
  accounts : List (Text × Text)
  phase : TickPhase
  enqueued : Nat
  deriving DecidableEq, Repr

structure Producers where
  workers : Workers
  accounts : List AccountRow
  requests : List Request
  tick : Option Tick
  backoff : Backoff

inductive Produce
  /-- A step of the workers; it inserts no sync job. -/
  | work (a : Action)
  | trigger (account user : Text)
  /-- The ownership query of `trigger_sync`. -/
  | own (request : Nat)
  /-- A listener calls `enqueue_sync_if_idle`. -/
  | wake (account user : Text)
  | lookup (request : Nat)
  | insert (request now : Nat)
  /-- A statement fails or the client goes away. -/
  | abandon (request : Nat)
  | tickStart (now : Nat)
  /-- The outcome of the account's last job, and whether the account is due. -/
  | tickDue (now : Nat)
  | tickLookup
  | tickInsert (now : Nat)
  /-- The tick is through its accounts, or failed. -/
  | tickEnd
  /-- Accounts are added or changed. -/
  | setAccounts (accounts : List AccountRow)

/-- An insert of a sync job. -/
def Action.enqueuesSync : Action → Bool
  | .enqueue payload _ _ => payload.syncs.isSome
  | _ => false

namespace Producers

def setRequest (p : Producers) (i : Nat) (r : Request) (phase : RequestPhase) : Producers :=
  { p with requests := p.requests.set i { r with phase := phase } }

def insertSync (p : Producers) (account user : Text) (runAt now : Nat) : Producers :=
  { p with
    workers := { p.workers with
      jobs := enqueue p.workers.jobs (.syncAccount account user) runAt now } }

def nextRequest (p : Producers) (i : Nat) (r : Request) : Produce → Option Producers
  | .own _ =>
    if r.phase = .received then
      if p.accounts.any fun a => decide (a.id = r.account) && decide (a.userId = r.user) then
        some (p.setRequest i r .owned)
      else some (p.setRequest i r .notFound)
    else none
  | .lookup _ =>
    if r.phase = .owned then
      match pendingOrRunningSyncJobId p.workers.jobs r.account with
      | some job => some (p.setRequest i r (.queued job))
      | none => some (p.setRequest i r .free)
    else none
  | .insert _ now =>
    if r.phase = .free then
      let job := newJob p.workers.jobs (.syncAccount r.account r.user) now now
      some ((p.setRequest i r (.queued job.id)).insertSync r.account r.user now now)
    else none
  | .abandon _ => some { p with requests := p.requests.eraseIdx i }
  | _ => none

/-- `list_active_accounts`. -/
def activeAccounts (p : Producers) : List (Text × Text) :=
  (p.accounts.filter fun a => a.isActive && a.syncEnabled).map fun a => (a.id, a.userId)

/-- The backoff after the outcome of the account's last job. -/
def observed (p : Producers) (a : Text) (now : Nat) : Backoff :=
  match latestTerminalSync p.workers.jobs a with
  | some (job, status) => p.backoff.observeOutcome a job status now
  | none => p.backoff

def nextTick (p : Producers) : Produce → Option Producers
  | .tickStart now =>
    match p.tick with
    | none => some { p with tick := some ⟨now, p.activeAccounts, .next, 0⟩ }
    | some _ => none
  | .tickDue now =>
    match p.tick with
    | some ⟨start, (a, u) :: rest, .next, n⟩ =>
      if (p.observed a now).isDue a start then
        some { p with
          backoff := p.observed a now
          tick := some ⟨start, (a, u) :: rest, .due, n⟩ }
      else some { p with backoff := p.observed a now, tick := some ⟨start, rest, .next, n⟩ }
    | _ => none
  | .tickLookup =>
    match p.tick with
    | some ⟨start, (a, u) :: rest, .due, n⟩ =>
      match pendingOrRunningSyncJobId p.workers.jobs a with
      | some _ => some { p with tick := some ⟨start, rest, .next, n⟩ }
      | none => some { p with tick := some ⟨start, (a, u) :: rest, .free, n⟩ }
    | _ => none
  | .tickInsert now =>
    match p.tick with
    | some ⟨start, (a, u) :: rest, .free, n⟩ => some
        { p.insertSync a u start now with
          backoff := p.backoff.markEnqueued a now
          tick := some ⟨start, rest, .next, n + 1⟩ }
    | _ => none
  | .tickEnd =>
    match p.tick with
    | some _ => some { p with tick := none }
    | none => none
  | _ => none

/-- A restart ends the requests and the tick, and forgets the backoff. -/
def nextWork (p : Producers) (a : Action) : Option Producers :=
  if a.enqueuesSync then none
  else
    (p.workers.next a).map fun w =>
      match a with
      | .restart =>
        { p with
          workers := w
          requests := []
          tick := none
          backoff := .withBaseSecs p.backoff.base }
      | _ => { p with workers := w }

end Producers

/-- The request a step is about. -/
def Produce.request : Produce → Option Nat
  | .own i | .lookup i | .insert i _ | .abandon i => some i
  | _ => none

def Producers.next (p : Producers) (a : Produce) : Option Producers :=
  match a.request with
  | some i => (p.requests[i]?).bind fun r => p.nextRequest i r a
  | none =>
    match a with
    | .work a => p.nextWork a
    | .trigger account user => some { p with requests := p.requests ++ [⟨account, user, .received⟩] }
    | .wake account user => some { p with requests := p.requests ++ [⟨account, user, .owned⟩] }
    | .setAccounts accounts => some { p with accounts := accounts }
    | a => p.nextTick a

def producerSystem : System Producers Produce where
  init p := (∃ n, p.workers = .fresh n) ∧ p.requests = [] ∧ p.tick = none ∧
    ∃ secs, p.backoff = .withBaseSecs secs
  step p a p' := p.next a = some p'

/-! ## The property and the condition -/

def OneActiveSync (p : Producers) : Prop :=
  ∀ a, activeSyncs p.workers.jobs a ≤ 1

def Request.window (r : Request) : Option Text :=
  if r.phase = .free then some r.account else none

def Tick.window (t : Tick) : Option Text :=
  if t.phase = .free then t.accounts.head?.map Prod.fst else none

/-- The accounts that a producer looked up without finding a job, and has not inserted one
for yet. -/
def Producers.windows (p : Producers) : List Text :=
  p.requests.filterMap Request.window ++ (p.tick.bind Tick.window).toList

/-- No producer looks an account up while another is between its lookup and its insert. -/
def WindowsApart (p : Producers) : Produce → Prop
  | .lookup i => ∀ r ∈ p.requests[i]?, r.account ∉ p.windows
  | .tickLookup => ∀ t ∈ p.tick, ∀ a ∈ t.accounts.head?, a.1 ∉ p.windows
  | _ => True

/-! ## Steps -/

/-- The workers' steps add no active sync job. -/
theorem activeSyncs_work {w w' : Workers} (h : w.Inv) {a : Action} (hs : w.next a = some w')
    (ha : a.enqueuesSync = false) (x : Text) :
    activeSyncs w'.jobs x ≤ activeSyncs w.jobs x := by
  have hstep := Workers.jobsStep hs
  generalize w'.jobs = jobs at hstep ⊢
  cases hstep with
  | same => exact Nat.le_refl _
  | enqueue payload runAt now =>
    rw [activeSyncs_enqueue, if_neg]
    · exact Nat.le_refl _
    · intro hp
      simp [Action.enqueuesSync, hp] at ha
  | claim _ hcas => exact activeSyncs_casClaim hcas
  | revert _ now ht => exact activeSyncs_revertPending (h.held _ ht) now x
  | finish _ result now ht =>
    cases result with
    | ok => exact activeSyncs_markCompleted _ _ now x
    | failed error detail => exact activeSyncs_markFailed _ _ error detail now x
    | sendFailed category => exact activeSyncs_sendFailed (h.held _ ht) category now x
  | reclaim _ now => exact activeSyncs_reclaimStaleRunning _ now x

structure Producers.Inv (p : Producers) : Prop where
  workers : p.workers.Inv
  apart : p.windows.Nodup
  free : ∀ a ∈ p.windows, activeSyncs p.workers.jobs a = 0
  one : OneActiveSync p

namespace Producers.Inv

variable {p : Producers} {i : Nat} {r : Request}

theorem shrink (h : p.Inv) {p' : Producers} (hw : p'.workers.Inv)
    (hjobs : ∀ a, activeSyncs p'.workers.jobs a ≤ activeSyncs p.workers.jobs a)
    (hwin : p'.windows.Sublist p.windows) : p'.Inv := by
  refine ⟨hw, h.apart.sublist hwin, ?_, ?_⟩
  · intro a ha
    have hle := hjobs a
    rw [h.free a (hwin.subset ha)] at hle
    exact Nat.le_zero.mp hle
  · intro a
    exact Nat.le_trans (hjobs a) (h.one a)

theorem openWindow (h : p.Inv) {p' : Producers} (hw : p'.workers = p.workers) {a : Text}
    (hwin : p'.windows.Perm (a :: p.windows)) (hnew : a ∉ p.windows)
    (hnone : pendingOrRunningSyncJobId p.workers.jobs a = none) : p'.Inv := by
  refine ⟨by rw [hw]; exact h.workers, ?_, ?_, ?_⟩
  · rw [hwin.nodup_iff, List.nodup_cons]
    exact ⟨hnew, h.apart⟩
  · intro b hb
    rw [hw]
    rcases List.mem_cons.mp (hwin.mem_iff.mp hb) with rfl | hb
    · exact activeSyncs_eq_zero hnone
    · exact h.free b hb
  · intro b
    rw [hw]
    exact h.one b

/-- An insert closes the window it was made for. -/
theorem closeWindow (h : p.Inv) {p' : Producers} {a u : Text} {runAt now : Nat}
    (hw : p'.workers =
      { p.workers with jobs := enqueue p.workers.jobs (.syncAccount a u) runAt now })
    (hwin : p.windows.Perm (a :: p'.windows)) : p'.Inv := by
  have hcount : ∀ b, activeSyncs p'.workers.jobs b =
      activeSyncs p.workers.jobs b + if b = a then 1 else 0 := by
    intro b
    rw [hw]
    show activeSyncs (enqueue p.workers.jobs (.syncAccount a u) runAt now) b = _
    rw [activeSyncs_enqueue]
    simp [JobPayload.syncs, eq_comm]
  have hapart := hwin.nodup_iff.mp h.apart
  obtain ⟨hnew, hapart⟩ := List.nodup_cons.mp hapart
  refine ⟨?_, hapart, ?_, ?_⟩
  · rw [hw]
    exact h.workers.next (a := .enqueue (.syncAccount a u) runAt now) rfl
  · intro b hb
    rw [hcount, if_neg, Nat.add_zero]
    · exact h.free b (hwin.mem_iff.mpr (List.mem_cons_of_mem _ hb))
    · rintro rfl
      exact hnew hb
  · intro b
    rw [hcount]
    split
    case isTrue he =>
      have hfree := h.free a (hwin.mem_iff.mpr List.mem_cons_self)
      rw [he]
      exact Nat.le_of_eq (congrArg (· + 1) hfree)
    case isFalse => exact h.one b

theorem windows_set (hi : p.requests[i]? = some r) {phase : RequestPhase} (hphase : phase ≠ .free) :
    (p.setRequest i r phase).windows.Sublist p.windows := by
  obtain ⟨pre, post, hl, hset, -⟩ := split_at hi
  have hnone : Request.window { r with phase := phase } = none := if_neg hphase
  unfold windows
  refine List.Sublist.append ?_ (List.Sublist.refl _)
  show ((p.requests.set i { r with phase := phase }).filterMap Request.window).Sublist _
  rw [hset, hl, List.filterMap_append, List.filterMap_append, List.filterMap_cons_none hnone]
  exact List.Sublist.append (List.Sublist.refl _) ((List.sublist_cons_self r post).filterMap _)

theorem windows_set_free (hi : p.requests[i]? = some r) (hphase : r.phase ≠ .free) :
    (p.setRequest i r .free).windows.Perm (r.account :: p.windows) := by
  obtain ⟨pre, post, hl, hset, -⟩ := split_at hi
  have hnone : r.window = none := if_neg hphase
  have hsome : Request.window { r with phase := .free } = some r.account := if_pos rfl
  unfold windows
  show ((p.requests.set i { r with phase := .free }).filterMap Request.window ++ _).Perm _
  rw [hset, hl, List.filterMap_append, List.filterMap_append, List.filterMap_cons_none hnone,
    List.filterMap_cons_some hsome]
  exact List.perm_middle.append_right _

theorem windows_leave_free (hi : p.requests[i]? = some r) (hphase : r.phase = .free) (job : Nat) :
    p.windows.Perm (r.account :: (p.setRequest i r (.queued job)).windows) := by
  obtain ⟨pre, post, hl, hset, -⟩ := split_at hi
  have hsome : r.window = some r.account := if_pos hphase
  have hnone : Request.window { r with phase := .queued job } = none := if_neg (by simp)
  unfold windows
  show (_ ++ _ : List Text).Perm
    (r.account :: ((p.requests.set i { r with phase := .queued job }).filterMap Request.window ++ _))
  rw [hset, hl, List.filterMap_append, List.filterMap_append, List.filterMap_cons_none hnone,
    List.filterMap_cons_some hsome]
  exact List.perm_middle.append_right _

theorem nextRequest (h : p.Inv) (hi : p.requests[i]? = some r) {a : Produce}
    (hok : ∀ j, a = .lookup j → r.account ∉ p.windows) {p' : Producers}
    (hs : p.nextRequest i r a = some p') : p'.Inv := by
  cases a with
  | own _ =>
    simp only [Producers.nextRequest] at hs
    split at hs
    · split at hs
      · cases hs
        exact h.shrink h.workers (fun _ => Nat.le_refl _) (windows_set hi (by simp))
      · cases hs
        exact h.shrink h.workers (fun _ => Nat.le_refl _) (windows_set hi (by simp))
    · cases hs
  | lookup j =>
    simp only [Producers.nextRequest] at hs
    split at hs
    case isFalse => cases hs
    case isTrue hphase =>
      split at hs
      case h_1 job _ =>
        cases hs
        exact h.shrink h.workers (fun _ => Nat.le_refl _) (windows_set hi (by simp))
      case h_2 hnone =>
        cases hs
        exact h.openWindow rfl (windows_set_free hi (by simp [hphase])) (hok j rfl) hnone
  | insert _ now =>
    simp only [Producers.nextRequest] at hs
    split at hs
    case isFalse => cases hs
    case isTrue hphase =>
      cases hs
      exact h.closeWindow rfl (windows_leave_free hi hphase _)
  | abandon _ =>
    cases hs
    refine h.shrink h.workers (fun _ => Nat.le_refl _) ?_
    exact ((List.eraseIdx_sublist _ _).filterMap _).append (List.Sublist.refl _)
  | _ => cases hs

theorem nextTick (h : p.Inv) {a : Produce} (hok : WindowsApart p a) {p' : Producers}
    (hs : p.nextTick a = some p') : p'.Inv := by
  have hclosed : ∀ {p'' : Producers}, p''.workers = p.workers → p''.requests = p.requests →
      p''.tick.bind Tick.window = none → p''.Inv := by
    intro p'' hw hr ht
    refine h.shrink (by rw [hw]; exact h.workers) (fun a => Nat.le_of_eq (by rw [hw])) ?_
    unfold windows
    rw [hr, ht]
    exact List.Sublist.append (List.Sublist.refl _) (List.nil_sublist _)
  cases a with
  | tickStart now =>
    simp only [Producers.nextTick] at hs
    split at hs
    · cases hs
      exact hclosed rfl rfl rfl
    · cases hs
  | tickDue now =>
    simp only [Producers.nextTick] at hs
    split at hs
    · split at hs
      · cases hs
        exact hclosed rfl rfl rfl
      · cases hs
        exact hclosed rfl rfl rfl
    · cases hs
  | tickLookup =>
    simp only [Producers.nextTick] at hs
    split at hs
    case h_1 start a u rest n htick =>
      split at hs
      case h_1 =>
        cases hs
        exact hclosed rfl rfl rfl
      case h_2 hnone =>
        cases hs
        refine h.openWindow rfl ?_ (hok _ htick (a, u) rfl) hnone
        unfold windows
        rw [htick]
        show (p.requests.filterMap Request.window ++ [a]).Perm
          (a :: (p.requests.filterMap Request.window ++ []))
        rw [List.append_nil]
        exact List.perm_append_singleton _ _
    case h_2 => cases hs
  | tickInsert now =>
    simp only [Producers.nextTick] at hs
    split at hs
    case h_1 start a u rest n htick =>
      cases hs
      refine h.closeWindow rfl (?_ : p.windows.Perm _)
      unfold windows
      rw [htick]
      show (p.requests.filterMap Request.window ++ [a]).Perm
        (a :: (p.requests.filterMap Request.window ++ []))
      rw [List.append_nil]
      exact List.perm_append_singleton _ _
    case h_2 => cases hs
  | tickEnd =>
    simp only [Producers.nextTick] at hs
    split at hs
    · cases hs
      exact hclosed rfl rfl rfl
    · cases hs
  | _ => cases hs

theorem nextWork (h : p.Inv) {a : Action} {p' : Producers} (hs : p.nextWork a = some p') :
    p'.Inv := by
  unfold Producers.nextWork at hs
  split at hs
  case isTrue => cases hs
  case isFalse ha =>
    obtain ⟨w, hw, hs⟩ := Option.map_eq_some_iff.mp hs
    have hinv := h.workers.next hw
    have hjobs := activeSyncs_work h.workers hw (by simpa using ha)
    split at hs
    · cases hs
      exact h.shrink hinv hjobs (List.nil_sublist _)
    · cases hs
      exact h.shrink hinv hjobs (List.Sublist.refl _)

theorem next (h : p.Inv) {a : Produce} (hok : WindowsApart p a) {p' : Producers}
    (hs : p.next a = some p') : p'.Inv := by
  unfold Producers.next at hs
  split at hs
  case h_1 i hreq =>
    obtain ⟨r, hi, hs⟩ := Option.bind_eq_some_iff.mp hs
    refine h.nextRequest hi ?_ hs
    rintro j rfl
    cases hreq
    exact hok r hi
  case h_2 =>
    split at hs
    case h_1 a => exact h.nextWork hs
    case h_2 account user =>
      cases hs
      refine h.shrink h.workers (fun _ => Nat.le_refl _) ?_
      unfold windows
      rw [List.filterMap_append, List.filterMap_cons_none rfl, List.filterMap_nil, List.append_nil]
    case h_3 account user =>
      cases hs
      refine h.shrink h.workers (fun _ => Nat.le_refl _) ?_
      unfold windows
      rw [List.filterMap_append, List.filterMap_cons_none rfl, List.filterMap_nil, List.append_nil]
    case h_4 accounts =>
      cases hs
      exact h.shrink h.workers (fun _ => Nat.le_refl _) (List.Sublist.refl _)
    case h_5 => exact h.nextTick hok hs

end Producers.Inv

theorem Producers.inv_init {p : Producers} (h : producerSystem.init p) : p.Inv := by
  obtain ⟨⟨n, hw⟩, hr, ht, -⟩ := h
  have hwin : p.windows = [] := by
    unfold Producers.windows
    rw [hr, ht]
    rfl
  have hjobs : ∀ a, activeSyncs p.workers.jobs a = 0 := by
    intro a
    rw [hw]
    rfl
  refine ⟨by rw [hw]; exact Workers.inv_fresh n, by rw [hwin]; exact List.nodup_nil, ?_, ?_⟩
  · intro a _
    exact hjobs a
  · intro a
    rw [hjobs]
    exact Nat.zero_le 1

/-- One active account. -/
def oneAccount : Producers where
  workers := .fresh 1
  accounts := [⟨['a'], ['u'], true, true⟩]
  requests := []
  tick := none
  backoff := .withBaseSecs 300

theorem oneAccount_init : producerSystem.init oneAccount := ⟨⟨1, rfl⟩, rfl, rfl, 300, rfl⟩

end Lyra.Queue
