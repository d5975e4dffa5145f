import Lyra.Store.Schema
import Mathlib.Data.List.Nodup
import Mathlib.Data.List.Infix

/-!
# IDLE watchers

The supervisor keeps one watcher task for each account it lists.  A pass compares the ids of the
accounts with those of the tasks; a watcher keeps the account it was started with.

* `supervised_run`: every running task is in the map, under its account's id, in every run;
* `runsAt_reconcile`: what runs after a pass ran before it and is still wanted, or is new;
* `follows_iff`: the watchers follow the accounts after every pass of a run exactly where no pass
  of it finds a watcher with settings that have changed.
-/

namespace Lyra.Imap

/-! ## Accounts -/

structure IdleAccount where
  id : AccountId
  userId : Text
  emailAddress : Text
  authType : Text
  credential : Text
  imapHost : Option Text
  imapPort : Option Int
  imapSecurity : Option Text
  deriving DecidableEq, Repr

/-- A row of `mail_account`, as far as the supervisor reads it. -/
structure MailAccountRow extends IdleAccount where
  isActive : Bool
  syncEnabled : Bool
  receiveProtocol : Option Text
  deriving DecidableEq, Repr

def MailAccountRow.isCandidate (row : MailAccountRow) : Bool :=
  row.isActive && row.syncEnabled && row.receiveProtocol == some "imap".toList

/-- `list_imap_idle_candidates`. -/
def listImapIdleCandidates (rows : List MailAccountRow) : List IdleAccount :=
  (rows.filter MailAccountRow.isCandidate).map MailAccountRow.toIdleAccount

inductive ImapSecurity where
  | tls
  | starttls
  deriving DecidableEq, Repr

def normalizeSecurityMode (value : Text) : Except Text Text :=
  let other := value.map Char.toLower
  if other = "tls".toList then .ok "tls".toList
  else if other = "starttls".toList then .ok "starttls".toList
  else .error ("unsupported security mode '".toList ++ other ++
    ("': only 'tls' and 'starttls' are supported (insecure plaintext mode was removed); " ++
      "update the account to fix this").toList)

/-- What a watcher connects with; without a host, or with a mode that is refused, it does not. -/
structure IdleSettings where
  host : Option Text
  port : Int
  security : Except Text ImapSecurity
  credential : Text
  deriving DecidableEq

/-- `u16::try_from(port.unwrap_or(993)).unwrap_or(993)`. -/
def idlePort (imapPort : Option Int) : Int :=
  let port := imapPort.getD 993
  if 0 ≤ port ∧ port < 65536 then port else 993

def idleSecurity : Option Text → Except Text ImapSecurity
  | some s =>
    match normalizeSecurityMode s with
    | .ok mode => .ok (if mode = "starttls".toList then .starttls else .tls)
    | .error e => .error e
  | none => .ok .tls

/-- The settings `watch_once` reads from the account it was given. -/
def IdleAccount.settings (a : IdleAccount) : IdleSettings where
  host := a.imapHost
  port := idlePort a.imapPort
  security := idleSecurity a.imapSecurity
  credential := a.credential

/-! ## The supervisor -/

/-- A join handle: the number of the task among those spawned. -/
abbrev JoinHandle := Nat

/-- The task of `run_account_idle_loop`, which holds its account until it returns or is aborted. -/
structure Watcher where
  account : IdleAccount
  isFinished : Bool
  deriving DecidableEq, Repr

def Watcher.stop (w : Watcher) : Watcher := { w with isFinished := true }

/-- The accounts, the tasks in the order they were spawned, and the map `running`. -/
structure Supervisor where
  rows : List MailAccountRow
  tasks : List Watcher
  running : List (AccountId × JoinHandle)
  deriving DecidableEq, Repr

/-- `start_idle_supervisor`. -/
def Supervisor.start (rows : List MailAccountRow) : Supervisor := ⟨rows, [], []⟩

def abortAll (tasks : List Watcher) (handles : List JoinHandle) : List Watcher :=
  handles.foldl (fun tasks i => tasks.modify i Watcher.stop) tasks

def dropStale (wanted : List AccountId) (s : Supervisor) : Supervisor :=
  let stale := s.running.filter fun e => !wanted.contains e.1
  { s with
    tasks := abortAll s.tasks (stale.map Prod.snd)
    running := s.running.filter fun e => wanted.contains e.1 }

/-- Finished tasks can be restarted. -/
def dropFinished (s : Supervisor) : Supervisor :=
  { s with running := s.running.filter fun e => s.tasks[e.2]?.any fun w => !w.isFinished }

def startOne (s : Supervisor) (a : IdleAccount) : Supervisor :=
  if s.running.any (fun e => e.1 == a.id) then s
  else
    { s with
      tasks := s.tasks ++ [⟨a, false⟩]
      running := s.running ++ [(a.id, s.tasks.length)] }

/-- `reconcile_watchers`, where its query succeeds. -/
def reconcile (s : Supervisor) : Supervisor :=
  let accounts := listImapIdleCandidates s.rows
  let wanted := accounts.map IdleAccount.id
  accounts.foldl startOne (dropFinished (dropStale wanted s))

/-- `reconcile_watchers`; a query that fails ends it. -/
def reconcileWatchers (listed : Bool) (s : Supervisor) : Supervisor :=
  if listed then reconcile s else s

inductive IdleEvent where
  /-- Accounts are added, changed or deleted. -/
  | accounts (rows : List MailAccountRow)
  /-- A watcher ends by itself: the server has no IDLE. -/
  | exits (i : JoinHandle)
  | pass (listed : Bool)
  deriving DecidableEq, Repr

def Supervisor.next (s : Supervisor) : IdleEvent → Supervisor
  | .accounts rows => { s with rows := rows }
  | .exits i => { s with tasks := s.tasks.modify i Watcher.stop }
  | .pass listed => reconcileWatchers listed s

def Supervisor.run (s : Supervisor) (events : List IdleEvent) : Supervisor :=
  events.foldl Supervisor.next s

/-! ## Following the accounts -/

/-- An active, sync-enabled IMAP account with the id and the settings of the watcher's. -/
def Supervisor.Current (s : Supervisor) (w : Watcher) : Prop :=
  ∃ a ∈ listImapIdleCandidates s.rows, a.id = w.account.id ∧ a.settings = w.account.settings

structure Supervisor.Follows (s : Supervisor) : Prop where
  current : ∀ w ∈ s.tasks, w.isFinished = false → s.Current w
  single : ∀ (i j : JoinHandle) (w v : Watcher), s.tasks[i]? = some w → s.tasks[j]? = some v →
    w.isFinished = false → v.isFinished = false → w.account.id = v.account.id → i = j

/-- What a pass must find: a watcher that it will leave running has the settings of its account. -/
def Supervisor.UpToDate (listed : Bool) (s : Supervisor) : Prop :=
  ∀ w ∈ s.tasks, w.isFinished = false →
    (listed = true → w.account.id ∈ (listImapIdleCandidates s.rows).map IdleAccount.id) →
    s.Current w

/-! ## Tasks and the map -/

/-- The map's entries are tasks of their account, one for each id, and no task runs outside it. -/
structure Supervised (s : Supervisor) : Prop where
  owned : ∀ e ∈ s.running, ∃ w, s.tasks[e.2]? = some w ∧ w.account.id = e.1
  handled : ∀ (i : JoinHandle) (w : Watcher), s.tasks[i]? = some w → w.isFinished = false →
    (w.account.id, i) ∈ s.running
  keys : (s.running.map Prod.fst).Nodup

section Tasks

variable {s : Supervisor} {w : Watcher} {i : JoinHandle}

theorem getElem?_abortAll (tasks : List Watcher) (handles : List JoinHandle) (i : JoinHandle) :
    (abortAll tasks handles)[i]? =
      tasks[i]?.map fun w => if i ∈ handles then w.stop else w := by
  induction handles generalizing tasks with
  | nil => simp [abortAll]
  | cons h handles ih =>
    have hcons : abortAll tasks (h :: handles) =
        abortAll (tasks.modify h Watcher.stop) handles := rfl
    rw [hcons, ih, List.getElem?_modify]
    cases tasks[i]? with
    | none => simp
    | some w =>
      by_cases hi : h = i
      · subst hi
        simp [Watcher.stop]
      · have hne : i ≠ h := fun e => hi e.symm
        simp [hi, hne]

/-- A watcher runs with handle `i`. -/
def Supervisor.RunsAt (s : Supervisor) (i : JoinHandle) (w : Watcher) : Prop :=
  s.tasks[i]? = some w ∧ w.isFinished = false

theorem mem_running_iff (h : Supervised s) {id : AccountId} :
    (id, i) ∈ s.running ∧ (s.tasks[i]?.any fun w => !w.isFinished) = true ↔
      ∃ w, s.RunsAt i w ∧ w.account.id = id := by
  constructor
  · rintro ⟨hmem, hany⟩
    obtain ⟨w, hw, hid⟩ := h.owned _ hmem
    rw [hw] at hany
    exact ⟨w, ⟨hw, by simpa using hany⟩, hid⟩
  · rintro ⟨w, ⟨hw, hrun⟩, rfl⟩
    exact ⟨h.handled i w hw hrun, by simp [hw, hrun]⟩

/-! ## One pass -/

theorem runsAt_dropStale {wanted : List AccountId} (h : Supervised s) :
    (dropStale wanted s).RunsAt i w ↔ s.RunsAt i w ∧ w.account.id ∈ wanted := by
  unfold Supervisor.RunsAt dropStale
  rw [getElem?_abortAll]
  constructor
  · rintro ⟨htask, hrun⟩
    obtain ⟨v, hv, hstop⟩ := Option.map_eq_some_iff.mp htask
    split at hstop
    · rw [← hstop] at hrun
      cases hrun
    · rename_i hkept
      subst hstop
      refine ⟨⟨hv, hrun⟩, ?_⟩
      by_contra hunwanted
      refine hkept (List.mem_map.mpr ⟨(v.account.id, i), ?_, rfl⟩)
      exact List.mem_filter.mpr ⟨h.handled i v hv hrun, by simpa using hunwanted⟩
  · rintro ⟨⟨hv, hrun⟩, hwanted⟩
    refine ⟨?_, hrun⟩
    rw [hv, Option.map_some, if_neg]
    intro hstale
    obtain ⟨e, he, rfl⟩ := List.mem_map.mp hstale
    obtain ⟨hmem, hunwanted⟩ := List.mem_filter.mp he
    obtain ⟨v, hv', hid⟩ := h.owned e hmem
    rw [hv] at hv'
    cases hv'
    rw [← hid] at hunwanted
    simp [hwanted] at hunwanted

theorem supervised_dropStale (wanted : List AccountId) (h : Supervised s) :
    Supervised (dropStale wanted s) where
  owned := by
    intro e he
    obtain ⟨w, hw, hid⟩ := h.owned e (List.mem_filter.mp he).1
    unfold dropStale
    rw [getElem?_abortAll, hw]
    refine ⟨_, rfl, ?_⟩
    split
    · exact hid
    · exact hid
  handled := by
    intro i w hw hrun
    obtain ⟨⟨hw, hrun⟩, hwanted⟩ := (runsAt_dropStale h).mp ⟨hw, hrun⟩
    exact List.mem_filter.mpr ⟨h.handled i w hw hrun, by simpa using hwanted⟩
  keys := h.keys.sublist (List.filter_sublist.map Prod.fst)

theorem supervised_dropFinished (h : Supervised s) : Supervised (dropFinished s) where
  owned := by
    intro e he
    exact h.owned e (List.mem_filter.mp he).1
  handled := by
    intro i w hw hrun
    exact List.mem_filter.mpr ((mem_running_iff h).mpr ⟨w, ⟨hw, hrun⟩, rfl⟩)
  keys := h.keys.sublist (List.filter_sublist.map Prod.fst)

theorem supervised_startOne (a : IdleAccount) (h : Supervised s) : Supervised (startOne s a) := by
  unfold startOne
  split
  · exact h
  · rename_i hnew
    have habsent : a.id ∉ s.running.map Prod.fst := by
      intro hmem
      obtain ⟨e, he, hid⟩ := List.mem_map.mp hmem
      exact hnew (List.any_eq_true.mpr ⟨e, he, by simpa using hid⟩)
    refine ⟨?_, ?_, ?_⟩
    · intro e he
      rcases List.mem_append.mp he with he | he
      · obtain ⟨w, hw, hid⟩ := h.owned e he
        exact ⟨w, List.getElem?_append_left (List.getElem?_eq_some_iff.mp hw).1 ▸ hw, hid⟩
      · rw [List.mem_singleton.mp he]
        exact ⟨⟨a, false⟩, by simp, rfl⟩
    · intro i w hw hrun
      rcases Nat.lt_or_ge i s.tasks.length with hi | hi
      · rw [List.getElem?_append_left hi] at hw
        exact List.mem_append_left _ (h.handled i w hw hrun)
      · rw [List.getElem?_append_right hi, List.getElem?_singleton] at hw
        split at hw
        · rename_i hzero
          cases hw
          have hlast : i = s.tasks.length :=
            Nat.le_antisymm (Nat.le_of_sub_eq_zero hzero) hi
          rw [hlast]
          exact List.mem_append_right _ (List.mem_singleton.mpr rfl)
        · cases hw
    · rw [List.map_append]
      exact h.keys.append (List.nodup_singleton _) (by simpa using habsent)

/-- `t` is `s` after some of `accounts` have been started. -/
structure Started (accounts : List IdleAccount) (s t : Supervisor) : Prop where
  rows : t.rows = s.rows
  runs : ∀ i w, t.RunsAt i w → s.RunsAt i w ∨ w.account ∈ accounts
  kept : ∀ i w, s.RunsAt i w → t.RunsAt i w

theorem started_startOne (s : Supervisor) (a : IdleAccount) : Started [a] s (startOne s a) := by
  unfold startOne
  split
  · exact ⟨rfl, fun i w h => .inl h, fun i w h => h⟩
  · refine ⟨rfl, ?_, ?_⟩
    · rintro i w ⟨hw, hrun⟩
      rcases Nat.lt_or_ge i s.tasks.length with hi | hi
      · rw [List.getElem?_append_left hi] at hw
        exact .inl ⟨hw, hrun⟩
      · rw [List.getElem?_append_right hi, List.getElem?_singleton] at hw
        split at hw
        · cases hw
          exact .inr (List.mem_singleton.mpr rfl)
        · cases hw
    · rintro i w ⟨hw, hrun⟩
      exact ⟨List.getElem?_append_left (List.getElem?_eq_some_iff.mp hw).1 ▸ hw, hrun⟩

theorem started_foldl (accounts : List IdleAccount) (s : Supervisor) :
    Started accounts s (accounts.foldl startOne s) := by
  induction accounts generalizing s with
  | nil => exact ⟨rfl, fun i w h => .inl h, fun i w h => h⟩
  | cons a accounts ih =>
    have hone := started_startOne s a
    have hrest := ih (startOne s a)
    refine ⟨hrest.rows.trans hone.rows, ?_, fun i w h => hrest.kept i w (hone.kept i w h)⟩
    intro i w h
    rcases hrest.runs i w h with h | h
    · rcases hone.runs i w h with h | h
      · exact .inl h
      · rw [List.mem_singleton.mp h]
        exact .inr List.mem_cons_self
    · exact .inr (List.mem_cons_of_mem a h)

theorem supervised_foldl (accounts : List IdleAccount) (h : Supervised s) :
    Supervised (accounts.foldl startOne s) := by
  induction accounts generalizing s with
  | nil => exact h
  | cons a accounts ih => exact ih (supervised_startOne a h)

theorem supervised_reconcileWatchers (listed : Bool) (h : Supervised s) :
    Supervised (reconcileWatchers listed s) := by
  cases listed with
  | false => exact h
  | true => exact supervised_foldl _ (supervised_dropFinished (supervised_dropStale _ h))

theorem rows_reconcileWatchers (listed : Bool) (s : Supervisor) :
    (reconcileWatchers listed s).rows = s.rows := by
  cases listed with
  | false => rfl
  | true => exact (started_foldl (listImapIdleCandidates s.rows) _).rows

theorem runsAt_reconcile (h : Supervised s)
    (hrun : (reconcile s).RunsAt i w) :
    (s.RunsAt i w ∧ w.account.id ∈ (listImapIdleCandidates s.rows).map IdleAccount.id) ∨
      w.account ∈ listImapIdleCandidates s.rows := by
  rcases (started_foldl _ _).runs i w hrun with hold | hnew
  · exact .inl ((runsAt_dropStale h).mp hold)
  · exact .inr hnew

theorem reconcile_runsAt (h : Supervised s) (hrun : s.RunsAt i w)
    (hwanted : w.account.id ∈ (listImapIdleCandidates s.rows).map IdleAccount.id) :
    (reconcile s).RunsAt i w :=
  (started_foldl _ _).kept i w ((runsAt_dropStale h).mpr ⟨hrun, hwanted⟩)

/-! ## Runs -/

theorem single_of_supervised (h : Supervised s) {j : JoinHandle} {v : Watcher}
    (hw : s.RunsAt i w) (hv : s.RunsAt j v) (hid : w.account.id = v.account.id) : i = j := by
  have hi := h.handled i w hw.1 hw.2
  have hj := h.handled j v hv.1 hv.2
  rw [hid] at hi
  exact congrArg Prod.snd (List.inj_on_of_nodup_map h.keys hi hj rfl)

theorem supervised_start (rows : List MailAccountRow) : Supervised (Supervisor.start rows) where
  owned := by
    intro e he
    cases he
  handled := by
    intro i w hw
    simp [Supervisor.start] at hw
  keys := List.nodup_nil

theorem supervised_next (e : IdleEvent) (h : Supervised s) : Supervised (s.next e) := by
  cases e with
  | accounts rows => exact ⟨h.owned, h.handled, h.keys⟩
  | exits i =>
    refine ⟨?_, ?_, h.keys⟩
    · intro e he
      obtain ⟨w, hw, hid⟩ := h.owned e he
      refine ⟨if i = e.2 then w.stop else w, ?_, ?_⟩
      · simp [Supervisor.next, List.getElem?_modify, hw]
      · split
        · exact hid
        · exact hid
    · intro j w hw hrun
      simp only [Supervisor.next, List.getElem?_modify] at hw
      obtain ⟨v, hv, rfl⟩ := Option.map_eq_some_iff.mp hw
      split at hrun
      · cases hrun
      · rename_i hne
        rw [if_neg hne]
        exact h.handled j v hv hrun
  | pass listed => exact supervised_reconcileWatchers listed h

theorem supervised_run (events : List IdleEvent) (h : Supervised s) :
    Supervised (s.run events) := by
  induction events generalizing s with
  | nil => exact h
  | cons e events ih => exact ih (supervised_next e h)

/-- A pass makes the watchers follow the accounts exactly where it finds them up to date. -/
theorem follows_reconcileWatchers_iff (listed : Bool) (h : Supervised s) :
    (reconcileWatchers listed s).Follows ↔ s.UpToDate listed := by
  have hsingle := supervised_reconcileWatchers listed h
  have hcurrent (w : Watcher) : (reconcileWatchers listed s).Current w ↔ s.Current w := by
    unfold Supervisor.Current
    rw [rows_reconcileWatchers]
  constructor
  · intro hfollows w hw hrun hlisted
    obtain ⟨i, hi⟩ := List.getElem?_of_mem hw
    have hafter : (reconcileWatchers listed s).RunsAt i w := by
      cases listed with
      | false => exact ⟨hi, hrun⟩
      | true => exact reconcile_runsAt h ⟨hi, hrun⟩ (hlisted rfl)
    exact (hcurrent w).mp (hfollows.current w (List.mem_of_getElem? hafter.1) hrun)
  · intro hfresh
    refine ⟨?_, ?_⟩
    · intro w hw hrun
      obtain ⟨i, hi⟩ := List.getElem?_of_mem hw
      rw [hcurrent]
      cases listed with
      | false => exact hfresh w hw hrun (fun hno => by cases hno)
      | true =>
        rcases runsAt_reconcile h ⟨hi, hrun⟩ with ⟨hold, hwanted⟩ | hnew
        · exact hfresh w (List.mem_of_getElem? hold.1) hrun (fun _ => hwanted)
        · exact ⟨w.account, hnew, rfl, rfl⟩
    · intro i j w v hw hv hwrun hvrun hid
      exact single_of_supervised hsingle ⟨hw, hwrun⟩ ⟨hv, hvrun⟩ hid

end Tasks

/-- After every pass of a run the watchers follow the accounts, exactly where every pass of it
finds the watchers it keeps with the settings of their accounts. -/
theorem follows_iff (rows : List MailAccountRow) (events : List IdleEvent) :
    (∀ before listed, before ++ [.pass listed] <+: events →
        ((Supervisor.start rows).run (before ++ [.pass listed])).Follows) ↔
      ∀ before listed, before ++ [.pass listed] <+: events →
        ((Supervisor.start rows).run before).UpToDate listed := by
  have hpass (before : List IdleEvent) (listed : Bool) :
      ((Supervisor.start rows).run (before ++ [.pass listed])).Follows ↔
        ((Supervisor.start rows).run before).UpToDate listed := by
    have hrun : (Supervisor.start rows).run (before ++ [.pass listed]) =
        reconcileWatchers listed ((Supervisor.start rows).run before) := by
      simp [Supervisor.run, Supervisor.next]
    rw [hrun]
    exact follows_reconcileWatchers_iff listed (supervised_run before (supervised_start rows))
  constructor
  · intro h before listed hprefix
    exact (hpass before listed).mp (h before listed hprefix)
  · intro h before listed hprefix
    exact (hpass before listed).mpr (h before listed hprefix)

/-! ## A changed password -/

def oldPassword : MailAccountRow where
  id := "a".toList
  userId := "u".toList
  emailAddress := "u@example.org".toList
  authType := "password".toList
  credential := "old".toList
  imapHost := some "imap.example.org".toList
  imapPort := none
  imapSecurity := none
  isActive := true
  syncEnabled := true
  receiveProtocol := some "imap".toList

def newPassword : MailAccountRow := { oldPassword with credential := "new".toList }

/-- The account is started, its password is changed, and a pass follows. -/
def passwordChanged : Supervisor :=
  (Supervisor.start [oldPassword]).run [.pass true, .accounts [newPassword], .pass true]

/-- The watcher of an account whose password is changed keeps the old one after the next pass. -/
theorem changed_password_kept :
    ¬passwordChanged.Follows ∧
      passwordChanged.tasks.map (fun w => (w.account.settings.credential, w.isFinished)) =
        [("old".toList, false)] := by
  refine ⟨?_, by decide⟩
  intro h
  obtain ⟨a, ha, -, hsettings⟩ := h.current ⟨oldPassword.toIdleAccount, false⟩ (by decide) rfl
  have hnew : listImapIdleCandidates [newPassword] = [newPassword.toIdleAccount] := by decide
  change a ∈ listImapIdleCandidates [newPassword] at ha
  rw [hnew] at ha
  rw [List.mem_singleton.mp ha] at hsettings
  exact absurd (congrArg IdleSettings.credential hsettings) (by decide)

end Lyra.Imap
