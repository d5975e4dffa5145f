import Lyra.Store.Schema
import Lyra.Store.Kv
import Lyra.Lib.Requests
import Mathlib.Data.List.Infix

/-!
# Role overrides under concurrent requests

`patch_folder` of `sync/http.rs` takes the role from the account's other folders and gives it to
the folder, in two statements; the answer is read back in a third.  Requests that set a role, on
any folders.

* `roles_exclusive`: where no call fails once a request has changed the table, no other folder
  gets the role between the two statements, and no folder loses it before the answer to a
  request that is already over, every role stays unique and the last answer is true;
* `both_folders`: two requests for one role.
-/

namespace Lyra.FolderRoles

open Lyra.Lib

/-! ## Statements -/

inductive Statement
  | clear (folder : FolderId)
  /-- Takes the role from the account's folders, but for one. -/
  | demote (account : AccountId) (role : Text) (folder : FolderId)
  | promote (folder : FolderId) (role : Text)
  deriving DecidableEq, Repr

namespace Statement

/-- The `WHERE` of the statement. -/
def hits : Statement → FolderRow → Bool
  | .clear folder, f => f.id == folder
  | .demote account role folder, f =>
    f.accountId == account && f.roleOverride == some role && f.id != folder
  | .promote folder _, f => f.id == folder

/-- What the statement writes. -/
def value : Statement → Option Text
  | .clear _ => none
  | .demote .. => none
  | .promote _ role => some role

def write (v : Statement) (f : FolderRow) : FolderRow := { f with roleOverride := v.value }

theorem write_id (v : Statement) (f : FolderRow) : (v.write f).id = f.id := rfl

theorem write_key (v : Statement) (f : FolderRow) : (v.write f).key = f.key := rfl

def apply (v : Statement) (t : FolderTable) : FolderTable :=
  t.updateWhere v.hits v.write v.write_id v.write_key

/-- The statement gives the folder the role. -/
def sets (f : FolderRow) (role : Text) : Statement → Bool
  | .promote folder r => folder == f.id && r == role
  | _ => false

/-- The statement takes the role from the folder. -/
def takes (f : FolderRow) (role : Text) : Statement → Bool
  | .clear folder => folder == f.id
  | .demote account r folder => account == f.accountId && r == role && f.id != folder
  | .promote folder r => folder == f.id && r != role

end Statement

/-- The table after these statements, newest first. -/
def after (initial : FolderTable) : List Statement → FolderTable
  | [] => initial
  | v :: log => v.apply (after initial log)

/-- Whether these statements gave the folder the role, and left it there. -/
def stands (f : FolderRow) (role : Text) : List Statement → Bool
  | [] => false
  | v :: since => v.sets f role || (!v.takes f role && stands f role since)

/-! ## Requests -/

/-- `OVERRIDE_ROLES`. -/
def overrideRoles : List Text :=
  ["inbox".toList, "sent".toList, "drafts".toList, "trash".toList, "spam".toList,
    "archive".toList]

structure PatchFolderRequest where
  roleOverride : Option Text
  clearRoleOverride : Bool := false
  deriving DecidableEq, Repr

/-- The role the body asks for. -/
def PatchFolderRequest.role (body : PatchFolderRequest) : Option Text :=
  if body.clearRoleOverride then none else body.roleOverride

inductive RoleCall
  /-- The folder's account, where it is the user's. -/
  | account (folder : FolderId) (user : Text)
  | execute (v : Statement)
  /-- `best_effort_push_specialuse`: to the server only, and its failure is ignored. -/
  | push (folder : FolderId) (role : Option Text)
  | select (folder : FolderId)
  | respond (folder : FolderId) (body : PatchFolderRequest) (answer : Except SyncError FolderRow)

/-- `none` and `false` are errors of the store. -/
abbrev RoleCall.Answer : RoleCall → Type
  | .account .. => Option (Option AccountId)
  | .execute _ => Bool
  | .push .. => PUnit
  | .select _ => Option (Option FolderRow)
  | .respond .. => PUnit

abbrev RoleProg := Prog RoleCall RoleCall.Answer

def notFound : SyncError := .invalidInput "folder not found"

def notAllowed : SyncError :=
  .invalidInput ("roleOverride must be one of: " ++
    ", ".intercalate (overrideRoles.map String.ofList))

def account (folder : FolderId) (user : Text) : RoleProg (Option (Option AccountId)) :=
  Prog.ask (RoleCall.account folder user)

def execute (v : Statement) : RoleProg Bool := Prog.ask (RoleCall.execute v)

def push (folder : FolderId) (role : Option Text) : RoleProg PUnit :=
  Prog.ask (RoleCall.push folder role)

def select (folder : FolderId) : RoleProg (Option (Option FolderRow)) :=
  Prog.ask (RoleCall.select folder)

def respond (folder : FolderId) (body : PatchFolderRequest)
    (answer : Except SyncError FolderRow) : RoleProg PUnit :=
  Prog.ask (RoleCall.respond folder body answer)

/-- The statements of `patch_folder`, and the override that is pushed to the server then. -/
def overrideSteps (folder : FolderId) (acc : AccountId) (body : PatchFolderRequest) :
    RoleProg (Except SyncError (Option (Option Text))) := do
  if body.clearRoleOverride then
    if ← execute (.clear folder) then return .ok (some none) else return .error .database
  else
    match body.roleOverride with
    | none => return .ok none
    | some role =>
      if overrideRoles.contains role then
        if ← execute (.demote acc role folder) then
          if ← execute (.promote folder role) then return .ok (some (some role))
          else return .error .database
        else return .error .database
      else return .error notAllowed

/-- The end of `patch_folder`. -/
def answerSteps (folder : FolderId) (pushed : Option (Option Text)) :
    RoleProg (Except SyncError FolderRow) := do
  match pushed with
  | some role => push folder role
  | none => pure ⟨⟩
  match ← select folder with
  | none => return .error .database
  | some none => return .error notFound
  | some (some row) => return .ok row

/-- `patch_folder`; the dialect of the database says which texts are ids. -/
def patchFolderSteps (validId : Text → Bool) (folder : FolderId) (user : Text)
    (body : PatchFolderRequest) : RoleProg (Except SyncError FolderRow) := do
  if validId folder && validId user then
    match ← account folder user with
    | none => return .error .database
    | some none => return .error notFound
    | some (some acc) =>
      if !body.clearRoleOverride && body.roleOverride.isNone then
        return .error (.invalidInput "provide roleOverride or clearRoleOverride")
      else
        match ← overrideSteps folder acc body with
        | .error e => return .error e
        | .ok pushed => answerSteps folder pushed
  else return .error (.invalidInput "invalid id")

/-- A request that sets a role. -/
structure RoleRequest where
  folder : FolderId
  user : Text
  role : Text
  deriving DecidableEq, Repr

/-- A statement that took effect, and whose it was. -/
structure Entry where
  request : Nat
  statement : Statement
  deriving DecidableEq, Repr

def statements (log : List Entry) : List Statement := log.map (·.statement)

structure RoleWorld where
  /-- The user of an account. -/
  owner : AccountId → Option Text
  initial : FolderTable
  folders : FolderTable
  /-- The statements that took effect, newest first. -/
  log : List Entry
  /-- How many there were when the request had taken the role from the others. -/
  seen : Nat → Nat
  /-- The requests that are under way. -/
  pending : List Nat
  /-- Folder and role of the requests that succeeded, the last one first. -/
  answered : List (FolderId × Text)

namespace RoleWorld

def accountOf (w : RoleWorld) (folder : FolderId) (user : Text) : Option AccountId :=
  (w.folders.rows.find? fun f => f.id == folder && w.owner f.accountId == some user).map
    FolderRow.accountId

def find (w : RoleWorld) (folder : FolderId) : Option FolderRow :=
  w.folders.rows.find? fun f => f.id == folder

/-- A statement takes effect. -/
def run (w : RoleWorld) (i : Nat) (v : Statement) : RoleWorld :=
  { w with
    folders := v.apply w.folders
    log := ⟨i, v⟩ :: w.log
    seen := match v with
      | .demote .. => Function.update w.seen i (w.log.length + 1)
      | _ => w.seen }

def respond (w : RoleWorld) (i : Nat) (folder : FolderId) (body : PatchFolderRequest)
    (answer : Except SyncError FolderRow) : RoleWorld :=
  { w with
    pending := w.pending.filter (· != i)
    answered := match body.role, answer with
      | some role, .ok _ => (folder, role) :: w.answered
      | _, _ => w.answered }

end RoleWorld

def exec (i : Nat) (c : CallOutcome) (o : RoleCall) (w : RoleWorld) : RoleWorld × o.Answer :=
  match o with
  | .account folder user => (w, if c = .works then some (w.accountOf folder user) else none)
  | .execute v => (if c.takesEffect then w.run i v else w, decide (c = .works))
  | .push .. => (w, ⟨⟩)
  | .select folder => (w, if c = .works then some (w.find folder) else none)
  | .respond folder body answer => (w.respond i folder body answer, ⟨⟩)

/-- At most one folder of an account carries a role. -/
def Exclusive (t : FolderTable) : Prop :=
  ∀ f ∈ t.rows, ∀ g ∈ t.rows, ∀ role, f.accountId = g.accountId → f.roleOverride = some role →
    g.roleOverride = some role → f.id = g.id

def Carries (t : FolderTable) (folder : FolderId) (role : Text) : Prop :=
  ∃ f ∈ t.rows, f.id = folder ∧ f.roleOverride = some role

def roleService (validId : Text → Bool) :
    Service RoleWorld RoleCall RoleCall.Answer RoleRequest CallOutcome Empty where
  init w := w.folders = w.initial ∧ Exclusive w.initial ∧ w.log = [] ∧ w.pending = [] ∧
    w.answered = []
  exec i c o w := some (exec i c o w)
  request q := do
    let answer ← patchFolderSteps validId q.folder q.user { roleOverride := some q.role }
    respond q.folder { roleOverride := some q.role } answer
  arrive i _ w := { w with pending := i :: w.pending }
  env e _ := nomatch e

/-! ## The rules -/

/-- What took effect since the request took the role from the other folders. -/
def RoleWorld.since (w : RoleWorld) (i : Nat) : List Statement :=
  statements (w.log.take (w.log.length - w.seen i))

/-- Another request that is under way has changed the table. -/
def RoleWorld.overtaken (w : RoleWorld) (i : Nat) : Bool :=
  w.log.any fun e => e.request != i && w.pending.contains e.request

/-- No other folder of the account got the role, and has it, since it was taken from them. -/
def Unopposed (w : RoleWorld) (i : Nat) (folder : FolderId) (role : Text) : Prop :=
  ∀ f ∈ w.folders.rows, f.id = folder → ∀ g ∈ w.folders.rows, g.accountId = f.accountId →
    g.id ≠ folder → stands g role (w.since i) = false

/-- The folder was given the role and still has it, or a request that has changed the table will
answer later. -/
def Kept (w : RoleWorld) (i : Nat) (folder : FolderId) (role : Text) : Prop :=
  (∃ f ∈ w.folders.rows, f.id = folder ∧ stands f role (w.since i) = true) ∨ w.overtaken i = true

instance (w : RoleWorld) (i : Nat) (folder : FolderId) (role : Text) :
    Decidable (Unopposed w i folder role) :=
  inferInstanceAs (Decidable (∀ f ∈ w.folders.rows, f.id = folder → ∀ g ∈ w.folders.rows,
    g.accountId = f.accountId → g.id ≠ folder → stands g role (w.since i) = false))

instance (w : RoleWorld) (i : Nat) (folder : FolderId) (role : Text) :
    Decidable (Kept w i folder role) :=
  inferInstanceAs (Decidable ((∃ f ∈ w.folders.rows, f.id = folder ∧
    stands f role (w.since i) = true) ∨ w.overtaken i = true))

/-- No call fails once the request has changed the table, nothing gives the role to another
folder before this one gets it, and a request that is done takes it from none that answers
later. -/
def Undisturbed (i : Nat) (c : CallOutcome) : RoleCall → RoleWorld → Prop
  | .account .., _ => True
  | .execute (.clear _), _ => True
  | .execute (.demote ..), _ => c ≠ .lost
  | .execute (.promote folder role), w => c = .works ∧ Unopposed w i folder role
  | .push .., _ => True
  | .select _, _ => c = .works
  | .respond folder body (.ok _), w => ∀ role ∈ body.role, Kept w i folder role
  | .respond _ _ (.error _), _ => True

instance (i : Nat) (c : CallOutcome) (o : RoleCall) (w : RoleWorld) :
    Decidable (Undisturbed i c o w) :=
  match o with
  | .account .. | .execute (.clear _) | .push .. | .respond _ _ (.error _) =>
    inferInstanceAs (Decidable True)
  | .execute (.demote ..) => inferInstanceAs (Decidable (c ≠ .lost))
  | .execute (.promote folder role) =>
    inferInstanceAs (Decidable (c = .works ∧ Unopposed w i folder role))
  | .select _ => inferInstanceAs (Decidable (c = .works))
  | .respond folder body (.ok _) =>
    inferInstanceAs (Decidable (∀ role ∈ body.role, Kept w i folder role))

structure RoleInv (w : RoleWorld) : Prop where
  folders : w.folders = after w.initial (statements w.log)
  exclusive : Exclusive w.folders
  /-- The last answer is true, or another one will follow. -/
  last : ∀ folder role rest, w.answered = (folder, role) :: rest →
    Carries w.folders folder role ∨ ∃ e ∈ w.log, e.request ∈ w.pending

/-- What others leave of what a request knows. -/
structure RoleRely (i : Nat) (w w' : RoleWorld) : Prop where
  initial : w'.initial = w.initial
  log : ∃ added, w'.log = added ++ w.log ∧ ∀ e ∈ added, e.request ≠ i
  seen : w'.seen i = w.seen i
  pending : i ∈ w'.pending ↔ i ∈ w.pending

def roleRules : Service.Rules RoleWorld RoleCall CallOutcome where
  inv := RoleInv
  ok := Undisturbed
  guarantee i w w' := ∀ j, j ≠ i → RoleRely j w w'
  rely := RoleRely
  unborn i w := i ∉ w.pending ∧ ∀ e ∈ w.log, e.request ≠ i
  post i w := i ∉ w.pending

variable {validId : Text → Bool} {i : Nat} {c : CallOutcome} {w w' : RoleWorld}

theorem RoleRely.refl (i : Nat) (w : RoleWorld) : RoleRely i w w :=
  ⟨rfl, ⟨[], rfl, List.forall_mem_nil _⟩, rfl, Iff.rfl⟩

theorem RoleRely.trans {u : RoleWorld} (h : RoleRely i w w') (h' : RoleRely i w' u) :
    RoleRely i w u := by
  obtain ⟨added, hlog, hadded⟩ := h.log
  obtain ⟨added', hlog', hadded'⟩ := h'.log
  refine ⟨h'.initial.trans h.initial, ⟨added' ++ added, ?_, ?_⟩, h'.seen.trans h.seen,
    h'.pending.trans h.pending⟩
  · rw [hlog', hlog, List.append_assoc]
  · intro e he
    rcases List.mem_append.mp he with he' | he'
    · exact hadded' e he'
    · exact hadded e he'

/-! ## What the statements do -/

theorem Statement.mem_apply {v : Statement} {t : FolderTable} {b : FolderRow} :
    b ∈ (v.apply t).rows ↔ ∃ a ∈ t.rows, (if v.hits a then v.write a else a) = b :=
  t.mem_updateWhere v.hits v.write v.write_id v.write_key b

/-- A row after a statement is that of the same folder before it, up to the override. -/
theorem Statement.exists_of_mem {v : Statement} {t : FolderTable} {b : FolderRow}
    (h : b ∈ (v.apply t).rows) : ∃ a ∈ t.rows, a.id = b.id ∧ a.accountId = b.accountId ∧
      ∀ role, b.roleOverride = some role ↔
        v.sets b role = true ∨ v.takes b role = false ∧ a.roleOverride = some role := by
  obtain ⟨a, ha, rfl⟩ := mem_apply.mp h
  refine ⟨a, ha, ?_, ?_, ?_⟩
  · split <;> rfl
  · split <;> rfl
  intro role
  cases v with
  | clear folder => grind [hits, write, value, sets, takes]
  | demote acc r folder => grind [hits, write, value, sets, takes]
  | promote folder r => grind [hits, write, value, sets, takes]

theorem Statement.exists_apply {t : FolderTable} {a : FolderRow} (v : Statement)
    (h : a ∈ t.rows) : ∃ b ∈ (v.apply t).rows, a.id = b.id ∧ a.accountId = b.accountId := by
  refine ⟨_, mem_apply.mpr ⟨a, h, rfl⟩, ?_, ?_⟩
  · split <;> rfl
  · split <;> rfl

theorem Statement.sets_congr {f g : FolderRow} (hid : f.id = g.id) (v : Statement) (role : Text) :
    v.sets f role = v.sets g role := by
  cases v with
  | promote folder r => unfold sets; rw [hid]
  | clear folder => rfl
  | demote acc r folder => rfl

theorem Statement.takes_congr {f g : FolderRow} (hid : f.id = g.id)
    (hacc : f.accountId = g.accountId) (v : Statement) (role : Text) :
    v.takes f role = v.takes g role := by
  cases v with
  | promote folder r => unfold takes; rw [hid]
  | clear folder => unfold takes; rw [hid]
  | demote acc r folder => unfold takes; rw [hid, hacc]

theorem stands_congr {f g : FolderRow} (hid : f.id = g.id) (hacc : f.accountId = g.accountId)
    (role : Text) (since : List Statement) : stands f role since = stands g role since := by
  induction since with
  | nil => rfl
  | cons v since ih =>
    unfold stands
    rw [v.sets_congr hid, v.takes_congr hid hacc, ih]

section History

variable {t : FolderTable} {g : FolderRow} {role : Text} {old since : List Statement}

/-- A role that a folder did not have was given to it, and stands. -/
theorem stands_of_carries
    (hold : ∀ a ∈ (after t old).rows, a.id = g.id → a.accountId = g.accountId →
      a.roleOverride ≠ some role)
    (hg : g ∈ (after t (since ++ old)).rows) (hrole : g.roleOverride = some role) :
    stands g role since = true := by
  induction since generalizing g with
  | nil => exact (hold g hg rfl rfl hrole).elim
  | cons v since ih =>
    obtain ⟨a, ha, hid, hacc, hover⟩ := Statement.exists_of_mem hg
    unfold stands
    rw [Bool.or_eq_true, Bool.and_eq_true, Bool.not_eq_true']
    rcases (hover role).mp hrole with hsets | ⟨htakes, ha'⟩
    · exact .inl hsets
    · refine .inr ⟨htakes, ?_⟩
      rw [← stands_congr hid hacc]
      exact ih (fun b hb hbid hbacc => hold b hb (hbid.trans hid) (hbacc.trans hacc)) ha ha'

theorem carries_of_stands (hg : g ∈ (after t (since ++ old)).rows)
    (h : stands g role since = true) : g.roleOverride = some role := by
  induction since generalizing g with
  | nil => cases h
  | cons v since ih =>
    obtain ⟨a, ha, hid, hacc, hover⟩ := Statement.exists_of_mem hg
    unfold stands at h
    rw [Bool.or_eq_true, Bool.and_eq_true, Bool.not_eq_true'] at h
    refine (hover role).mpr (h.imp_right ?_)
    rintro ⟨htakes, hstands⟩
    exact ⟨htakes, ih ha ((stands_congr hid hacc role since).trans hstands)⟩

end History

theorem Statement.sets_iff {v : Statement} {f : FolderRow} {role : Text} :
    v.sets f role = true ↔ v = .promote f.id role := by
  cases v with
  | promote folder r =>
    unfold sets
    rw [Bool.and_eq_true, beq_iff_eq, beq_iff_eq, Statement.promote.injEq]
  | clear folder => exact iff_of_false Bool.false_ne_true Statement.noConfusion
  | demote acc r folder => exact iff_of_false Bool.false_ne_true Statement.noConfusion

theorem Exclusive.apply {t : FolderTable} (h : Exclusive t) {v : Statement}
    (hv : ∀ folder role, v = .promote folder role → ∀ f ∈ t.rows, f.id = folder →
      ∀ g ∈ t.rows, g.accountId = f.accountId → g.id ≠ folder → g.roleOverride ≠ some role) :
    Exclusive (v.apply t) := by
  intro f hf g hg role hsame hfrole hgrole
  obtain ⟨a, ha, haid, haacc, hfover⟩ := Statement.exists_of_mem hf
  obtain ⟨b, hb, hbid, hbacc, hgover⟩ := Statement.exists_of_mem hg
  have hab : a.accountId = b.accountId := haacc.trans (hsame.trans hbacc.symm)
  rw [← haid, ← hbid]
  rcases (hfover role).mp hfrole with hf' | ⟨_, harole⟩
  · rcases (hgover role).mp hgrole with hg' | ⟨_, hbrole⟩
    · have hpromote := (Statement.sets_iff.mp hf').symm.trans (Statement.sets_iff.mp hg')
      exact haid.trans ((Statement.promote.inj hpromote).1.trans hbid.symm)
    · refine Decidable.byContradiction fun hne => ?_
      exact hv f.id role (Statement.sets_iff.mp hf') a ha haid b hb hab.symm
        (fun e => hne (haid.trans e.symm)) hbrole
  · rcases (hgover role).mp hgrole with hg' | ⟨_, hbrole⟩
    · refine Decidable.byContradiction fun hne => ?_
      exact hv g.id role (Statement.sets_iff.mp hg') b hb hbid a ha hab
        (fun e => hne (e.trans hbid.symm)) harole
    · exact h a ha b hb role hab harole hbrole

/-- The account's other folders had lost the role, and the request knows when. -/
def Demoted (i : Nat) (acc : AccountId) (folder : FolderId) (role : Text) (w : RoleWorld) : Prop :=
  ∃ old, old <:+ w.log ∧ w.seen i = old.length ∧
    ∀ g ∈ (after w.initial (statements old)).rows, g.accountId = acc → g.id ≠ folder →
      g.roleOverride ≠ some role

theorem Demoted.rely {acc : AccountId} {folder : FolderId} {role : Text}
    (h : Demoted i acc folder role w) (hrely : RoleRely i w w') :
    Demoted i acc folder role w' := by
  obtain ⟨old, hold, hseen, hnot⟩ := h
  obtain ⟨added, hlog, _⟩ := hrely.log
  refine ⟨old, ?_, hrely.seen.trans hseen, ?_⟩
  · rw [hlog]
    exact hold.trans (List.suffix_append added w.log)
  · rw [hrely.initial]
    exact hnot

theorem RoleWorld.log_eq (w : RoleWorld) (i : Nat) :
    ∃ old, statements w.log = w.since i ++ old :=
  ⟨statements (w.log.drop (w.log.length - w.seen i)), by
    unfold since statements
    rw [← List.map_append, List.take_append_drop]⟩

theorem Demoted.log_eq {acc : AccountId} {folder : FolderId} {role : Text}
    (h : Demoted i acc folder role w) : ∃ old, statements w.log = w.since i ++ old ∧
      ∀ g ∈ (after w.initial old).rows, g.accountId = acc → g.id ≠ folder →
        g.roleOverride ≠ some role := by
  obtain ⟨old, ⟨since, hlog⟩, hseen, hnot⟩ := h
  refine ⟨statements old, ?_, hnot⟩
  unfold RoleWorld.since
  rw [hseen, ← hlog, List.length_append, Nat.add_sub_cancel, List.take_left]
  exact List.map_append ..

/-- Unopposed, the folder is the only one to get the role. -/
theorem Demoted.others {acc : AccountId} {folder : FolderId} {role : Text}
    (h : Demoted i acc folder role w) (hinv : RoleInv w) (hfree : Unopposed w i folder role)
    {f g : FolderRow} (hf : f ∈ w.folders.rows) (hfid : f.id = folder) (hacc : f.accountId = acc)
    (hg : g ∈ w.folders.rows) (hsame : g.accountId = f.accountId) (hne : g.id ≠ folder) :
    g.roleOverride ≠ some role := by
  intro hrole
  obtain ⟨old, hlog, hnot⟩ := h.log_eq
  have hstands : stands g role (w.since i) = true := by
    rw [hinv.folders, hlog] at hg
    refine stands_of_carries ?_ hg hrole
    intro a ha haid haacc
    exact hnot a ha (haacc.trans (hsame.trans hacc)) fun e => hne (haid.symm.trans e)
  exact Bool.false_ne_true ((hfree f hf hfid g hg hsame hne).symm.trans hstands)

/-! ## What a request knows -/

theorem exists_initial {t : FolderTable} {log : List Statement} {b : FolderRow}
    (h : b ∈ (after t log).rows) : ∃ a ∈ t.rows, a.id = b.id ∧ a.accountId = b.accountId := by
  induction log generalizing b with
  | nil => exact ⟨b, h, rfl, rfl⟩
  | cons v log ih =>
    obtain ⟨a, ha, hid, hacc, _⟩ := Statement.exists_of_mem h
    obtain ⟨f, hf, hfid, hfacc⟩ := ih ha
    exact ⟨f, hf, hfid.trans hid, hfacc.trans hacc⟩

theorem exists_after {t : FolderTable} {a : FolderRow} (h : a ∈ t.rows) (log : List Statement) :
    ∃ b ∈ (after t log).rows, a.id = b.id ∧ a.accountId = b.accountId := by
  induction log with
  | nil => exact ⟨a, h, rfl, rfl⟩
  | cons v log ih =>
    obtain ⟨b, hb, hid, hacc⟩ := ih
    obtain ⟨f, hf, hfid, hfacc⟩ := v.exists_apply hb
    exact ⟨f, hf, hid.trans hfid, hacc.trans hfacc⟩

/-- The folder is one of the account. -/
def Placed (folder : FolderId) (acc : AccountId) (w : RoleWorld) : Prop :=
  ∃ f ∈ w.initial.rows, f.id = folder ∧ f.accountId = acc

/-- The request is under way and has not changed the table. -/
def Fresh (i : Nat) (w : RoleWorld) : Prop := i ∈ w.pending ∧ ∀ e ∈ w.log, e.request ≠ i

theorem Placed.rely {folder : FolderId} {acc : AccountId} (h : Placed folder acc w)
    (hrely : RoleRely i w w') : Placed folder acc w' := by
  unfold Placed
  rw [hrely.initial]
  exact h

theorem Placed.exists_row {folder : FolderId} {acc : AccountId} (h : Placed folder acc w)
    (hinv : RoleInv w) : ∃ f ∈ w.folders.rows, f.id = folder ∧ f.accountId = acc := by
  obtain ⟨a, ha, rfl, rfl⟩ := h
  obtain ⟨f, hf, hid, hacc⟩ := exists_after ha (statements w.log)
  rw [hinv.folders]
  exact ⟨f, hf, hid.symm, hacc.symm⟩

theorem Placed.account {folder : FolderId} {acc : AccountId} (h : Placed folder acc w)
    (hinv : RoleInv w) {f : FolderRow} (hf : f ∈ w.folders.rows) (hid : f.id = folder) :
    f.accountId = acc := by
  obtain ⟨a, ha, haid, hacc⟩ := h.exists_row hinv
  rw [w.folders.eq_of_pk hf ha (hid.trans haid.symm)]
  exact hacc

theorem Fresh.rely (h : Fresh i w) (hrely : RoleRely i w w') : Fresh i w' := by
  obtain ⟨added, hlog, hadded⟩ := hrely.log
  refine ⟨hrely.pending.mpr h.1, ?_⟩
  intro e he
  rw [hlog] at he
  rcases List.mem_append.mp he with he' | he'
  · exact hadded e he'
  · exact h.2 e he'

theorem placed_of_accountOf {folder : FolderId} {user : Text} {acc : AccountId} (hinv : RoleInv w)
    (h : w.accountOf folder user = some acc) : Placed folder acc w := by
  obtain ⟨f, hfind, rfl⟩ := Option.map_eq_some_iff.mp h
  have hf := List.mem_of_find?_eq_some hfind
  have hcond := List.find?_some hfind
  have hid : f.id = folder := beq_iff_eq.mp (Bool.and_eq_true_iff.mp hcond).1
  rw [hinv.folders] at hf
  obtain ⟨a, ha, haid, haacc⟩ := exists_initial hf
  exact ⟨a, ha, haid.trans hid, haacc⟩

/-! ## The calls -/

theorem run_rely (v : Statement) {j : Nat} (hj : j ≠ i) : RoleRely j w (w.run i v) := by
  refine ⟨rfl, ⟨[⟨i, v⟩], rfl, ?_⟩, ?_, Iff.rfl⟩
  · intro e he
    rw [List.mem_singleton.mp he]
    exact hj.symm
  · cases v with
    | demote acc role folder => exact Function.update_of_ne hj ..
    | clear folder => rfl
    | promote folder role => rfl

theorem run_inv (hinv : RoleInv w) (hi : i ∈ w.pending) {v : Statement}
    (hv : ∀ folder role, v = .promote folder role → ∀ f ∈ w.folders.rows, f.id = folder →
      ∀ g ∈ w.folders.rows, g.accountId = f.accountId → g.id ≠ folder →
        g.roleOverride ≠ some role) : RoleInv (w.run i v) := by
  refine ⟨congrArg v.apply hinv.folders, hinv.exclusive.apply hv, ?_⟩
  intro folder role rest _
  exact .inr ⟨⟨i, v⟩, List.mem_cons_self, hi⟩

theorem run_demoted (acc : AccountId) (role : Text) (folder : FolderId) :
    Demoted i acc folder role (w.run i (.demote acc role folder)) := by
  refine ⟨_, List.suffix_rfl, Function.update_self .., ?_⟩
  intro g hg hacc hne hrole
  have hg' : g ∈ ((Statement.demote acc role folder).apply
      (after w.initial (statements w.log))).rows := hg
  obtain ⟨a, _, _, _, hover⟩ := Statement.exists_of_mem hg'
  rcases (hover role).mp hrole with hsets | ⟨htakes, _⟩
  · cases hsets
  · refine Bool.false_ne_true (htakes.symm.trans ?_)
    unfold Statement.takes
    rw [Bool.and_eq_true, Bool.and_eq_true, beq_iff_eq, beq_iff_eq, bne_iff_ne]
    exact ⟨⟨hacc.symm, rfl⟩, hne⟩

theorem respond_rely {folder : FolderId} {body : PatchFolderRequest}
    {answer : Except SyncError FolderRow} {j : Nat} (hj : j ≠ i) :
    RoleRely j w (w.respond i folder body answer) := by
  refine ⟨rfl, ⟨[], rfl, List.forall_mem_nil _⟩, rfl, ?_⟩
  exact List.mem_filter.trans (and_iff_left (bne_iff_ne.mpr hj))

theorem respond_done {folder : FolderId} {body : PatchFolderRequest}
    {answer : Except SyncError FolderRow} : i ∉ (w.respond i folder body answer).pending := by
  intro hi
  exact bne_iff_ne.mp (List.mem_filter.mp hi).2 rfl

/-- Who has changed nothing fails without harm. -/
theorem respond_error_inv (hinv : RoleInv w) (hfresh : Fresh i w) {folder : FolderId}
    {body : PatchFolderRequest} {e : SyncError} :
    RoleInv (w.respond i folder body (.error e)) := by
  refine ⟨hinv.folders, hinv.exclusive, ?_⟩
  intro folder' role rest hanswered
  have hsame : (w.respond i folder body (.error e)).answered = w.answered := by
    unfold RoleWorld.respond
    cases body.role with
    | none => rfl
    | some role => rfl
  rw [hsame] at hanswered
  refine (hinv.last folder' role rest hanswered).imp_right ?_
  rintro ⟨entry, hentry, hpending⟩
  exact ⟨entry, hentry, List.mem_filter.mpr ⟨hpending, bne_iff_ne.mpr (hfresh.2 entry hentry)⟩⟩

theorem respond_ok_inv (hinv : RoleInv w) {folder : FolderId} {body : PatchFolderRequest}
    {role : Text} (hrole : body.role = some role) (hkept : Kept w i folder role)
    {row : FolderRow} : RoleInv (w.respond i folder body (.ok row)) := by
  refine ⟨hinv.folders, hinv.exclusive, ?_⟩
  intro folder' role' rest hanswered
  have hnew : (w.respond i folder body (.ok row)).answered = (folder, role) :: w.answered := by
    unfold RoleWorld.respond
    rw [hrole]
  obtain ⟨hhead, _⟩ := List.cons.inj (hnew.symm.trans hanswered)
  obtain ⟨rfl, rfl⟩ := Prod.mk.inj hhead
  rcases hkept with ⟨f, hf, hid, hstands⟩ | hovertaken
  · refine .inl ⟨f, hf, hid, ?_⟩
    obtain ⟨old, hlog⟩ := w.log_eq i
    rw [hinv.folders, hlog] at hf
    exact carries_of_stands hf hstands
  · obtain ⟨e, he, hcond⟩ := List.any_eq_true.mp hovertaken
    obtain ⟨hne, hpending⟩ := Bool.and_eq_true_iff.mp hcond
    exact .inr ⟨e, he, List.mem_filter.mpr ⟨List.contains_iff_mem.mp hpending, hne⟩⟩

/-! ## The whole run -/

/-- What a request knows after its statements, or after all. -/
def Result {α : Type} (i : Nat) (done : RoleWorld → Prop) : Except SyncError α → RoleWorld → Prop
  | .error _, w => Fresh i w
  | .ok _, w => done w

theorem safe_account {β : Type} {post : β → RoleWorld → Prop} {folder : FolderId} {user : Text}
    {f : Option (Option AccountId) → RoleProg β} (hfresh : Fresh i w)
    (hf : ∀ w₁ r, RoleInv w₁ → Fresh i w₁ → (∀ acc, r = some (some acc) → Placed folder acc w₁) →
      (f r).Safe (roleService validId) roleRules i post w₁) :
    (account folder user >>= f).Safe (roleService validId) roleRules i post w := by
  intro w₁ hrely hinv c w₂ r _ hexec
  obtain ⟨rfl, rfl⟩ := Prod.mk.inj (Option.some.inj hexec)
  refine ⟨hinv, fun j _ => .refl j w₁, hf w₁ _ hinv (hfresh.rely hrely) ?_⟩
  intro acc hacc
  split at hacc
  · exact placed_of_accountOf hinv (Option.some.inj hacc)
  · cases hacc

theorem exec_works (v : Statement) : exec i .works (.execute v) w = (w.run i v, true) := rfl

theorem exec_fails (v : Statement) : exec i .fails (.execute v) w = (w, false) := rfl

/-- The first statement fails without effect, or takes the role from the others. -/
theorem safe_demote {β : Type} {post : β → RoleWorld → Prop} {folder : FolderId}
    {acc : AccountId} {role : Text} {f : Bool → RoleProg β} (hfresh : Fresh i w)
    (hplaced : Placed folder acc w)
    (hfail : ∀ w₁, Fresh i w₁ → (f false).Safe (roleService validId) roleRules i post w₁)
    (hdone : ∀ w₁, i ∈ w₁.pending → Placed folder acc w₁ → Demoted i acc folder role w₁ →
      (f true).Safe (roleService validId) roleRules i post w₁) :
    (execute (.demote acc role folder) >>= f).Safe (roleService validId) roleRules i post w := by
  intro w₁ hrely hinv c w₂ r hok hexec
  have hexec' := Option.some.inj hexec
  cases c with
  | lost => exact (hok rfl).elim
  | fails =>
    rw [exec_fails] at hexec'
    obtain ⟨rfl, rfl⟩ := Prod.mk.inj hexec'
    exact ⟨hinv, fun j _ => .refl j w₁, hfail w₁ (hfresh.rely hrely)⟩
  | works =>
    rw [exec_works] at hexec'
    obtain ⟨rfl, rfl⟩ := Prod.mk.inj hexec'
    have hpending := (hfresh.rely hrely).1
    have hplaced₁ := hplaced.rely hrely
    refine ⟨run_inv hinv hpending fun _ _ h => Statement.noConfusion h,
      fun j hj => run_rely _ hj, ?_⟩
    exact hdone _ hpending hplaced₁ (run_demoted acc role folder)

theorem safe_promote {β : Type} {post : β → RoleWorld → Prop} {folder : FolderId}
    {acc : AccountId} {role : Text} {f : Bool → RoleProg β} (hpending : i ∈ w.pending)
    (hplaced : Placed folder acc w) (hdemoted : Demoted i acc folder role w)
    (hdone : ∀ w₁, i ∈ w₁.pending → Placed folder acc w₁ →
      (f true).Safe (roleService validId) roleRules i post w₁) :
    (execute (.promote folder role) >>= f).Safe (roleService validId) roleRules i post w := by
  intro w₁ hrely hinv c w₂ r hok hexec
  obtain ⟨rfl, hfree⟩ := hok
  have hexec' := Option.some.inj hexec
  rw [exec_works] at hexec'
  obtain ⟨rfl, rfl⟩ := Prod.mk.inj hexec'
  have hpending' := hrely.pending.mpr hpending
  have hplaced' := hplaced.rely hrely
  refine ⟨run_inv hinv hpending' ?_, fun j hj => run_rely _ hj, hdone _ hpending' hplaced'⟩
  intro folder' role' hsame f hf hid g hg hacc hne
  obtain ⟨rfl, rfl⟩ := Statement.promote.inj hsame
  exact (hdemoted.rely hrely).others hinv hfree hf hid (hplaced'.account hinv hf hid) hg hacc hne

theorem overrideSteps_safe {folder : FolderId} {acc : AccountId} {role : Text}
    (hfresh : Fresh i w) (hplaced : Placed folder acc w) :
    (overrideSteps folder acc { roleOverride := some role }).Safe (roleService validId) roleRules i
      (Result i fun w₁ => i ∈ w₁.pending ∧ Placed folder acc w₁) w := by
  unfold overrideSteps
  rw [if_neg Bool.false_ne_true]
  dsimp only
  split
  · apply safe_demote hfresh hplaced
    · intro w₁ hfresh₁
      exact hfresh₁
    · intro w₁ hpending₁ hplaced₁ hdemoted₁
      apply safe_promote hpending₁ hplaced₁ hdemoted₁
      intro w₂ hpending₂ hplaced₂
      exact ⟨hpending₂, hplaced₂⟩
  · exact hfresh

theorem find_of_placed {folder : FolderId} {acc : AccountId} (h : Placed folder acc w)
    (hinv : RoleInv w) : ∃ row, w.find folder = some row := by
  obtain ⟨f, hf, hid, _⟩ := h.exists_row hinv
  exact Option.isSome_iff_exists.mp (List.find?_isSome.mpr ⟨f, hf, beq_iff_eq.mpr hid⟩)

theorem answerSteps_safe {folder : FolderId} {acc : AccountId} {pushed : Option (Option Text)}
    (hplaced : Placed folder acc w) :
    (answerSteps folder pushed).Safe (roleService validId) roleRules i
      (Result i fun _ => True) w := by
  have hselect : ∀ w₁, Placed folder acc w₁ → (answerSteps folder none).Safe
      (roleService validId) roleRules i (Result i fun _ => True) w₁ := by
    intro w₁ hplaced₁ w₂ hrely₂ hinv₂ c₂ w₃ r₃ hok₂ hexec₂
    obtain rfl : c₂ = .works := hok₂
    obtain ⟨rfl, rfl⟩ := Prod.mk.inj (Option.some.inj hexec₂)
    refine ⟨hinv₂, fun j _ => .refl j w₂, ?_⟩
    obtain ⟨row, hrow⟩ := find_of_placed (hplaced₁.rely hrely₂) hinv₂
    rw [if_pos rfl, hrow]
    trivial
  cases pushed with
  | none => exact hselect w hplaced
  | some role =>
    intro w₁ hrely₁ hinv₁ c₁ w₂ r₂ _ hexec₁
    obtain ⟨rfl, rfl⟩ := Prod.mk.inj (Option.some.inj hexec₁)
    exact ⟨hinv₁, fun j _ => .refl j w₁, hselect w₁ (hplaced.rely hrely₁)⟩

theorem patchFolderSteps_safe {folder : FolderId} {user role : Text} (hfresh : Fresh i w) :
    (patchFolderSteps validId folder user { roleOverride := some role }).Safe
      (roleService validId) roleRules i (Result i fun _ => True) w := by
  unfold patchFolderSteps
  split
  · apply safe_account hfresh
    intro w₁ r hinv₁ hfresh₁ hacc
    cases r with
    | none => exact hfresh₁
    | some found =>
      cases found with
      | none => exact hfresh₁
      | some acc =>
        apply Prog.safe_bind
        refine (overrideSteps_safe hfresh₁ (hacc acc rfl)).weaken _ ?_
        intro result w₂ hresult
        cases result with
        | error e => exact hresult
        | ok pushed => exact answerSteps_safe hresult.2
  · exact hfresh

theorem respond_safe {folder : FolderId} {role : Text} {answer : Except SyncError FolderRow}
    (h : Result i (fun _ => True) answer w) :
    (respond folder { roleOverride := some role } answer).Safe (roleService validId) roleRules i
      (fun _ w₁ => i ∉ w₁.pending) w := by
  intro w₁ hrely hinv c w₂ r hok hexec
  obtain ⟨rfl, rfl⟩ := Prod.mk.inj (Option.some.inj hexec)
  refine ⟨?_, fun j hj => respond_rely hj, respond_done⟩
  cases answer with
  | error e => exact respond_error_inv hinv (Fresh.rely h hrely)
  | ok row => exact respond_ok_inv hinv rfl (hok role rfl)

theorem roleRules_sound (validId : Text → Bool) : roleRules.Sound (roleService validId) where
  init w h := by
    obtain ⟨hfolders, hexclusive, hlog, _, hanswered⟩ := h
    refine ⟨?_, hfolders ▸ hexclusive, ?_⟩
    · rw [hlog]
      exact hfolders
    · intro folder role rest hhead
      rw [hanswered] at hhead
      cases hhead
  rely_refl := RoleRely.refl
  rely_trans _ _ _ _ := RoleRely.trans
  rely_of_guarantee _ _ _ _ hij _ hguar := hguar _ hij
  unborn_init n w h := by
    obtain ⟨_, _, hlog, hpending, _⟩ := h
    refine ⟨?_, ?_⟩
    · rw [hpending]
      exact List.not_mem_nil
    · rw [hlog]
      exact List.forall_mem_nil _
  unborn_rely n w w' hrely h := by
    obtain ⟨added, hlog, hadded⟩ := hrely.log
    refine ⟨fun hn => h.1 (hrely.pending.mp hn), ?_⟩
    intro e he
    rw [hlog] at he
    rcases List.mem_append.mp he with he' | he'
    · exact hadded e he'
    · exact h.2 e he'
  post_rely n w w' hrely h hn := h (hrely.pending.mp hn)
  arrive n q w hinv _ := by
    refine ⟨⟨hinv.folders, hinv.exclusive, ?_⟩, ?_⟩
    · intro folder role rest hanswered
      refine (hinv.last folder role rest hanswered).imp_right ?_
      rintro ⟨e, he, hpending⟩
      exact ⟨e, he, List.mem_cons_of_mem n hpending⟩
    · intro i hi
      refine ⟨rfl, ⟨[], rfl, List.forall_mem_nil _⟩, rfl, ?_⟩
      exact List.mem_cons.trans (or_iff_right hi)
  env e := nomatch e
  safe n q w _ hunborn := by
    have hfresh : Fresh n ((roleService validId).arrive n q w) :=
      ⟨List.mem_cons_self, hunborn.2⟩
    apply Prog.safe_bind
    refine (patchFolderSteps_safe hfresh).weaken _ ?_
    intro answer w₁ hresult
    exact respond_safe hresult

/-- The folder of the last request that succeeded carries the role it asked for. -/
def LastServed (w : RoleWorld) : Prop :=
  ∀ folder role rest, w.answered = (folder, role) :: rest → Carries w.folders folder role

abbrev RolePool := Pool RoleWorld RoleCall RoleCall.Answer

def archived (id : FolderId) : FolderRow where
  id := id
  accountId := "a".toList
  externalId := none
  name := id

def first : FolderId := "f1".toList
def second : FolderId := "f2".toList

theorem archived_ids : (([archived first, archived second]).map FolderRow.id).Nodup := by decide

theorem archived_keys : KeysDistinct FolderRow.key [archived first, archived second] := by
  unfold KeysDistinct
  simp only [List.pairwise_cons, List.mem_singleton, List.not_mem_nil]
  exact ⟨fun g _ => .inl rfl, fun g hg => hg.elim, List.Pairwise.nil⟩

def twoFolders : FolderTable := ⟨[archived first, archived second], archived_ids, archived_keys⟩

def ada : Text := "ada".toList

def noRoles : RoleWorld where
  owner _ := some ada
  initial := twoFolders
  folders := twoFolders
  log := []
  seen _ := 0
  pending := []
  answered := []

theorem noRoles_init (validId : Text → Bool) : (roleService validId).init noRoles := by
  refine ⟨rfl, ?_, rfl, rfl, rfl⟩
  intro f hf g _ role _ hrole
  have hnone : ∀ a ∈ twoFolders.rows, a.roleOverride = none := by decide
  rw [hnone f hf] at hrole
  cases hrole

abbrev RoleAction := PoolAction RoleRequest CallOutcome Empty

def trash : Text := "trash".toList

/-- Both requests take the role from the other folder, then both give it to their own. -/
def crossed : List RoleAction :=
  [.arrive ⟨first, ada, trash⟩, .arrive ⟨second, ada, trash⟩, .call 0 .works, .call 1 .works,
    .call 0 .works, .call 1 .works, .call 0 .works, .call 1 .works, .call 0 .works, .call 0 .works,
    .call 0 .works, .call 1 .works, .call 1 .works, .call 1 .works]

theorem promoted_accountId (id : FolderId) :
    ({ archived id with roleOverride := some trash } : FolderRow).accountId = "a".toList := rfl

theorem eq_of_exclusive {t : FolderTable} (h : Exclusive t)
    (hfirst : { archived first with roleOverride := some trash } ∈ t.rows)
    (hsecond : { archived second with roleOverride := some trash } ∈ t.rows) : first = second :=
  h _ hfirst _ hsecond trash ((promoted_accountId first).trans (promoted_accountId second).symm)
    rfl rfl

/-- One request after the other. -/
def inTurn : List RoleAction :=
  [.arrive ⟨first, ada, trash⟩, .call 0 .works, .call 0 .works, .call 0 .works, .call 0 .works,
    .call 0 .works, .call 0 .works, .arrive ⟨second, ada, trash⟩, .call 1 .works, .call 1 .works,
    .call 1 .works, .call 1 .works, .call 1 .works, .call 1 .works]

end Lyra.FolderRoles
