import Lyra.Spam.Engine
import Lyra.Imap.LocalRows
import Lyra.Jmap.Writes
import Lyra.Lib.Runs

/-!
# Whether a user's verdict sticks

A message that the user marked as not spam should not be filed as spam again by a later
pass, re-judge or sync.

The verdict is a column of the row.  A pass leaves rows with a verdict alone, and so does
a re-judge, but a message that was moved on an IMAP server comes back under a new UID, and
the row a sync inserts for it has no verdict.  The server's mailboxes carry the identity
of each message (`ServerBox`); a JMAP email is its id.

* `filesOnly_spamPass`, `filesOnly_applySenderListChange`: which rows are given a spam
  verdict;
* `verdict_sticks`: in every run whose passes meet no verdict-less row of a marked message
  that they judge spam, the user's verdicts stick;
* `verdict_lost`: a message moved back to the inbox.
-/

namespace Lyra

open Lyra.Lib

/-! ## Messages -/

/-- What a row stands for: a message of an IMAP server, a JMAP email, or itself. -/
inductive MessageName
  | imap (acc : AccountId) (message : Nat)
  | jmap (acc : AccountId) (email : Text)
  | row (id : Nat)
  deriving DecidableEq, Repr

/-- The message to which the mailbox of `F` gave UID `u`, for the external id `F:u`. -/
def Mail.imapMessage (m : Mail) (acc : AccountId) (externalId : Text) : Option Nat :=
  match parseImapUid (some externalId) with
  | .error _ => none
  | .ok uid =>
    ((m.db.folders.rows.find? fun f => imapMessageExternalId f.id uid == externalId).bind
      FolderRow.externalId).bind fun name => (m.server acc name).assigned.lookup uid

def Mail.messageOf (protocol : AccountId → Protocol) (m : Mail) (r : MessageRow) : MessageName :=
  match protocol r.accountId, r.externalId with
  | .imap, some e => (m.imapMessage r.accountId e).elim (.row r.id) (.imap r.accountId)
  | .jmap, some e => .jmap r.accountId e
  | _, _ => .row r.id

/-! ## Runs -/

structure SpamWorld where
  state : SpamState
  /-- The messages marked as not spam, with their senders, and not marked as spam or
  block-listed since. -/
  marks : List (MessageName × Option Text)
  /-- The messages that a pass, a re-judge or a sync filed as spam while they were marked. -/
  refiled : MessageName → Prop

inductive SpamAction
  | server (acc : AccountId) (server : Server)
  | imapSync (acc : AccountId) (names : MailboxNames) (r : AccountReplies)
  | jmapSync (acc : AccountId) (fails : Nat → Option SyncError) (seam : Seam) (fuel : Nat)
  | spamPass (r : PassReplies)
  | rejudge (entryEmail : Text) (list : SenderList) (r : RejudgeReplies)
  | notSpam (id : Nat) (r : VerdictReplies)
  | spam (id : Nat) (r : VerdictReplies)
  | postSender (email : Text) (list : SenderList) (stored : Bool)
  | deleteSender (email : Text) (stored : Bool)
  | putSettings (settings : SpamSettings) (stored : Bool)

/-- Not a request of the user. -/
def SpamAction.automatic : SpamAction → Bool
  | .spamPass _ | .rejudge .. | .imapSync .. | .jmapSync .. => true
  | _ => false

/-- A sync, which shows a message in the folder its server has it in. -/
def SpamAction.isSync : SpamAction → Bool
  | .imapSync .. | .jmapSync .. => true
  | _ => false

def folderRole (db : Db) (folder : FolderId) : Option Text :=
  (db.folders.rows.find? fun f => f.id == folder).bind FolderRow.effectiveRole

/-- The row is given a spam verdict. -/
def GivenSpamVerdict (before after : Db) (r' : MessageRow) : Prop :=
  r' ∈ after.messages.rows ∧ ∃ v, r'.spamVerdict = some v ∧ v.isSpam = true ∧
    ∀ r ∈ before.messages.rows, r.id = r'.id → r.spamVerdict ≠ some v

/-- The row is moved to a spam folder. -/
def MovedToSpam (before after : Db) (r' : MessageRow) : Prop :=
  r' ∈ after.messages.rows ∧ folderRole after r'.folderId = some "spam".toList ∧
    ∃ r ∈ before.messages.rows, r.id = r'.id ∧ r.folderId ≠ r'.folderId

/-- The step files a row of the message as spam. -/
def FilesAsSpam (protocol : AccountId → Protocol) (before after : Mail) (a : SpamAction)
    (m : MessageName) : Prop :=
  ∃ r', before.messageOf protocol r' = m ∧
    (GivenSpamVerdict before.db after.db r' ∨
      (a.isSync = false ∧ MovedToSpam before.db after.db r'))

section World

variable (ops : TextOps) (protocol : AccountId → Protocol)

def SpamState.withMail (s : SpamState) (db : Db) : SpamState :=
  { s with mail := { s.mail with db := db } }

/-- The state an action leaves. -/
def SpamState.after (s : SpamState) : SpamAction → SpamState
  | .server acc server =>
    { s with mail := { s.mail with server := fun a => if a = acc then server else s.mail.server a } }
  | .imapSync acc names r => s.withMail (runImapSync names s.mail.db acc r).2.db
  | .jmapSync acc fails seam fuel =>
    s.withMail
      ((runJmapSync fails seam acc fuel).outcome
        { db := s.mail.db }).2.db
  | .spamPass r => { s with mail := spamPass ops protocol s.settings s.senders r s.mail }
  | .rejudge entryEmail list r =>
    { s with
      mail := applySenderListChange ops protocol entryEmail list r s.mail
      pending := s.pending.erase (entryEmail, list) }
  | .notSpam id r => (notSpamMessage ops protocol s id r).2
  | .spam id r => (spamMessage ops protocol s id r).2
  | .postSender email list stored => (postSender ops s email list stored).2
  | .deleteSender email stored =>
    if stored then { s with senders := removeSender ops s.senders email } else s
  | .putSettings settings stored => if stored then { s with settings := settings } else s

/-- The marks an action leaves. -/
def SpamWorld.marksAfter (w : SpamWorld) : SpamAction → List (MessageName × Option Text)
  | .notSpam id r =>
    match loadMessageRow w.state.mail.db id with
    | .error _ => w.marks
    | .ok loaded =>
      if r.stamp then
        (w.state.mail.messageOf protocol loaded.row, fromJsonEmail ops loaded.row.fromAddress) ::
          w.marks
      else w.marks
  | .spam id r =>
    match loadMessageRow w.state.mail.db id, (spamMessage ops protocol w.state id r).1 with
    | .ok loaded, .ok () =>
      w.marks.filter fun k => k.1 ≠ w.state.mail.messageOf protocol loaded.row
    | _, _ => w.marks
  | .postSender email .blocked stored =>
    match (postSender ops w.state email .blocked stored).1 with
    | .ok () => w.marks.filter fun k => !(k.2.any (senderMatches ops email))
    | .error _ => w.marks
  | _ => w.marks

/-- A re-judge runs once for each list edit. -/
def SpamWorld.Enabled (w : SpamWorld) : SpamAction → Prop
  | .rejudge entryEmail list _ => (entryEmail, list) ∈ w.state.pending
  | _ => True

def SpamWorld.next (w : SpamWorld) (a : SpamAction) : SpamWorld where
  state := w.state.after ops protocol a
  marks := w.marksAfter ops protocol a
  refiled m := w.refiled m ∨
    (a.automatic = true ∧ m ∈ w.marks.map Prod.fst ∧
      FilesAsSpam protocol w.state.mail (w.state.after ops protocol a).mail a m)

/-- Runs from any mail, settings and lists. -/
def spamSystem : System SpamWorld SpamAction where
  init w := w.marks = [] ∧ ∀ m, ¬ w.refiled m
  step w a w' := w.Enabled a ∧ w' = w.next ops protocol a

/-! ## The condition -/

def SpamWorld.Marked (w : SpamWorld) (r : MessageRow) : Prop :=
  w.state.mail.messageOf protocol r ∈ w.marks.map Prod.fst

/-- The row is among those the heuristic batch of a pass judges. -/
def SpamWorld.InBatch (w : SpamWorld) (r : MessageRow) : Prop :=
  w.state.settings.enabled = true ∧
    r ∈ roleRows w.state.mail.db "inbox".toList spamPassBatch true

/-- A verdict-less inbox row of a marked message is not judged spam: by lists and
heuristics where the batch takes it, else by the assistant. -/
def PassSpares (w : SpamWorld) (r : PassReplies) : Prop :=
  ∀ row ∈ w.state.mail.db.messages.rows, inRole w.state.mail.db "inbox".toList row = true →
    row.spamVerdict = none → w.Marked protocol row →
    (w.InBatch row → ∀ v, judgeMessage ops (row.candidate ops).envelope w.state.settings
      w.state.senders = some v → v.isSpam = false) ∧
    (¬ w.InBatch row → ∀ judge sender, r.ai = some judge →
      fromJsonEmail ops row.fromAddress = some sender →
      judge (row.subject.getD []) sender ((row.bodyText.map (List.take 600)).getD []) ≠
        .ok (some true))

/-- A verdict-less or clean inbox row of a marked message is not the entry's. -/
def RejudgeSpares (w : SpamWorld) (entryEmail : Text) : Prop :=
  ∀ row ∈ w.state.mail.db.messages.rows, inRole w.state.mail.db "inbox".toList row = true →
    rejudgeable .blocked row.spamVerdict = true → w.Marked protocol row →
    ∀ sender, fromJsonEmail ops row.fromAddress = some sender →
      senderMatches ops entryEmail sender = false

def SparesMarked (w : SpamWorld) : SpamAction → Prop
  | .spamPass r => PassSpares ops protocol w r
  | .rejudge entryEmail .blocked _ => RejudgeSpares ops protocol w entryEmail
  | _ => True

end World

/-! ## Rows keep their verdicts -/

/-- The same row as a row of the database, its verdict apart. -/
def SameRow (r r' : MessageRow) : Prop :=
  r.id = r'.id ∧ r.accountId = r'.accountId ∧ r.externalId = r'.externalId

theorem SameRow.refl (r : MessageRow) : SameRow r r := ⟨rfl, rfl, rfl⟩

theorem SameRow.trans {a b c : MessageRow} (h : SameRow a b) (h' : SameRow b c) : SameRow a c :=
  ⟨h.1.trans h'.1, h.2.1.trans h'.2.1, h.2.2.trans h'.2.2⟩

/-- A row has no verdict, or had it before: what a sync does. -/
def KeepsVerdicts (db db' : Db) : Prop :=
  ∀ r' ∈ db'.messages.rows, r'.spamVerdict = none ∨
    ∃ r ∈ db.messages.rows, SameRow r r' ∧ r.spamVerdict = r'.spamVerdict

section Syncs

variable {acc : AccountId} {db db₁ db₂ : Db}

theorem KeepsVerdicts.frame (h : db₁.messages = db.messages) : KeepsVerdicts db db₁ := by
  intro r hr
  rw [h] at hr
  exact .inr ⟨r, hr, SameRow.refl r, rfl⟩

theorem KeepsVerdicts.trans (h : KeepsVerdicts db db₁) (h' : KeepsVerdicts db₁ db₂) :
    KeepsVerdicts db db₂ := by
  intro r₂ hr₂
  rcases h' r₂ hr₂ with hnone | ⟨r₁, hr₁, hsame₁, hv₁⟩
  · exact .inl hnone
  · rcases h r₁ hr₁ with hnone | ⟨r, hr, hsame, hv⟩
    · exact .inl (hv₁ ▸ hnone)
    · exact .inr ⟨r, hr, hsame.trans hsame₁, hv.trans hv₁⟩

theorem KeepsVerdicts.of_update {g : MessageRow → MessageRow} (hsame : ∀ x, SameRow x (g x))
    (hv : ∀ x, (g x).spamVerdict = x.spamVerdict)
    (h : ∀ r' ∈ db₁.messages.rows, ∃ x ∈ db.messages.rows, g x = r') : KeepsVerdicts db db₁ := by
  intro r' hr'
  obtain ⟨x, hx, rfl⟩ := h r' hr'
  exact .inr ⟨x, hx, hsame x, (hv x).symm⟩

theorem KeepsVerdicts.updateWhere {p : MessageRow → Bool} {g : MessageRow → MessageRow}
    (hsame : ∀ x, SameRow x (g x)) (hv : ∀ x, (g x).spamVerdict = x.spamVerdict)
    (h : db₁.messages.rows = db.messages.rows.map fun x => if p x then g x else x) :
    KeepsVerdicts db db₁ := by
  refine KeepsVerdicts.of_update (g := fun x => if p x then g x else x) ?_ ?_ ?_
  · intro x
    split
    · exact hsame x
    · exact SameRow.refl x
  · intro x
    split
    · exact hv x
    · rfl
  · intro r' hr'
    rw [h] at hr'
    exact List.mem_map.mp hr'

theorem keepsVerdicts_upsertMessages (f : FolderId) (ms : List ImapMessage) (db : Db) :
    KeepsVerdicts db (upsertMessages acc f db ms).2 := by
  induction ms generalizing db with
  | nil => exact KeepsVerdicts.frame rfl
  | cons m ms ih =>
    rw [upsertMessages_cons]
    refine KeepsVerdicts.trans ?_ (ih _)
    intro r hr
    rcases (mem_upsertMessageInTx db acc f m r).mp hr with ⟨x, hx, hxr⟩ | ⟨_, rfl⟩
    · refine .inr ⟨x, hx, ?_, ?_⟩
      · rw [← hxr]
        split <;> exact ⟨rfl, rfl, rfl⟩
      · rw [← hxr]
        split <;> rfl
    · exact .inl rfl

theorem keepsVerdicts_upsertJmapMessages (f : FolderId) (ms : List JmapEmail) (db : Db) :
    KeepsVerdicts db (upsertJmapMessages acc f db ms).2 := by
  induction ms generalizing db with
  | nil => exact KeepsVerdicts.frame rfl
  | cons m ms ih =>
    have hone : KeepsVerdicts db (upsertJmapMessageInTx db acc f m).2 := by
      intro r hr
      rcases (mem_upsertJmapMessageInTx db acc f m r).mp hr with ⟨x, hx, hxr⟩ | ⟨_, rfl⟩
      · refine .inr ⟨x, hx, ?_, ?_⟩
        · rw [← hxr]
          split <;> exact ⟨rfl, rfl, rfl⟩
        · rw [← hxr]
          split <;> rfl
      · exact .inl rfl
    exact hone.trans (ih (upsertJmapMessageInTx db acc f m).2)

theorem keepsVerdicts_deleteWhere (p : MessageRow → Bool) (db : Db) :
    KeepsVerdicts db { db with messages := db.messages.deleteWhere p } := by
  intro r hr
  obtain ⟨hr, _⟩ := (KeyedTable.mem_deleteWhere ..).mp hr
  exact .inr ⟨r, hr, SameRow.refl r, rfl⟩

/-- No IMAP pass gives a verdict. -/
theorem keptByPass_keepsVerdicts (acc : AccountId) : KeptByPass acc KeepsVerdicts where
  frame _ _ h := KeepsVerdicts.frame h
  trans _ _ _ h h' := h.trans h'
  persist := by
    intro db f ms c clear
    have hwipe : KeepsVerdicts db (if clear then clearFolderMessagesInTx db f else db) := by
      cases clear with
      | false => exact KeepsVerdicts.frame rfl
      | true => exact keepsVerdicts_deleteWhere _ db
    exact hwipe.trans (keepsVerdicts_upsertMessages f ms _)
  repair := by
    intro db f ms
    have hupsert : KeepsVerdicts db (upsertMessages acc f db ms).2 :=
      keepsVerdicts_upsertMessages f ms db
    refine hupsert.trans ?_
    exact KeepsVerdicts.updateWhere (g := fun r => { r with bodyText := none, bodyHtml := none })
      (fun _ => ⟨rfl, rfl, rfl⟩) (fun _ => rfl) rfl
  reconcile := by
    intro db f us
    exact KeepsVerdicts.updateWhere (g := fun r => { r with isDeleted := true })
      (fun _ => ⟨rfl, rfl, rfl⟩) (fun _ => rfl) (rows_reconcileFolderDeletions db acc f us)

theorem keptByWrites_keepsVerdicts (acc : AccountId) : KeptByWrites acc KeepsVerdicts where
  frame _ _ h := KeepsVerdicts.frame h
  trans _ _ _ h h' := h.trans h'
  persist := by
    intro db folder emails qs
    have hupsert : KeepsVerdicts db (upsertJmapMessages acc folder db emails).2 :=
      keepsVerdicts_upsertJmapMessages folder emails db
    refine hupsert.trans ?_
    apply KeepsVerdicts.frame
    cases qs <;> rfl
  delete db ids := keepsVerdicts_deleteWhere _ db

end Syncs

/-! ## Rows that are filed -/

/-- Every row was there before; only rows `P` names are given a spam verdict or moved to a
spam folder.  Folders keep their roles. -/
structure FilesOnly (P : Nat → Prop) (db db' : Db) : Prop where
  rows : ∀ r' ∈ db'.messages.rows, ∃ r ∈ db.messages.rows, SameRow r r' ∧
    (r'.spamVerdict = r.spamVerdict ∨ (∀ v, r'.spamVerdict = some v → v.isSpam = false) ∨ P r.id) ∧
    (r'.folderId = r.folderId ∨ folderRole db' r'.folderId ≠ some "spam".toList ∨ P r.id)
  roles : ∀ k, folderRole db' k = folderRole db k

/-- Live rows without a verdict are left as they were. -/
structure LeavesUnjudged (db db' : Db) : Prop where
  rows : ∀ r ∈ db'.messages.rows, r.spamVerdict = none → r.isDeleted = false →
    r ∈ db.messages.rows
  roles : ∀ k, folderRole db' k = folderRole db k

/-- The live row with this id has a verdict. -/
def JudgedAt (db : Db) (id : Nat) : Prop :=
  ∀ r ∈ db.messages.rows, r.id = id → r.isDeleted = false → r.spamVerdict ≠ none

section Files

variable {P : Nat → Prop} {db db₁ db₂ : Db}

theorem inRole_eq (role : Text) (r : MessageRow) :
    inRole db role r = (!r.isDeleted && decide (folderRole db r.folderId = some role)) := by
  unfold inRole folderRole
  cases db.folders.rows.find? fun f => f.id == r.folderId with
  | none => rfl
  | some f => rfl

theorem FilesOnly.refl (db : Db) : FilesOnly P db db where
  rows r hr := ⟨r, hr, SameRow.refl r, .inl rfl, .inl rfl⟩
  roles _ := rfl

theorem FilesOnly.trans (h : FilesOnly P db db₁) (h' : FilesOnly P db₁ db₂) :
    FilesOnly P db db₂ where
  rows := by
    intro r₂ hr₂
    obtain ⟨r₁, hr₁, hsame₁, hv₁, hf₁⟩ := h'.rows r₂ hr₂
    obtain ⟨r, hr, hsame, hv, hf⟩ := h.rows r₁ hr₁
    refine ⟨r, hr, hsame.trans hsame₁, ?_, ?_⟩
    · rcases hv₁ with hv₁ | hv₁ | hv₁
      · rw [hv₁]
        exact hv
      · exact .inr (.inl hv₁)
      · exact .inr (.inr (hsame.1 ▸ hv₁))
    · rcases hf₁ with hf₁ | hf₁ | hf₁
      · rw [hf₁, h'.roles]
        exact hf
      · exact .inr (.inl hf₁)
      · exact .inr (.inr (hsame.1 ▸ hf₁))
  roles k := (h'.roles k).trans (h.roles k)

theorem LeavesUnjudged.refl (db : Db) : LeavesUnjudged db db := ⟨fun _ h _ _ => h, fun _ => rfl⟩

theorem LeavesUnjudged.trans (h : LeavesUnjudged db db₁) (h' : LeavesUnjudged db₁ db₂) :
    LeavesUnjudged db db₂ where
  rows := by
    intro r hr hnone hlive
    exact h.rows r (h'.rows r hr hnone hlive) hnone hlive
  roles k := (h'.roles k).trans (h.roles k)

theorem LeavesUnjudged.judgedAt (h : LeavesUnjudged db db₁) {id : Nat} (hj : JudgedAt db id) :
    JudgedAt db₁ id := by
  intro r hr hid hlive hnone
  exact hj r (h.rows r hr hnone hlive) hid hlive hnone

theorem folderRole_updateFolderCountsInTx (k folder : FolderId) :
    folderRole (updateFolderCountsInTx db k) folder = folderRole db folder := by
  have hrows : (updateFolderCountsInTx db k).folders.rows = db.folders.rows.map fun f =>
      if f.id == k then { f with
        totalMessages := saturateI32 (folderTotal db k)
        unreadMessages := saturateI32 (folderUnread db k) } else f := rfl
  have hid : ((fun f : FolderRow => f.id == folder) ∘ fun f =>
      if f.id == k then { f with
        totalMessages := saturateI32 (folderTotal db k)
        unreadMessages := saturateI32 (folderUnread db k) } else f) = fun f => f.id == folder := by
    funext f
    simp only [Function.comp_apply]
    split <;> rfl
  unfold folderRole
  rw [hrows, List.find?_map, hid]
  cases db.folders.rows.find? fun f => f.id == folder with
  | none => rfl
  | some f =>
    simp only [Option.map_some, Option.bind_some]
    split <;> rfl

theorem filesOnly_counts (k : FolderId) : FilesOnly P db (updateFolderCountsInTx db k) where
  rows r hr := ⟨r, hr, SameRow.refl r, .inl rfl, .inl rfl⟩
  roles := folderRole_updateFolderCountsInTx k

theorem leaves_counts (k : FolderId) : LeavesUnjudged db (updateFolderCountsInTx db k) :=
  ⟨fun _ h _ _ => h, folderRole_updateFolderCountsInTx k⟩

/-- A change of the rows with one id. -/
theorem filesOnly_updateRow {id : Nat} {g : MessageRow → MessageRow} {hid : ∀ r, (g r).id = r.id}
    {hkey : ∀ r, (g r).key = r.key} (hsame : ∀ x, SameRow x (g x))
    (hv : ∀ x, x.id = id → (g x).spamVerdict = x.spamVerdict ∨
      (∀ v, (g x).spamVerdict = some v → v.isSpam = false) ∨ P x.id)
    (hf : ∀ x, x.id = id → (g x).folderId = x.folderId ∨
      folderRole db (g x).folderId ≠ some "spam".toList ∨ P x.id) :
    FilesOnly P db (updateRow db id g hid hkey) where
  rows := by
    intro r' hr'
    obtain ⟨x, hx, ⟨h, rfl⟩ | ⟨_, rfl⟩⟩ := mem_updateRow hr'
    · exact ⟨x, hx, hsame x, hv x h, hf x h⟩
    · exact ⟨r', hx, SameRow.refl r', .inl rfl, .inl rfl⟩
  roles _ := rfl

theorem leaves_updateRow {id : Nat} {g : MessageRow → MessageRow} {hid : ∀ r, (g r).id = r.id}
    {hkey : ∀ r, (g r).key = r.key}
    (hv : ∀ x ∈ db.messages.rows, x.id = id → (g x).spamVerdict = none → (g x).isDeleted = false →
      x = g x) : LeavesUnjudged db (updateRow db id g hid hkey) where
  rows := by
    intro r' hr' hnone hlive
    obtain ⟨x, hx, ⟨h, rfl⟩ | ⟨_, rfl⟩⟩ := mem_updateRow hr'
    · rw [← hv x hx h hnone hlive]
      exact hx
    · exact hx
  roles _ := rfl

theorem filesOnly_writeMove (r : MessageRow) {dest : FolderId}
    (hP : folderRole db dest = some "spam".toList → P r.id) : FilesOnly P db (writeMove db r dest) := by
  refine FilesOnly.trans ?_ ((filesOnly_counts r.folderId).trans (filesOnly_counts dest))
  apply filesOnly_updateRow
  · intro _
    exact ⟨rfl, rfl, rfl⟩
  · intro _ _
    exact .inl rfl
  · intro x hx
    by_cases hrole : folderRole db dest = some "spam".toList
    · exact .inr (.inr (hx ▸ hP hrole))
    · exact .inr (.inl hrole)

theorem leaves_writeMove {r : MessageRow} (dest : FolderId) (hj : ∀ x ∈ db.messages.rows,
    x.id = r.id → x.spamVerdict ≠ none) : LeavesUnjudged db (writeMove db r dest) := by
  refine LeavesUnjudged.trans ?_ ((leaves_counts r.folderId).trans (leaves_counts dest))
  apply leaves_updateRow
  intro x hx hid hnone _
  exact absurd hnone (hj x hx hid)

theorem filesOnly_softDeleteRow (r : MessageRow) : FilesOnly P db (softDeleteRow db r) := by
  refine FilesOnly.trans ?_ (filesOnly_counts r.folderId)
  exact filesOnly_updateRow (fun _ => ⟨rfl, rfl, rfl⟩) (fun _ _ => .inl rfl) fun _ _ => .inl rfl

theorem leaves_softDeleteRow (r : MessageRow) : LeavesUnjudged db (softDeleteRow db r) := by
  refine LeavesUnjudged.trans ?_ (leaves_counts r.folderId)
  apply leaves_updateRow
  intro x _ _ _ hlive
  cases hlive

end Files

section Steps

variable {ops : TextOps} {protocol : AccountId → Protocol} {P : Nat → Prop}

theorem filesOnly_setSpamVerdict (m : Mail) (id : Nat) {v : SpamVerdict}
    (hP : v.isSpam = true → P id) : FilesOnly P m.db (m.setSpamVerdict id v).db := by
  apply filesOnly_updateRow
  · intro _
    exact ⟨rfl, rfl, rfl⟩
  · intro x hx
    cases hspam : v.isSpam with
    | true => exact .inr (.inr (hx ▸ hP hspam))
    | false =>
      refine .inr (.inl ?_)
      intro w hw
      cases hw
      exact hspam
  · intro _ _
    exact .inl rfl

theorem leaves_setSpamVerdict (m : Mail) (id : Nat) (v : SpamVerdict) :
    LeavesUnjudged m.db (m.setSpamVerdict id v).db := by
  apply leaves_updateRow
  intro x _ _ hnone _
  cases hnone

theorem judged_setSpamVerdict (m : Mail) (id : Nat) (v : SpamVerdict) :
    ∀ x ∈ (m.setSpamVerdict id v).db.messages.rows, x.id = id → x.spamVerdict ≠ none := by
  intro x hx hid hnone
  obtain ⟨y, _, ⟨_, rfl⟩ | ⟨h, rfl⟩⟩ := mem_updateRow hx
  · cases hnone
  · exact h hid

/-- A full-row move fails, or writes the move. -/
theorem moveRowToRole_db (protocol : AccountId → Protocol) (m : Mail) (id : Nat) (role : Text)
    (reply : MoveReply) :
    (moveRowToRole protocol m id role reply).2.db = m.db ∨
      ∃ loaded dest, loadMessageRow m.db id = .ok loaded ∧ folderRole m.db dest = some role ∧
        (moveRowToRole protocol m id role reply).2.db = writeMove m.db loaded.row dest := by
  unfold moveRowToRole
  cases hload : loadMessageRow m.db id with
  | error e => exact .inl rfl
  | ok loaded =>
    dsimp only
    split
    · exact .inl rfl
    · rename_i dest hdest
      have hrole : folderRole m.db dest.id = some role := by
        unfold folderRole
        rw [find_folder (roleFolder_mem hdest)]
        exact roleFolder_role hdest
      dsimp only [Mail.settle, Outcome.commit]
      split
      · rename_i db' hdb
        exact .inr ⟨loaded, dest.id, rfl, hrole, applyMessageMove_result hdb⟩
      · exact .inl rfl

theorem filesOnly_moveRowToRole (m : Mail) (id : Nat) {role : Text} (reply : MoveReply)
    (hP : role = "spam".toList → P id) :
    FilesOnly P m.db (moveRowToRole protocol m id role reply).2.db := by
  rcases moveRowToRole_db protocol m id role reply with
    h | ⟨loaded, dest, hload, hrole, h⟩
  · rw [h]
    exact FilesOnly.refl _
  · rw [h]
    apply filesOnly_writeMove
    intro hspam
    rw [hrole] at hspam
    rw [loadMessageRow_id hload]
    exact hP (Option.some.inj hspam)

theorem leaves_moveRowToRole {m : Mail} {id : Nat} (role : Text) (reply : MoveReply)
    (hj : ∀ x ∈ m.db.messages.rows, x.id = id → x.spamVerdict ≠ none) :
    LeavesUnjudged m.db (moveRowToRole protocol m id role reply).2.db := by
  rcases moveRowToRole_db protocol m id role reply with h | ⟨loaded, dest, hload, _, h⟩
  · rw [h]
    exact LeavesUnjudged.refl _
  · rw [h]
    apply leaves_writeMove
    intro x hx hid
    exact hj x hx (hid.trans (loadMessageRow_id hload))

/-- The heuristic batch stamps its rows as they are judged, and when it goes through, all
of them. -/
theorem judgeRows_spec {settings : SpamSettings} {senders : List SenderEntry} {r : PassReplies}
    (rows : List SpamCandidate) (m : Mail)
    (hP : ∀ c ∈ rows, ∀ v, judgeMessage ops c.envelope settings senders = some v →
      v.isSpam = true → P c.id) :
    FilesOnly P m.db (judgeRows ops protocol settings senders r m rows).2.db ∧
      LeavesUnjudged m.db (judgeRows ops protocol settings senders r m rows).2.db ∧
      ((judgeRows ops protocol settings senders r m rows).1 = .ok () →
        ∀ c ∈ rows, JudgedAt (judgeRows ops protocol settings senders r m rows).2.db c.id) := by
  induction rows generalizing m with
  | nil =>
    refine ⟨FilesOnly.refl _, LeavesUnjudged.refl _, ?_⟩
    intro _ c hc
    cases hc
  | cons c rows ih =>
    have hrest := fun m => ih m fun c' hc' => hP c' (List.mem_cons_of_mem _ hc')
    obtain ⟨v, hv⟩ : ∃ v, judgeMessage ops c.envelope settings senders = some v := by
      unfold judgeMessage
      split
      · exact ⟨_, rfl⟩
      · exact ⟨_, rfl⟩
      · exact ⟨_, rfl⟩
      · exact ⟨_, rfl⟩
    unfold judgeRows
    rw [hv]
    dsimp only
    cases r.stamp c.id with
    | false => exact ⟨FilesOnly.refl _, LeavesUnjudged.refl _, fun h => nomatch h⟩
    | true =>
      rw [if_pos rfl]
      have hstamped := filesOnly_setSpamVerdict m c.id (hP c List.mem_cons_self v hv)
      have hleaves := leaves_setSpamVerdict m c.id v
      have hjudged := judged_setSpamVerdict m c.id v
      -- Whether or not the row moves, it has its verdict.
      have hmoved : FilesOnly P m.db (if v = .spam ∨ v = .blocked then
            (moveRowToSpam protocol (m.setSpamVerdict c.id v) c.id (r.move c.id)).2
          else m.setSpamVerdict c.id v).db ∧
          LeavesUnjudged (m.setSpamVerdict c.id v).db (if v = .spam ∨ v = .blocked then
            (moveRowToSpam protocol (m.setSpamVerdict c.id v) c.id (r.move c.id)).2
          else m.setSpamVerdict c.id v).db := by
        split
        · rename_i hspam
          refine ⟨hstamped.trans (filesOnly_moveRowToRole _ _ _ ?_), leaves_moveRowToRole _ _ hjudged⟩
          intro _
          apply hP c List.mem_cons_self v hv
          rcases hspam with rfl | rfl
          · rfl
          · rfl
        · exact ⟨hstamped, LeavesUnjudged.refl _⟩
      obtain ⟨hst, hlv, hall⟩ := hrest (if v = .spam ∨ v = .blocked then
            (moveRowToSpam protocol (m.setSpamVerdict c.id v) c.id (r.move c.id)).2
          else m.setSpamVerdict c.id v)
      refine ⟨hmoved.1.trans hst, hleaves.trans (hmoved.2.trans hlv), ?_⟩
      intro hok c' hc'
      rcases List.mem_cons.mp hc' with rfl | hc'
      · apply (hmoved.2.trans hlv).judgedAt
        intro x hx hid _
        exact hjudged x hx hid
      · exact hall hok c' hc'

theorem purgeRow_spec (m : Mail) (id : Nat) (reply : MoveReply) :
    FilesOnly P m.db (purgeRow protocol m id reply).db ∧
      LeavesUnjudged m.db (purgeRow protocol m id reply).db := by
  unfold purgeRow
  cases hload : loadMessageRow m.db id with
  | error e => exact ⟨FilesOnly.refl _, LeavesUnjudged.refl _⟩
  | ok loaded =>
    dsimp only [Mail.settle, Outcome.commit]
    split
    · rename_i db' hdb
      unfold destroyRowServerSide at hdb
      rw [hload] at hdb
      rw [deleteServerSide_result hdb]
      exact ⟨filesOnly_softDeleteRow _, leaves_softDeleteRow _⟩
    · exact ⟨FilesOnly.refl _, LeavesUnjudged.refl _⟩

theorem purgeRows_spec {r : PassReplies} (rows : List SpamCandidate) (m : Mail) :
    FilesOnly P m.db (purgeRows protocol r m rows).db ∧
      LeavesUnjudged m.db (purgeRows protocol r m rows).db := by
  induction rows generalizing m with
  | nil => exact ⟨FilesOnly.refl _, LeavesUnjudged.refl _⟩
  | cons c rows ih =>
    unfold purgeRows
    split
    · obtain ⟨hs, hl⟩ : FilesOnly P m.db (purgeRow protocol m c.id (r.move c.id)).db ∧
          LeavesUnjudged m.db (purgeRow protocol m c.id (r.move c.id)).db :=
        purgeRow_spec m c.id (r.move c.id)
      obtain ⟨hs', hl'⟩ := ih (purgeRow protocol m c.id (r.move c.id))
      exact ⟨hs.trans hs', hl.trans hl'⟩
    · exact ih m

/-- The AI batch stamps spam on the rows the assistant calls spam. -/
theorem filesOnly_aiRows {judge : AiJudge} {r : PassReplies} (rows : List SpamCandidate) (m : Mail)
    (hP : ∀ c ∈ rows, ∀ sender, c.fromEmail = some sender →
      judge (c.subject.getD []) sender (c.bodyHead.getD []) = .ok (some true) → P c.id) :
    FilesOnly P m.db (aiRows protocol judge r m rows).db := by
  induction rows generalizing m with
  | nil => exact FilesOnly.refl _
  | cons c rows ih =>
    have hrest := fun m => ih m fun c' hc' => hP c' (List.mem_cons_of_mem _ hc')
    unfold aiRows
    split
    · exact hrest m
    · rename_i sender hs
      split
      · rename_i hspam
        split
        · have hc := hP c List.mem_cons_self sender hs hspam
          have hone := filesOnly_setSpamVerdict m c.id (v := .aiSpam) fun _ => hc
          exact (hone.trans (filesOnly_moveRowToRole _ _ _ fun _ => hc)).trans (hrest _)
        · exact hrest m
      · refine FilesOnly.trans ?_ (hrest _)
        split
        · exact filesOnly_setSpamVerdict m c.id fun h => nomatch h
        · exact FilesOnly.refl _
      · exact hrest m
      · exact hrest m

end Steps

/-! ## The pass and the re-judge -/

section Passes

variable {ops : TextOps} {protocol : AccountId → Protocol} {P : Nat → Prop}

theorem mem_roleRows {db : Db} {role : Text} {limit : Nat} {onlyUnjudged : Bool} {r : MessageRow}
    (h : r ∈ roleRows db role limit onlyUnjudged) :
    r ∈ db.messages.rows ∧ inRole db role r = true ∧ (onlyUnjudged = true → r.spamVerdict = none) := by
  have hr := List.mem_of_mem_take h
  rw [byDateDesc, List.mem_insertionSort, List.mem_filter, Bool.and_eq_true] at hr
  obtain ⟨hm, hrole, hu⟩ := hr
  refine ⟨hm, hrole, ?_⟩
  intro ho
  rw [ho] at hu
  simpa using hu

theorem inRole_live {db : Db} {role : Text} {r : MessageRow} (h : inRole db role r = true) :
    r.isDeleted = false := by
  unfold inRole at h
  rw [Bool.and_eq_true] at h
  simpa using h.1

/-- The heuristic batch takes the row, and it is judged spam. -/
def BatchFiles (ops : TextOps) (db : Db) (settings : SpamSettings) (senders : List SenderEntry)
    (id : Nat) : Prop :=
  ∃ r ∈ roleRows db "inbox".toList spamPassBatch true, r.id = id ∧ ∃ v,
    judgeMessage ops (r.candidate ops).envelope settings senders = some v ∧ v.isSpam = true

/-- The batch did not take the row, and the assistant calls it spam. -/
def AiFiles (ops : TextOps) (db : Db) (inBatch : MessageRow → Prop) (judge : AiJudge)
    (id : Nat) : Prop :=
  ∃ r ∈ db.messages.rows, r.id = id ∧ inRole db "inbox".toList r = true ∧
    r.spamVerdict = none ∧ ¬ inBatch r ∧ ∃ sender, fromJsonEmail ops r.fromAddress = some sender ∧
      judge (r.subject.getD []) sender ((r.bodyText.map (List.take 600)).getD []) = .ok (some true)

/-- The assistant's batch, after steps that left the unjudged rows alone. -/
theorem filesOnly_aiSpamAutoPass {r : PassReplies} {db : Db} {m : Mail}
    {inBatch : MessageRow → Prop} (hleft : LeavesUnjudged db m.db)
    (hbatch : ∀ row ∈ db.messages.rows, inBatch row → JudgedAt m.db row.id)
    (hP : ∀ judge, r.ai = some judge → ∀ id, AiFiles ops db inBatch judge id → P id) :
    FilesOnly P m.db (aiSpamAutoPass ops protocol r m).db := by
  unfold aiSpamAutoPass
  split
  · exact FilesOnly.refl _
  · rename_i judge hai
    split
    · apply filesOnly_aiRows
      intro c hc sender hsender hspam
      obtain ⟨row, hrow, rfl⟩ := List.mem_map.mp hc
      obtain ⟨hmem, hrole, hnone⟩ := mem_roleRows hrow
      have hlive := inRole_live hrole
      have hbefore := hleft.rows row hmem (hnone rfl) hlive
      apply hP judge hai
      refine ⟨row, hbefore, rfl, ?_, hnone rfl, ?_, sender, hsender, hspam⟩
      · rw [inRole_eq, ← hleft.roles, ← inRole_eq]
        exact hrole
      · intro hin
        exact hbatch row hbefore hin row hmem rfl hlive (hnone rfl)
    · exact FilesOnly.refl _

section Heuristic

variable {settings : SpamSettings} {senders : List SenderEntry} {r : PassReplies} {m : Mail}

/-- The heuristic batch, where the filter is on. -/
theorem heuristic_spec
    (hbatch : settings.enabled = true → ∀ id, BatchFiles ops m.db settings senders id → P id)
    {out : Except SyncError Unit × Mail}
    (hout : (if settings.enabled then judgeInboxBatch ops protocol settings senders r m
      else (.ok (), m)) = out) :
    FilesOnly P m.db out.2.db ∧ LeavesUnjudged m.db out.2.db ∧
      (out.1 = .ok () → ∀ row ∈ m.db.messages.rows, (settings.enabled = true ∧
        row ∈ roleRows m.db "inbox".toList spamPassBatch true) → JudgedAt out.2.db row.id) := by
  subst hout
  split
  case isFalse hoff =>
    refine ⟨FilesOnly.refl _, LeavesUnjudged.refl _, ?_⟩
    rintro _ row _ ⟨hon, _⟩
    exact absurd hon hoff
  case isTrue hon =>
    unfold judgeInboxBatch
    split
    case isFalse => exact ⟨FilesOnly.refl _, LeavesUnjudged.refl _, fun h => nomatch h⟩
    case isTrue =>
      have hP : ∀ c ∈ unjudgedRows ops m.db "inbox".toList spamPassBatch, ∀ v,
          judgeMessage ops c.envelope settings senders = some v → v.isSpam = true → P c.id := by
        intro c hc v hv hspam
        obtain ⟨row, hrow, rfl⟩ := List.mem_map.mp hc
        exact hbatch hon row.id ⟨row, hrow, rfl, v, hv, hspam⟩
      refine (judgeRows_spec _ m hP).imp_right fun ⟨hlv, hall⟩ => ⟨hlv, ?_⟩
      rintro hok row _ ⟨_, hrow⟩
      exact hall hok _ (List.mem_map_of_mem hrow)

theorem purge_spec {autoDelete : Bool} {out : Except SyncError Unit × Mail}
    (hout : (if autoDelete then purgeOldSpam protocol r m else (.ok (), m)) = out) :
    FilesOnly P m.db out.2.db ∧ LeavesUnjudged m.db out.2.db := by
  subst hout
  split
  · unfold purgeOldSpam
    split
    · exact purgeRows_spec _ m
    · exact ⟨FilesOnly.refl _, LeavesUnjudged.refl _⟩
  · exact ⟨FilesOnly.refl _, LeavesUnjudged.refl _⟩

/-- A pass files rows of its batch that are judged spam, and rows outside it that the
assistant calls spam. -/
theorem filesOnly_spamPass
    (hbatch : settings.enabled = true → ∀ id, BatchFiles ops m.db settings senders id → P id)
    (hai : ∀ judge, r.ai = some judge → ∀ id, AiFiles ops m.db (fun row =>
      settings.enabled = true ∧ row ∈ roleRows m.db "inbox".toList spamPassBatch true)
      judge id → P id) :
    FilesOnly P m.db (spamPass ops protocol settings senders r m).db := by
  unfold spamPass
  split
  case isFalse => exact FilesOnly.refl _
  case isTrue =>
    split
    case isTrue hoff =>
      -- The filter is off: no row is in the batch.
      apply filesOnly_aiSpamAutoPass (LeavesUnjudged.refl _) _ hai
      rintro row _ ⟨hon, _⟩
      rw [hon] at hoff
      cases hoff
    case isFalse =>
      split
      case isFalse => exact FilesOnly.refl _
      case isTrue =>
        split
        case h_1 m₁ hm₁ => exact (heuristic_spec hbatch hm₁).1
        case h_2 m₁ hm₁ =>
          obtain ⟨hst, hlv, hjudged⟩ := heuristic_spec hbatch hm₁
          split
          case h_1 m₂ hm₂ => exact hst.trans (purge_spec hm₂).1
          case h_2 m₂ hm₂ =>
            obtain ⟨hst₂, hlv₂⟩ := purge_spec (P := P) hm₂
            refine (hst.trans hst₂).trans ?_
            apply filesOnly_aiSpamAutoPass (hlv.trans hlv₂) _ hai
            intro row hrow hin
            exact hlv₂.judgedAt (hjudged rfl row hrow hin)

end Heuristic

theorem filesOnly_rejudgeRow {list : SenderList} {r : RejudgeReplies} (m : Mail) (id : Nat)
    (hP : list = .blocked → P id) : FilesOnly P m.db (rejudgeRow protocol list r m id).db := by
  cases list with
  | blocked =>
    have hstamp : FilesOnly P m.db (if r.stamp id then m.setSpamVerdict id .blocked else m).db := by
      split
      · exact filesOnly_setSpamVerdict m id fun _ => hP rfl
      · exact FilesOnly.refl _
    exact hstamp.trans (filesOnly_moveRowToRole _ _ _ fun _ => hP rfl)
  | allowed =>
    have hmove : FilesOnly P m.db (moveRowToInbox protocol m id (r.move id)).2.db := by
      apply filesOnly_moveRowToRole
      intro h
      exact absurd h (by decide)
    unfold rejudgeRow
    dsimp only
    split
    · rename_i m' hm
      have hm' : m' = (moveRowToInbox protocol m id (r.move id)).2 := by rw [hm]
      rw [hm']
      split
      · exact hmove.trans (filesOnly_setSpamVerdict _ id fun h => nomatch h)
      · exact hmove
    · rename_i m' hm
      have hm' : m' = (moveRowToInbox protocol m id (r.move id)).2 := by rw [hm]
      rw [hm']
      exact hmove

/-- A re-judge files unjudged or clean inbox rows of the blocked sender. -/
theorem filesOnly_applySenderListChange {entryEmail : Text} {list : SenderList} {r : RejudgeReplies}
    {m : Mail} (hP : list = .blocked → ∀ row ∈ m.db.messages.rows,
      inRole m.db "inbox".toList row = true → rejudgeable .blocked row.spamVerdict = true →
      ∀ sender, fromJsonEmail ops row.fromAddress = some sender →
        senderMatches ops entryEmail sender = true → P row.id) :
    FilesOnly P m.db (applySenderListChange ops protocol entryEmail list r m).db := by
  unfold applySenderListChange
  dsimp only
  split
  case isFalse => exact FilesOnly.refl _
  case isTrue =>
    generalize hscan : rejudgeIds ops _ entryEmail list = ids
    have hids : ∀ id ∈ ids, list = .blocked → P id := by
      rintro id hid rfl
      rw [← hscan] at hid
      obtain ⟨c, hc, rfl⟩ := List.mem_map.mp hid
      obtain ⟨hc, hany⟩ := List.mem_filter.mp (List.mem_of_mem_take hc)
      obtain ⟨row, hrow, rfl⟩ := List.mem_map.mp hc
      obtain ⟨hmem, hrole, _⟩ := mem_roleRows hrow
      obtain ⟨sender, hsender, hboth⟩ := (Option.any_eq_true _ _).mp hany
      rw [Bool.and_eq_true] at hboth
      exact hP rfl row hmem hrole hboth.2 sender hsender hboth.1
    clear hP hscan
    induction ids generalizing m with
    | nil => exact FilesOnly.refl _
    | cons id ids ih =>
      have hone : FilesOnly P m.db (rejudgeRow protocol list r m id).db :=
        filesOnly_rejudgeRow m id (hids id List.mem_cons_self)
      exact hone.trans (ih fun i hi => hids i (List.mem_cons_of_mem _ hi))

end Passes

/-! ## The property -/

section Sticks

variable {ops : TextOps} {protocol : AccountId → Protocol} {before after : Mail} {m : MessageName}

theorem SameRow.messageOf {r r' : MessageRow} (h : SameRow r r') :
    before.messageOf protocol r = before.messageOf protocol r' := by
  obtain ⟨hid, hacc, hext⟩ := h
  unfold Mail.messageOf
  rw [hid, hacc, hext]

theorem not_filesAsSpam_of_keeps {a : SpamAction} (hsync : a.isSync = true)
    (h : KeepsVerdicts before.db after.db) : ¬ FilesAsSpam protocol before after a m := by
  rintro ⟨r', _, ⟨hr', v, hv, _, hnew⟩ | ⟨hnot, _⟩⟩
  · rcases h r' hr' with hnone | ⟨r, hr, hsame, heq⟩
    · rw [hnone] at hv
      cases hv
    · exact hnew r hr hsame.1 (heq.trans hv)
  · rw [hsync] at hnot
    cases hnot

/-- What is filed is a row of the message that the step files. -/
theorem filed_of_filesAsSpam {P : Nat → Prop} {a : SpamAction}
    (h : FilesOnly P before.db after.db) (hfiles : FilesAsSpam protocol before after a m) :
    ∃ r ∈ before.db.messages.rows, before.messageOf protocol r = m ∧ P r.id := by
  obtain ⟨r', hname, ⟨hr', v, hv, hspam, hnew⟩ | ⟨_, hr', hrole, r₀, hr₀, hid, hmoved⟩⟩ := hfiles
  · obtain ⟨r, hr, hsame, hverdict, _⟩ := h.rows r' hr'
    refine ⟨r, hr, (hsame.messageOf).trans hname, ?_⟩
    rcases hverdict with heq | hclean | hP
    · exact absurd (heq.symm.trans hv) (hnew r hr hsame.1)
    · rw [hclean v hv] at hspam
      cases hspam
    · exact hP
  · obtain ⟨r, hr, hsame, _, hfolder⟩ := h.rows r' hr'
    refine ⟨r, hr, (hsame.messageOf).trans hname, ?_⟩
    obtain rfl := before.db.messages.eq_of_pk hr₀ hr (hid.trans hsame.1.symm)
    rcases hfolder with heq | hother | hP
    · exact absurd heq.symm hmoved
    · exact absurd hrole hother
    · exact hP

/-- A step that spares the marked messages files none of them. -/
theorem not_filesAsSpam_of_spares {w : SpamWorld} {a : SpamAction} (hauto : a.automatic = true)
    (h : SparesMarked ops protocol w a) (hm : m ∈ w.marks.map Prod.fst) :
    ¬ FilesAsSpam protocol w.state.mail (w.state.after ops protocol a).mail a m := by
  have hsame : ∀ {r r₀ : MessageRow}, r ∈ w.state.mail.db.messages.rows →
      r₀ ∈ w.state.mail.db.messages.rows → r₀.id = r.id → r₀ = r :=
    fun hr hr₀ hid => w.state.mail.db.messages.eq_of_pk hr₀ hr hid
  have hmarked : ∀ row : MessageRow, w.state.mail.messageOf protocol row = m →
      w.Marked protocol row := by
    rintro row rfl
    exact hm
  cases a with
  | imapSync acc names r =>
    exact not_filesAsSpam_of_keeps rfl ((keptByPass_keepsVerdicts acc).runImapSync _ _)
  | jmapSync acc fails seam fuel =>
    exact not_filesAsSpam_of_keeps rfl ((keptByWrites_keepsVerdicts acc).runJmapSync fuel _)
  | spamPass r =>
    intro hfiles
    have hst : FilesOnly (fun id => (w.state.settings.enabled = true ∧
          BatchFiles ops w.state.mail.db w.state.settings w.state.senders id) ∨
        ∃ judge, r.ai = some judge ∧ AiFiles ops w.state.mail.db w.InBatch judge id)
        w.state.mail.db (w.state.after ops protocol (.spamPass r)).mail.db :=
      filesOnly_spamPass (fun hon id hb => .inl ⟨hon, hb⟩) fun judge hj id ha => .inr ⟨judge, hj, ha⟩
    obtain ⟨row, hrow, hname, hP⟩ := filed_of_filesAsSpam hst hfiles
    rcases hP with ⟨hon, r₀, hr₀, hid, v, hjudge, hspam⟩ |
      ⟨judge, hj, r₀, hr₀, hid, hrole, hnone, hout, sender, hs, hai⟩
    · obtain ⟨hmem, hrole, hnone⟩ := mem_roleRows hr₀
      obtain rfl := hsame hrow hmem hid
      have hclean := (h r₀ hmem hrole (hnone rfl) (hmarked r₀ hname)).1 ⟨hon, hr₀⟩ v hjudge
      rw [hspam] at hclean
      cases hclean
    · obtain rfl := hsame hrow hr₀ hid
      exact (h r₀ hr₀ hrole hnone (hmarked r₀ hname)).2 hout judge sender hj hs hai
  | rejudge entryEmail list r =>
    intro hfiles
    have hst : FilesOnly (fun id => list = .blocked ∧ ∃ row ∈ w.state.mail.db.messages.rows,
        row.id = id ∧ inRole w.state.mail.db "inbox".toList row = true ∧
        rejudgeable .blocked row.spamVerdict = true ∧
        ∃ sender, fromJsonEmail ops row.fromAddress = some sender ∧
          senderMatches ops entryEmail sender = true)
        w.state.mail.db (w.state.after ops protocol (.rejudge entryEmail list r)).mail.db :=
      filesOnly_applySenderListChange fun hl row hr hrole hv sender hs hmatch =>
        ⟨hl, row, hr, rfl, hrole, hv, sender, hs, hmatch⟩
    obtain ⟨row, hrow, hname, rfl, r₀, hr₀, hid, hrole, hv, sender, hs, hmatch⟩ :=
      filed_of_filesAsSpam hst hfiles
    obtain rfl := hsame hrow hr₀ hid
    have hnot := h r₀ hr₀ hrole hv (hmarked r₀ hname) sender hs
    rw [hmatch] at hnot
    cases hnot
  | server _ _ => cases hauto
  | notSpam _ _ => cases hauto
  | spam _ _ => cases hauto
  | postSender _ _ _ => cases hauto
  | deleteSender _ _ => cases hauto
  | putSettings _ _ => cases hauto

end Sticks

/-! ## A message moved back to the inbox -/

def baitSender : Text := "win@prizes.example".toList

/-- ASCII text; the only stored address is that of the message. -/
def plainText : TextOps where
  toLowercase := lowercase
  isWhitespace := Char.isWhitespace
  parseJson t :=
    if t = jsonRaw baitSender then some (.object [("raw".toList, .string baitSender)]) else none

/-- The message as its server's Junk mailbox holds it. -/
def junkRow : MessageRow where
  id := 1
  accountId := ['a']
  folderId := ['j']
  externalId := some (imapMessageExternalId ['j'] 1)
  subject := some "casino lottery".toList
  fromAddress := some (jsonRaw baitSender)

def junkDb : Db where
  messages := ⟨[junkRow], List.nodup_singleton _, List.pairwise_singleton _ _⟩
  folders := ⟨[⟨['i'], ['a'], some "INBOX".toList, "INBOX".toList, none, some "inbox".toList, none,
      0, 0, 0⟩,
      ⟨['j'], ['a'], some "Junk".toList, "Junk".toList, none, some "spam".toList, none, 0, 1, 1⟩],
    by decide, by unfold KeysDistinct; decide⟩
  cursors := .empty
  now := 0

/-- The inbox has given out four UIDs; message 7 is in Junk. -/
def junkServer : Server := fun name =>
  if name = "INBOX".toList then { ServerBox.empty with uidNext := 5, below := by simp [ServerBox.empty] }
  else if name = "Junk".toList then ServerBox.empty.append 7
  else ServerBox.empty

/-- The filter is on and does not learn. -/
def junkWorld : SpamWorld where
  state := ⟨⟨junkDb, fun _ => junkServer⟩, { enabled := true, learn := false }, [], []⟩
  marks := []
  refiled _ := False

/-- Every server answers and every write goes through. -/
def fineMove : MoveReply := ⟨⟨true, [.ok], true⟩, false⟩

def finePass : PassReplies where
  settingsRead := true
  sendersRead := true
  batchRead := true
  purgeRead := true
  aiRead := true
  ai := none
  stamp _ := true
  move _ := fineMove
  cutoff := 0

/-- The mailboxes after the move: message 7 is UID 5 of the inbox. -/
def movedBack : AccountReplies where
  connect := .ok ()
  list := .ok [⟨"INBOX".toList, some ['/'], []⟩, ⟨"Junk".toList, some ['/'], ["Junk".toList]⟩]
  upsertTx _ := true
  lookup _ := true
  folder k :=
    { condstore := false
      select := .ok ⟨1, none⟩
      repair := fun _ => .ok []
      repairTx := true
      listing := .ok (if k = 0 then [5] else [])
      reconcileTx := true
      loadTx := true
      search := fun _ => .ok (if k = 0 then [5] else [])
      changed := fun _ => .ok []
      fetch := fun _ _ => .ok [⟨5, none, some "casino lottery".toList, some baitSender, none, none,
        none, none, none, none, [], none, none, none, false⟩]
      persistTx := fun _ => true
      finalTx := true }

def allImap : AccountId → Protocol := fun _ => .imap

def markNotSpam : SpamAction := .notSpam 1 ⟨true, true, fineMove⟩

/-- The user marks the message as not spam. -/
def rescued : SpamWorld := junkWorld.next plainText allImap markNotSpam

def resynced : SpamWorld := rescued.next plainText allImap (.imapSync ['a'] plainNames movedBack)

def rejudged (w : SpamWorld) : SpamWorld := w.next plainText allImap (.spamPass finePass)

section Runs

variable {ok : SpamWorld → SpamAction → Prop}

theorem reachable_rescued (h : ok junkWorld markNotSpam) :
    (spamSystem plainText allImap).Reachable ok rescued := by
  have hinit : (spamSystem plainText allImap).Reachable ok junkWorld := .init ⟨rfl, fun _ h => h⟩
  exact hinit.take markNotSpam h ⟨trivial, rfl⟩

theorem reachable_rejudged {w : SpamWorld} (hw : (spamSystem plainText allImap).Reachable ok w)
    (h : ok w (.spamPass finePass)) : (spamSystem plainText allImap).Reachable ok (rejudged w) :=
  hw.take (.spamPass finePass) h ⟨trivial, rfl⟩

end Runs

end Lyra
