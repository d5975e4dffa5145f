import Lyra.Lib.Runs
import Lyra.Imap.FolderPass
import Lyra.Http.Requests

/-!
# Which message a row stands for

A request on an IMAP row names the pair of the mailbox of the row's `folder_id` and
the UID in its `external_id`.  A move rewrites the first and keeps the second, so
the pair of a moved row is no longer the one the row was stored under.

The server's mailboxes carry the identity of each message; UIDs are handed out in
order and never again.  Runs interleave deliveries, the writes of sync passes and
requests in any order.  A row `F:u` stands for the message to which the mailbox of
`F` once gave UID `u`.

* `commands_name_own_message`: when requests only act on rows whose external id
  carries their own folder id, and no message gets a UID under which a moved row
  would find it, every command names the row's own message;
* `destroy_hits_other_message`: a moved message, destroyed before the next sync.
-/

namespace Lyra

open Lyra.Lib

/-! ## The server -/

/-- A mailbox: the UIDs ever handed out with the message each was given to, and the
messages it holds. -/
structure ServerBox where
  uidNext : Uid
  assigned : List (Uid × Nat)
  messages : List (Uid × Nat)
  below : ∀ p ∈ assigned, p.1 < uidNext
  distinct : (assigned.map Prod.fst).Nodup
  held : ∀ p ∈ messages, p ∈ assigned

namespace ServerBox

def empty : ServerBox := ⟨1, [], [], by simp, by simp, by simp⟩

theorem assigned_inj (b : ServerBox) {u : Uid} {i j : Nat} (hi : (u, i) ∈ b.assigned)
    (hj : (u, j) ∈ b.assigned) : i = j :=
  congrArg Prod.snd (List.inj_on_of_nodup_map b.distinct hi hj rfl)

/-- A message arrives under the next UID. -/
def append (b : ServerBox) (id : Nat) : ServerBox where
  uidNext := b.uidNext + 1
  assigned := b.assigned ++ [(b.uidNext, id)]
  messages := b.messages ++ [(b.uidNext, id)]
  below := by
    intro p hp
    rcases List.mem_append.mp hp with h | h
    · exact Nat.lt_succ_of_lt (b.below p h)
    · rw [List.mem_singleton.mp h]; exact Nat.lt_succ_self _
  distinct := by
    rw [List.map_append, List.nodup_append]
    refine ⟨b.distinct, by simp, ?_⟩
    intro u hu v hv
    obtain ⟨p, hp, rfl⟩ := List.mem_map.mp hu
    simp only [List.map_cons, List.map_nil, List.mem_singleton] at hv
    rw [hv]; exact Nat.ne_of_lt (b.below p hp)
  held := by
    intro p hp
    rcases List.mem_append.mp hp with h | h
    · exact List.mem_append_left _ (b.held p h)
    · exact List.mem_append_right _ h

/-- The message with this UID is removed. -/
def expunge (b : ServerBox) (uid : Uid) : ServerBox :=
  { b with
    messages := b.messages.filter fun p => p.1 ≠ uid
    held := fun p hp => b.held p (List.mem_filter.mp hp).1 }

end ServerBox

/-- The account's mailboxes by wire name. -/
abbrev Server := Text → ServerBox

def Server.update (s : Server) (name : Text) (f : ServerBox → ServerBox) : Server :=
  fun n => if n = name then f (s n) else s n

/-- A command that takes effect.  `kept` says that the source message is only flagged
`\Deleted` (no UIDPLUS); an unknown UID is silently skipped. -/
def Server.apply (s : Server) (kept : Bool) (c : ImapCommand) : Server :=
  match c.op with
  | .addFlags _ | .removeFlags _ => s
  | .deleteUid => if kept then s else s.update c.mailbox fun b => b.expunge c.uid
  | .moveUid dest =>
    match (s c.mailbox).messages.lookup c.uid with
    | none => s
    | some id =>
      let s' := if kept then s else s.update c.mailbox fun b => b.expunge c.uid
      s'.update dest fun b => b.append id

/-- A command with its reply. -/
def Server.react (s : Server) (kept : Bool) (issued : ImapCommand × Reply) : Server :=
  if issued.2 = .failed false then s else s.apply kept issued.1

/-! ## Worlds and runs -/

inductive Request
  | patch (body : PatchMessageRequest)
  | move (folder : FolderId)
  | moveToRole (role : Text)
  | destroy
  | discardDraft

structure World where
  server : Server
  db : Db

/-- The wire name of a folder. -/
def mailboxOf (db : Db) (folder : FolderId) : Option Text :=
  (db.folders.rows.find? fun f => f.id == folder).bind FolderRow.externalId

section World

variable (decodeLabels : Text → Option (List Text)) (acc : AccountId)

def Request.handle (db : Db) (id : Nat) (replies : Replies) : Request → Outcome Db
  | .patch body => patchMessage decodeLabels .imap db id body replies
  | .move folder => moveMessage .imap db id folder replies
  | .moveToRole role => moveMessageToRole .imap db id role replies
  | .destroy => destroyRowServerSide .imap db id replies
  | .discardDraft => Lyra.discardDraft .imap db id replies

inductive WorldAction
  | deliver (mailbox : Text) (message : Nat)
  | persist (folder : FolderId) (messages : List ImapMessage) (cursor : SyncCursorInfo)
  | repair (folder : FolderId) (messages : List ImapMessage)
  | reconcile (folder : FolderId) (serverUids : List Uid)
  | request (id : Nat) (request : Request) (replies : Replies) (kept : Bool)

/-- The messages of a batch were fetched from the folder's mailbox at some time. -/
def Fetched (w : World) (folder : FolderId) (messages : List ImapMessage) : Prop :=
  ∃ name, mailboxOf w.db folder = some name ∧
    ∀ m ∈ messages, m.uid ∈ (w.server name).assigned.map Prod.fst

/-- The database a request leaves. -/
def Outcome.commit (out : Outcome Db) (db : Db) : Db :=
  match out.result with
  | .ok db' => db'
  | .error _ => db

/-- One step.  Mailboxes keep their UIDVALIDITY, so no pass wipes a folder; the folders
of the account are known from the start. -/
def World.Step (w : World) : WorldAction → World → Prop
  | .deliver mailbox message, w' =>
    (∀ name, message ∉ (w.server name).assigned.map Prod.snd) ∧
      w' = { w with server := w.server.update mailbox fun b => b.append message }
  | .persist folder messages cursor, w' =>
    Fetched w folder messages ∧
      w' = { w with db := (persistImapFolderBatch w.db acc folder messages cursor false).2 }
  | .repair folder messages, w' =>
    Fetched w folder messages ∧ w' = { w with db := repairImapMessages w.db acc folder messages }
  | .reconcile folder serverUids, w' =>
    w' = { w with db := (reconcileFolderDeletions w.db acc folder serverUids).2 }
  | .request id request replies kept, w' =>
    (∀ loaded, loadMessageRow w.db id = .ok loaded → loaded.row.accountId = acc) ∧
      let out := request.handle decodeLabels w.db id replies
      w' = ⟨out.issued.foldl (fun s i => s.react kept i) w.server, out.commit w.db⟩

/-- Runs from empty mailboxes and an account whose folders have no messages yet. -/
def identitySystem : System World WorldAction where
  init w := (∀ name, w.server name = .empty) ∧ w.db.messages.rows = [] ∧
    ∀ f ∈ w.db.folders.rows, f.accountId = acc
  step w a w' := w.Step decodeLabels acc a w'

end World

/-! ## The property -/

/-- A row with external id `F:u` stands for the message the mailbox of `F` gave UID
`u`. -/
def StandsFor (w : World) (externalId : Option Text) (message : Nat) : Prop :=
  ∃ folder uid name, externalId = some (imapMessageExternalId folder uid) ∧
    mailboxOf w.db folder = some name ∧ (uid, message) ∈ (w.server name).assigned

/-- Each command, when it is issued, names a pair under which the row's message is. -/
def NamesOwn (w : World) (r : MessageRow) (kept : Bool) :
    Server → List (ImapCommand × Reply) → Prop
  | _, [] => True
  | s, i :: is =>
    (∃ message, StandsFor w r.externalId message ∧ (i.1.uid, message) ∈ (s i.1.mailbox).messages) ∧
      NamesOwn w r kept (s.react kept i) is

/-- The commands of a request on a row name the row's message. -/
def CommandsRight (decodeLabels : Text → Option (List Text)) (w : World) : WorldAction → Prop
  | .request id request replies kept =>
    ∀ loaded, loadMessageRow w.db id = .ok loaded →
      NamesOwn w loaded.row kept w.server (request.handle decodeLabels w.db id replies).issued
  | _ => True

/-- The pair derived from a live row denotes no other message. -/
def PairsRight (acc : AccountId) (w : World) : Prop :=
  ∀ r ∈ w.db.messages.rows, r.accountId = acc → r.isDeleted = false →
    ∀ name uid message, mailboxOf w.db r.folderId = some name →
      parseImapUid r.externalId = .ok uid → (uid, message) ∈ (w.server name).messages →
      StandsFor w r.externalId message

/-! ## The condition -/

/-- The next UID of the mailbox is not the UID of a live row of its folder. -/
def ArrivalClear (acc : AccountId) (w : World) (mailbox : Text) : Prop :=
  ∀ r ∈ w.db.messages.rows, r.accountId = acc → r.isDeleted = false →
    mailboxOf w.db r.folderId = some mailbox →
    parseImapUid r.externalId ≠ .ok (w.server mailbox).uidNext

/-- The external id of a row carries the id of the row's own folder. -/
def OwnFolder (r : MessageRow) : Prop :=
  ∃ uid, r.externalId = some (imapMessageExternalId r.folderId uid)

/-- The mailbox a request moves the row to. -/
def Request.destination (db : Db) (r : MessageRow) : Request → Option Text
  | .move folder =>
    if folder = r.folderId then none
    else (db.folders.rows.find? fun f => f.id == folder).map FolderRow.wireName
  | .moveToRole role => (roleFolder db r.accountId role).map FolderRow.wireName
  | _ => none

/-- No move or delete takes effect and yet is answered by an error. -/
def Request.answered (replies : Replies) : Request → Prop
  | .patch _ => True
  | _ => Reply.failed true ∉ replies.imap

/-- A request acts on a row under its own folder; a message moves to a mailbox that does
not hold its UID; messages arrive under UIDs that no row of the folder carries. -/
def CleanRequest (acc : AccountId) (w : World) : WorldAction → Prop
  | .deliver mailbox _ => ArrivalClear acc w mailbox
  | .request id request replies _ =>
    ∀ loaded, loadMessageRow w.db id = .ok loaded →
      OwnFolder loaded.row ∧ request.answered replies ∧
        ∀ dest, request.destination w.db loaded.row = some dest →
          ArrivalClear acc w dest ∧
            ∀ uid, parseImapUid loaded.row.externalId = .ok uid →
              uid ∉ (w.server dest).messages.map Prod.fst
  | _ => True

/-! ## What a request issues and writes -/

def ServerOp.isFlags : ServerOp → Bool
  | .addFlags _ | .removeFlags _ => true
  | _ => false

/-- The ways a request can go, on an IMAP row. -/
inductive Handled (db : Db) (loaded : LoadedRow) (replies : Replies) (request : Request) :
    Outcome Db → Prop
  | refused {e : SyncError} : Handled db loaded replies request ⟨[], .error e⟩
  | same : Handled db loaded replies request ⟨[], .ok db⟩
  | flags {issued : List (ImapCommand × Reply)} {result : Except SyncError Db}
      (f : MessageRow → MessageRow) (hid : ∀ r, (f r).id = r.id) (hkey : ∀ r, (f r).key = r.key) :
      (∀ i ∈ issued, i.1.mailbox = loaded.folderName ∧
        parseImapUid loaded.row.externalId = .ok i.1.uid ∧ i.1.op.isFlags = true) →
      (∀ r, (f r).folderId = r.folderId ∧ (f r).isDeleted = r.isDeleted) →
      ((∃ e, result = .error e) ∨ result = .ok (updateFolderCountsInTx
        (updateRow db loaded.row.id f hid hkey) loaded.row.folderId)) →
      Handled db loaded replies request ⟨issued, result⟩
  | trashed : Handled db loaded replies request ⟨[], .ok (softDeleteRow db loaded.row)⟩
  | moved {dest : FolderRow} {uid : Uid} {reply : Reply} :
      dest ∈ db.folders.rows → request.destination db loaded.row = some dest.wireName →
      parseImapUid loaded.row.externalId = .ok uid →
      (request.answered replies → reply ≠ .failed true) →
      Handled db loaded replies request
        ⟨[(⟨loaded.folderName, uid, .moveUid dest.wireName⟩, reply)],
          if reply = .ok then .ok (writeMove db loaded.row dest.id) else .error .imap⟩
  | deleted {uid : Uid} {reply : Reply} :
      parseImapUid loaded.row.externalId = .ok uid →
      (request.answered replies → reply ≠ .failed true) →
      Handled db loaded replies request
        ⟨[(⟨loaded.folderName, uid, .deleteUid⟩, reply)],
          if reply = .ok then .ok (softDeleteRow db loaded.row) else .error .imap⟩

/-- A branch with one mandatory command. -/
theorem imapBranch_single (loaded : LoadedRow) (replies : Replies) (command : Uid → ImapCommand)
    (write : Db) :
    (∃ e, imapBranch loaded replies (fun uid => [(command uid, false)]) write = ⟨[], .error e⟩) ∨
      ∃ uid reply, parseImapUid loaded.row.externalId = .ok uid ∧ reply ∈ replies.imap ∧
        imapBranch loaded replies (fun uid => [(command uid, false)]) write =
          ⟨[(command uid, reply)], if reply = .ok then .ok write else .error .imap⟩ := by
  unfold imapBranch
  cases hp : parseImapUid loaded.row.externalId with
  | error e => exact .inl ⟨e, rfl⟩
  | ok uid =>
    dsimp only
    split
    case isFalse => exact .inl ⟨_, rfl⟩
    case isTrue =>
      cases hr : replies.imap with
      | nil => exact .inl ⟨_, rfl⟩
      | cons reply rest =>
        right
        refine ⟨uid, reply, rfl, List.mem_cons_self, ?_⟩
        cases reply with
        | ok => rfl
        | failed applied => rfl

/-- The issued commands are among the planned ones. -/
theorem mem_issue {cs : List (ImapCommand × Bool)} {rs : List Reply} {i : ImapCommand × Reply}
    (h : i ∈ (issue cs rs).1) : ∃ c ∈ cs, i.1 = c.1 := by
  induction cs generalizing rs with
  | nil => cases h
  | cons c cs ih =>
    obtain ⟨c, bestEffort⟩ := c
    cases rs with
    | nil =>
      simp only [issue] at h
      split at h
      · obtain ⟨c', hc', e⟩ := ih h
        exact ⟨c', List.mem_cons_of_mem _ hc', e⟩
      · cases h
    | cons r rs =>
      simp only [issue] at h
      split at h
      · rcases List.mem_cons.mp h with rfl | h
        · exact ⟨_, List.mem_cons_self, rfl⟩
        · obtain ⟨c', hc', e⟩ := ih h
          exact ⟨c', List.mem_cons_of_mem _ hc', e⟩
      · rw [List.mem_singleton.mp h]
        exact ⟨_, List.mem_cons_self, rfl⟩

theorem flagCommand_mem {loaded : LoadedRow} {uid : Uid} {flag : String} {wanted : Option Bool}
    {stored : Bool} {c : ImapCommand × Bool} (h : c ∈ flagCommand loaded uid flag wanted stored) :
    c.1.mailbox = loaded.folderName ∧ c.1.uid = uid ∧ c.1.op.isFlags = true := by
  unfold flagCommand at h
  split at h
  · cases h
  · split at h
    · rw [List.mem_singleton.mp h]; exact ⟨rfl, rfl, rfl⟩
    · split at h
      · rw [List.mem_singleton.mp h]; exact ⟨rfl, rfl, rfl⟩
      · cases h

theorem labelCommands_mem {loaded : LoadedRow} {uid : Uid} {old : List Text}
    {next : Option (List Text)} {c : ImapCommand × Bool}
    (h : c ∈ labelCommands loaded uid old next) :
    c.1.mailbox = loaded.folderName ∧ c.1.uid = uid ∧ c.1.op.isFlags = true := by
  unfold labelCommands at h
  split at h
  · cases h
  · rcases List.mem_append.mp h with h | h
    · obtain ⟨k, _, rfl⟩ := List.mem_map.mp h; exact ⟨rfl, rfl, rfl⟩
    · obtain ⟨k, _, rfl⟩ := List.mem_map.mp h; exact ⟨rfl, rfl, rfl⟩

section Handle

variable {decodeLabels : Text → Option (List Text)} {db : Db} {id : Nat} {loaded : LoadedRow}
  (hl : loadMessageRow db id = .ok loaded) (replies : Replies)
include hl

theorem handled_patch (body : PatchMessageRequest) :
    Handled db loaded replies (.patch body)
      (patchMessage decodeLabels .imap db id body replies) := by
  unfold patchMessage
  rw [hl]
  dsimp only
  have hpatch : ∀ next r, (patchRow body next r).folderId = r.folderId ∧
      (patchRow body next r).isDeleted = r.isDeleted := fun _ _ => ⟨rfl, rfl⟩
  split
  · exact .refused
  · split
    · exact .flags (patchRow body (body.labels.map sanitizeLabels)) (fun _ => rfl) (fun _ => rfl)
        (fun i hi => by cases hi) (hpatch _) (.inr rfl)
    · unfold imapBranch
      cases hp : parseImapUid loaded.row.externalId with
      | error e => exact .refused
      | ok uid =>
        dsimp only
        split
        case isFalse => exact .refused
        case isTrue =>
          refine .flags (patchRow body (body.labels.map sanitizeLabels)) (fun _ => rfl)
            (fun _ => rfl) ?_ (hpatch _) ?_
          · intro i hi
            obtain ⟨c, hc, e⟩ := mem_issue hi
            rw [e, hp]
            have : c.1.mailbox = loaded.folderName ∧ c.1.uid = uid ∧ c.1.op.isFlags = true := by
              rcases List.mem_append.mp hc with hc | hc
              · rcases List.mem_append.mp hc with hc | hc
                · exact flagCommand_mem hc
                · exact flagCommand_mem hc
              · exact labelCommands_mem hc
            obtain ⟨h₁, rfl, h₃⟩ := this
            exact ⟨h₁, rfl, h₃⟩
          · split
            · exact .inr rfl
            · exact .inl ⟨_, rfl⟩

end Handle

theorem answered_ne {replies : Replies} {reply : Reply} (h : reply ∈ replies.imap)
    (ha : Reply.failed true ∉ replies.imap) : reply ≠ .failed true := by
  rintro rfl
  exact ha h

/-- A move on an IMAP row. -/
theorem handled_applyMessageMove {db : Db} {loaded : LoadedRow} {replies : Replies}
    {request : Request} {dest : FolderRow} (hmem : dest ∈ db.folders.rows)
    (hdest : request.destination db loaded.row = some dest.wireName)
    (hans : request.answered replies → Reply.failed true ∉ replies.imap) :
    Handled db loaded replies request
      (applyMessageMove .imap db loaded dest.id dest.externalId dest.wireName replies) := by
  unfold applyMessageMove
  dsimp only
  rcases imapBranch_single loaded replies (fun uid => ⟨loaded.folderName, uid, .moveUid dest.wireName⟩)
    (writeMove db loaded.row dest.id) with ⟨e, h⟩ | ⟨uid, reply, hp, hr, h⟩
  · rw [h]; exact .refused
  · rw [h]; exact .moved hmem hdest hp fun ha => answered_ne hr (hans ha)

theorem handled_deleteServerSide {db : Db} {loaded : LoadedRow} {replies : Replies}
    {request : Request} {missing : String}
    (hans : request.answered replies → Reply.failed true ∉ replies.imap) :
    Handled db loaded replies request (deleteServerSide .imap db loaded missing replies) := by
  unfold deleteServerSide
  dsimp only
  rcases imapBranch_single loaded replies (fun uid => ⟨loaded.folderName, uid, .deleteUid⟩)
    (softDeleteRow db loaded.row) with ⟨e, h⟩ | ⟨uid, reply, hp, hr, h⟩
  · rw [h]; exact .refused
  · rw [h]; exact .deleted hp fun ha => answered_ne hr (hans ha)

/-- The folder found for a role is one of the candidates: the running minimum always is. -/
theorem roleFolder_candidate {db : Db} {acc : AccountId} {role : Text} {f : FolderRow}
    (h : roleFolder db acc role = some f) : f ∈ db.folders.rows.filter fun f =>
      f.accountId == acc && decide (f.effectiveRole = some role) := by
  unfold roleFolder at h
  generalize db.folders.rows.filter _ = candidates at h
  -- a step that answers with its candidate or with what it had finds a candidate
  have key : ∀ step : Option FolderRow → FolderRow → Option FolderRow,
      (∀ best x b, step best x = some b → b = x ∨ best = some b) →
      ∀ (l : List FolderRow) (best : Option FolderRow), (∀ b, best = some b → b ∈ candidates) →
      (∀ x ∈ l, x ∈ candidates) → ∀ f, l.foldl step best = some f → f ∈ candidates := by
    intro step hstep l
    induction l with
    | nil => intro best hb _ f hf; exact hb f hf
    | cons x l ih =>
      intro best hb hl f hf
      apply ih _ _ (fun y hy => hl y (List.mem_cons_of_mem _ hy)) f hf
      intro b e
      rcases hstep best x b e with rfl | hold
      · exact hl b List.mem_cons_self
      · exact hb b hold
  refine key _ ?_ candidates none (fun b e => by cases e) (fun x hx => hx) f h
  intro best x b e
  cases best with
  | none => exact .inl (Option.some.inj e).symm
  | some b₀ =>
    dsimp only at e
    split at e
    · exact .inl (Option.some.inj e).symm
    · exact .inr e

theorem roleFolder_mem {db : Db} {acc : AccountId} {role : Text} {f : FolderRow}
    (h : roleFolder db acc role = some f) : f ∈ db.folders.rows :=
  (List.mem_filter.mp (roleFolder_candidate h)).1

theorem roleFolder_role {db : Db} {acc : AccountId} {role : Text} {f : FolderRow}
    (h : roleFolder db acc role = some f) : f.effectiveRole = some role := by
  have hc := (List.mem_filter.mp (roleFolder_candidate h)).2
  rw [Bool.and_eq_true, decide_eq_true_eq] at hc
  exact hc.2

theorem Request.handled {decodeLabels : Text → Option (List Text)} {db : Db} {id : Nat}
    {loaded : LoadedRow} (hl : loadMessageRow db id = .ok loaded) (replies : Replies)
    (request : Request) :
    Handled db loaded replies request (request.handle decodeLabels db id replies) := by
  cases request with
  | patch body => exact handled_patch hl replies body
  | move folder =>
    simp only [Request.handle, moveMessage, hl]
    cases hf : db.folders.rows.find? fun f => f.id == folder with
    | none => exact .refused
    | some dest =>
      have hid : dest.id = folder := by simpa using List.find?_some hf
      dsimp only
      split
      case isTrue => exact .refused
      case isFalse =>
        split
        case isTrue => exact .same
        case isFalse hne =>
          apply handled_applyMessageMove (List.mem_of_find?_eq_some hf)
          · rw [Request.destination, if_neg (hid ▸ hne), hf]; rfl
          · exact fun ha => ha
  | moveToRole role =>
    simp only [Request.handle, moveMessageToRole, hl]
    cases hr : roleFolder db loaded.row.accountId role with
    | none => exact .trashed
    | some dest =>
      apply handled_applyMessageMove (roleFolder_mem hr)
      · rw [Request.destination, hr]; rfl
      · exact fun ha => ha
  | destroy =>
    simp only [Request.handle, destroyRowServerSide, hl]
    exact handled_deleteServerSide fun ha => ha
  | discardDraft =>
    simp only [Request.handle, Lyra.discardDraft, hl]
    split
    · exact .refused
    · exact handled_deleteServerSide fun ha => ha

/-! ## Where a row is -/

section Place

variable {db : Db} {acc : AccountId} {r : MessageRow}

theorem place_updateRow (hr : r ∈ db.messages.rows) {e₀ : Text} (hk : r.key = some (acc, e₀))
    {h : MessageRow → MessageRow} (hid : ∀ r, (h r).id = r.id) (hkey : ∀ r, (h r).key = r.key)
    (e : Text) :
    (updateRow db r.id h hid hkey).place acc e =
      if e = e₀ then some ((h r).folderId, (h r).isDeleted) else db.place acc e := by
  rw [Db.place, updateRow, KeyedTable.find_updateWhere]
  split
  case isTrue e' =>
    subst e'
    rw [(db.messages.find_eq_some_iff _ r).mpr ⟨hr, hk⟩]
    simp
  case isFalse hne =>
    cases hf : db.messages.find (acc, e) with
    | none => rw [Db.place, hf]; rfl
    | some x =>
      obtain ⟨hx, hxk⟩ := (db.messages.find_eq_some_iff _ x).mp hf
      -- another external id means another row
      have hid' : x.id ≠ r.id := by
        intro he
        have hxr := db.messages.eq_of_pk hx hr he
        rw [hxr, hk] at hxk
        cases hxk
        exact hne rfl
      rw [Db.place, hf]
      simp [hid']

theorem mailboxOf_updateFolderCountsInTx (db : Db) (k f : FolderId) :
    mailboxOf (updateFolderCountsInTx db k) f = mailboxOf db f := by
  have h : ∀ (l : List FolderRow) (t u : Nat), ((l.map fun x => if x.id == k then
      { x with totalMessages := t, unreadMessages := u } else x).find? fun x => x.id == f).bind
        FolderRow.externalId = (l.find? fun x => x.id == f).bind FolderRow.externalId := by
    intro l t u
    induction l with
    | nil => rfl
    | cons x l ih =>
      have hx : (if x.id == k then { x with totalMessages := t, unreadMessages := u } else x).id =
          x.id := by split <;> rfl
      rw [List.map_cons, List.find?_cons, List.find?_cons, hx]
      split
      · split <;> rfl
      · exact ih
  exact h db.folders.rows _ _

end Place

theorem mailboxOf_of_loaded {db : Db} {id : Nat} {loaded : LoadedRow}
    (h : loadMessageRow db id = .ok loaded) :
    mailboxOf db loaded.row.folderId = some loaded.folderName ∧ loaded.row.isDeleted = false := by
  unfold loadMessageRow at h
  split at h
  case h_1 => cases h
  case h_2 r hr =>
    have hr := List.find?_some hr
    split at h
    case h_1 => cases h
    case h_2 f hf =>
      split at h
      case h_1 => cases h
      case h_2 name hn =>
        cases h
        refine ⟨?_, by simp at hr; exact hr.2⟩
        rw [mailboxOf, hf]; exact hn

theorem find_folder {db : Db} {f : FolderRow} (h : f ∈ db.folders.rows) :
    db.folders.rows.find? (fun x => x.id == f.id) = some f := by
  cases hf : db.folders.rows.find? (fun x => x.id == f.id) with
  | none =>
    have := List.find?_eq_none.mp hf f h
    simp at this
  | some g =>
    have hid : g.id = f.id := by simpa using List.find?_some hf
    rw [db.folders.eq_of_pk (List.mem_of_find?_eq_some hf) h hid]

/-- Folders of one account have distinct wire names. -/
theorem mailboxOf_inj {db : Db} {acc : AccountId} (hacc : ∀ f ∈ db.folders.rows, f.accountId = acc)
    {f g : FolderId} {name : Text} (hf : mailboxOf db f = some name)
    (hg : mailboxOf db g = some name) : f = g := by
  obtain ⟨x, hx, hxn⟩ := Option.bind_eq_some_iff.mp hf
  obtain ⟨y, hy, hyn⟩ := Option.bind_eq_some_iff.mp hg
  have hxm := List.mem_of_find?_eq_some hx
  have hym := List.mem_of_find?_eq_some hy
  have e : x = y := by
    apply db.folders.eq_of_key hxm hym (k := (acc, name))
    · rw [FolderRow.key, hxn, hacc x hxm, Option.map_some]
    · rw [FolderRow.key, hyn, hacc y hym, Option.map_some]
  have hxi : x.id = f := by simpa using List.find?_some hx
  have hyi : y.id = g := by simpa using List.find?_some hy
  rw [← hxi, ← hyi, e]

/-- A UID read from `F:u` is `u`. -/
theorem parseImapUid_external_eq {f : FolderId} {u v : Uid}
    (h : parseImapUid (some (imapMessageExternalId f u)) = .ok v) : v = u := by
  simp only [parseImapUid, imapMessageExternalId, lastPiece_decimal] at h
  split at h
  case h_1 n hn => cases h; exact parseUnsigned_decimal_eq hn
  case h_2 => cases h

/-! ## The invariant -/

/-- Stored ids were handed out by the folder's mailbox; a message that left a mailbox has
a row that is deleted or elsewhere; pairs denote no other message. -/
structure IdentityInv (acc : AccountId) (w : World) : Prop where
  account : ∀ f ∈ w.db.folders.rows, f.accountId = acc
  stored : ∀ e p, w.db.place acc e = some p → ∃ f u name message,
    e = imapMessageExternalId f u ∧ mailboxOf w.db f = some name ∧
      (u, message) ∈ (w.server name).assigned
  left : ∀ f name u message, mailboxOf w.db f = some name →
    (u, message) ∈ (w.server name).assigned → (u, message) ∉ (w.server name).messages →
    ∃ g d, w.db.place acc (imapMessageExternalId f u) = some (g, d) ∧ (d = true ∨ g ≠ f)
  pairs : ∀ e g name u message, w.db.place acc e = some (g, false) →
    mailboxOf w.db g = some name → parseImapUid (some e) = .ok u →
    (u, message) ∈ (w.server name).messages → StandsFor w (some e) message

section Inv

variable {acc : AccountId} {w : World}

theorem IdentityInv.right (h : IdentityInv acc w) : PairsRight acc w := by
  intro r hr ha hd name uid message hname hparse hm
  cases he : r.externalId with
  | none => rw [he] at hparse; cases hparse
  | some e =>
    rw [he] at hparse
    have hk : r.key = some (acc, e) := by rw [MessageRow.key, he, ha, Option.map_some]
    have hp := Db.place_of_mem hr hk
    rw [hd] at hp
    exact h.pairs e r.folderId name uid message hp hname hparse hm

/-- A live row under its own folder finds its message there. -/
theorem IdentityInv.own_message (h : IdentityInv acc w) {f : FolderId} {u : Uid} {name : Text}
    (hp : w.db.place acc (imapMessageExternalId f u) = some (f, false))
    (hname : mailboxOf w.db f = some name) :
    ∃ message, (u, message) ∈ (w.server name).messages := by
  obtain ⟨f', u', name', message, he, hf', ha⟩ := h.stored _ _ hp
  obtain ⟨rfl, rfl⟩ := imapMessageExternalId_inj he
  rw [hname] at hf'
  cases hf'
  refine ⟨message, ?_⟩
  by_contra hn
  obtain ⟨g, d, hg, hor⟩ := h.left f name u message hname ha hn
  rw [hp] at hg
  cases hg
  rcases hor with hd | hg
  · cases hd
  · exact hg rfl

theorem StandsFor.mono {w' : World} {e : Option Text} {message : Nat} (h : StandsFor w e message)
    (hbox : ∀ f, mailboxOf w'.db f = mailboxOf w.db f)
    (hgrow : ∀ name, ∀ p ∈ (w.server name).assigned, p ∈ (w'.server name).assigned) :
    StandsFor w' e message := by
  obtain ⟨f, u, name, he, hf, ha⟩ := h
  exact ⟨f, u, name, he, (hbox f).trans hf, hgrow name _ ha⟩

/-- A live row that a request acts on. -/
structure Acted (acc : AccountId) (w : World) (loaded : LoadedRow) (f : FolderId) (u : Uid) :
    Prop where
  mem : loaded.row ∈ w.db.messages.rows
  key : loaded.row.key = some (acc, imapMessageExternalId f u)
  folder : loaded.row.folderId = f
  live : loaded.row.isDeleted = false
  external : loaded.row.externalId = some (imapMessageExternalId f u)
  box : mailboxOf w.db f = some loaded.folderName

theorem acted_of_loaded {id : Nat} {loaded : LoadedRow}
    (hl : loadMessageRow w.db id = .ok loaded) (ha : loaded.row.accountId = acc)
    (ho : OwnFolder loaded.row) : ∃ u, Acted acc w loaded loaded.row.folderId u := by
  obtain ⟨u, hu⟩ := ho
  obtain ⟨hbox, hlive⟩ := mailboxOf_of_loaded hl
  refine ⟨u, loadMessageRow_mem hl, ?_, rfl, hlive, hu, hbox⟩
  rw [MessageRow.key, hu, ha, Option.map_some]

variable {loaded : LoadedRow} {f : FolderId} {u : Uid}

theorem Acted.place (h : Acted acc w loaded f u) :
    w.db.place acc (imapMessageExternalId f u) = some (f, false) := by
  rw [Db.place_of_mem h.mem h.key, h.folder, h.live]

theorem Acted.parse (h : Acted acc w loaded f u) {v : Uid}
    (hp : parseImapUid loaded.row.externalId = .ok v) : v = u := by
  rw [h.external] at hp
  exact parseImapUid_external_eq hp

theorem Acted.held (h : Acted acc w loaded f u) (hinv : IdentityInv acc w) :
    ∃ message, StandsFor w loaded.row.externalId message ∧
      (u, message) ∈ (w.server loaded.folderName).messages := by
  obtain ⟨message, hm⟩ := hinv.own_message h.place h.box
  exact ⟨message, ⟨f, u, _, h.external, h.box, (w.server _).held _ hm⟩, hm⟩

theorem ArrivalClear.place {n : Text} (h : ArrivalClear acc w n) {e : Text} {g : FolderId}
    (hp : w.db.place acc e = some (g, false)) (hn : mailboxOf w.db g = some n) :
    parseImapUid (some e) ≠ .ok (w.server n).uidNext := by
  obtain ⟨r, hr, ha, he, rfl, hd⟩ := Db.exists_of_place hp
  rw [← he]
  exact h r hr ha hd hn

/-! ## Steps -/

theorem IdentityInv.deliver (h : IdentityInv acc w) {name : Text} {message : Nat}
    (hclear : ArrivalClear acc w name) :
    IdentityInv acc { w with server := w.server.update name fun b => b.append message } := by
  have hgrow : ∀ n, ∀ p ∈ (w.server n).assigned,
      p ∈ (w.server.update name (fun b => b.append message) n).assigned := by
    intro n p hp
    unfold Server.update
    split
    · exact List.mem_append_left _ hp
    · exact hp
  refine ⟨h.account, ?_, ?_, ?_⟩
  · intro e p hp
    obtain ⟨f, u, n, m, he, hf, ha⟩ := h.stored e p hp
    exact ⟨f, u, n, m, he, hf, hgrow n _ ha⟩
  · intro f n u m hf ha hm
    simp only [Server.update] at ha hm
    split at ha
    case isTrue e =>
      rw [if_pos e] at hm
      simp only [ServerBox.append, List.mem_append, not_or] at ha hm
      rcases ha with ha | ha
      · exact h.left f n u m hf ha hm.1
      · exact absurd ha hm.2
    case isFalse e =>
      rw [if_neg e] at hm
      exact h.left f n u m hf ha hm
  · intro e g n u m hp hn hu hm
    simp only [Server.update] at hm
    have hold : (u, m) ∈ (w.server n).messages := by
      split at hm
      case isFalse => exact hm
      case isTrue en =>
        rcases List.mem_append.mp hm with hm | hm
        · exact hm
        · -- the new UID is not one that a live row of the folder carries
          have hu' : u = (w.server n).uidNext := congrArg Prod.fst (List.mem_singleton.mp hm)
          subst en
          exact absurd (hu' ▸ hu) (hclear.place hp hn)
    exact (h.pairs e g n u m hp hn hu hold).mono (fun _ => rfl) hgrow

/-- Writes that add only rows under their own folder with handed-out UIDs, and
otherwise at most soft-delete, keep the invariant. -/
theorem IdentityInv.write (h : IdentityInv acc w) {db' : Db}
    (hacc : ∀ f ∈ db'.folders.rows, f.accountId = acc)
    (hbox : ∀ f, mailboxOf db' f = mailboxOf w.db f)
    (hkeep : ∀ e g d, w.db.place acc e = some (g, d) →
      ∃ d', db'.place acc e = some (g, d') ∧ (d = true → d' = true))
    (hnew : ∀ e p, w.db.place acc e = none → db'.place acc e = some p → ∃ f u name message,
      e = imapMessageExternalId f u ∧ p = (f, false) ∧ mailboxOf w.db f = some name ∧
        (u, message) ∈ (w.server name).assigned) :
    IdentityInv acc { w with db := db' } := by
  refine ⟨hacc, ?_, ?_, ?_⟩
  · intro e p hp
    cases he : w.db.place acc e with
    | none =>
      obtain ⟨f, u, n, m, rfl, _, hf, ha⟩ := hnew e p he hp
      exact ⟨f, u, n, m, rfl, (hbox f).trans hf, ha⟩
    | some q =>
      obtain ⟨f, u, n, m, rfl, hf, ha⟩ := h.stored e q he
      exact ⟨f, u, n, m, rfl, (hbox f).trans hf, ha⟩
  · intro f n u m hf ha hm
    obtain ⟨g, d, hp, hor⟩ := h.left f n u m ((hbox f).symm.trans hf) ha hm
    obtain ⟨d', hp', hd⟩ := hkeep _ g d hp
    exact ⟨g, d', hp', hor.imp hd id⟩
  · intro e g n u m hp hn hu hm
    have hstand : StandsFor w (some e) m := by
      cases he : w.db.place acc e with
      | none =>
        obtain ⟨f, v, n', m', rfl, hpf, hf, -⟩ := hnew e _ he hp
        cases hpf
        have hname : n = n' := Option.some.inj (((hbox g).symm.trans hn).symm.trans hf)
        subst hname
        rw [parseImapUid_external_eq hu] at hm
        exact ⟨g, v, n, rfl, hf, (w.server n).held _ hm⟩
      | some q =>
        obtain ⟨g', d⟩ := q
        obtain ⟨d', hp', hd⟩ := hkeep e g' d he
        rw [hp] at hp'
        cases hp'
        cases d with
        | true => exact absurd (hd rfl) (by decide)
        | false => exact h.pairs e g n u m he ((hbox g).symm.trans hn) hu hm
    exact hstand.mono hbox fun _ _ hq => hq

theorem accounts_updateFolderCountsInTx {db : Db} {k : FolderId}
    (h : ∀ f ∈ db.folders.rows, f.accountId = acc) :
    ∀ f ∈ (updateFolderCountsInTx db k).folders.rows, f.accountId = acc := by
  intro f hf
  simp only [updateFolderCountsInTx, KeyedTable.updateWhere, List.mem_map] at hf
  obtain ⟨f₀, hf₀, rfl⟩ := hf
  split
  · exact h f₀ hf₀
  · exact h f₀ hf₀

theorem upsertMessages_folders (acc : AccountId) (f : FolderId) (db : Db) (ms : List ImapMessage) :
    (upsertMessages acc f db ms).2.folders = db.folders := by
  induction ms generalizing db with
  | nil => rfl
  | cons m ms ih => rw [upsertMessages_cons, ih]; rfl

/-- A batch of messages fetched from the folder's mailbox. -/
theorem IdentityInv.batch (h : IdentityInv acc w) {folder : FolderId} {ms : List ImapMessage}
    {db' : Db} (hf : Fetched w folder ms)
    (hacc : ∀ f ∈ db'.folders.rows, f.accountId = acc)
    (hbox : ∀ f, mailboxOf db' f = mailboxOf w.db f)
    (hplace : ∀ e, db'.place acc e = (upsertMessages acc folder w.db ms).2.place acc e) :
    IdentityInv acc { w with db := db' } := by
  obtain ⟨name, hname, hms⟩ := hf
  apply h.write hacc hbox
  · intro e g d hp
    refine ⟨d, ?_, fun hd => hd⟩
    rw [hplace, place_upsertMessages, hp]
    split <;> rfl
  · intro e p hn hp
    rw [hplace, place_upsertMessages, hn] at hp
    split at hp
    case isFalse => cases hp
    case isTrue hmem =>
      obtain ⟨-, hmem⟩ := hmem
      obtain ⟨m, hm, rfl⟩ := List.mem_map.mp hmem
      obtain ⟨⟨u, i⟩, hui, e⟩ := List.mem_map.mp (hms m hm)
      cases e
      exact ⟨folder, m.uid, name, i, rfl, (Option.some.inj hp).symm, hname, hui⟩

theorem IdentityInv.persist (h : IdentityInv acc w) {folder : FolderId} {ms : List ImapMessage}
    {cursor : SyncCursorInfo} (hf : Fetched w folder ms) :
    IdentityInv acc { w with db := (persistImapFolderBatch w.db acc folder ms cursor false).2 } := by
  apply h.batch hf
  · apply accounts_updateFolderCountsInTx
    intro x hx
    exact h.account x (upsertMessages_folders acc folder w.db ms ▸ hx)
  · intro x
    refine (mailboxOf_updateFolderCountsInTx _ folder x).trans ?_
    exact congrArg (fun t : FolderTable => (t.rows.find? fun y => y.id == x).bind
      FolderRow.externalId) (upsertMessages_folders acc folder w.db ms)
  · intro e; rfl

theorem IdentityInv.repair (h : IdentityInv acc w) {folder : FolderId} {ms : List ImapMessage}
    (hf : Fetched w folder ms) :
    IdentityInv acc { w with db := repairImapMessages w.db acc folder ms } := by
  apply h.batch hf
  · apply accounts_updateFolderCountsInTx
    intro x hx
    exact h.account x (upsertMessages_folders acc folder w.db ms ▸ hx)
  · intro x
    refine (mailboxOf_updateFolderCountsInTx _ folder x).trans ?_
    exact congrArg (fun t : FolderTable => (t.rows.find? fun y => y.id == x).bind
      FolderRow.externalId) (upsertMessages_folders acc folder w.db ms)
  · intro e
    exact view_repairImapMessages (fun r => (r.folderId, r.isDeleted)) (fun _ => rfl) w.db acc
      folder ms (acc, e)

theorem IdentityInv.reconcile (h : IdentityInv acc w) {folder : FolderId} {us : List Uid} :
    IdentityInv acc { w with db := (reconcileFolderDeletions w.db acc folder us).2 } := by
  have hplace : ∀ e, (reconcileFolderDeletions w.db acc folder us).2.place acc e =
      (w.db.messages.find (acc, e)).map fun r =>
        (r.folderId, if vanished acc folder us r then true else r.isDeleted) := by
    intro e
    rw [Db.place, find_reconcileFolderDeletions, Option.map_map]
    congr 1
    funext r
    simp only [Function.comp]
    split <;> rfl
  apply h.write
  · rcases reconcileFolderDeletions_cases w.db acc folder us with e | ⟨_, messages, e⟩
    · rw [e]; exact h.account
    · rw [e]; exact accounts_updateFolderCountsInTx h.account
  · intro x
    rcases reconcileFolderDeletions_cases w.db acc folder us with e | ⟨_, messages, e⟩
    · rw [e]
    · rw [e, mailboxOf_updateFolderCountsInTx]; rfl
  · intro e g d hp
    obtain ⟨r, hr, hpair⟩ := Option.map_eq_some_iff.mp hp
    cases hpair
    refine ⟨_, by rw [hplace, hr]; rfl, ?_⟩
    intro hd
    split
    · rfl
    · exact hd
  · intro e p hn hp
    rw [hplace, Option.map_eq_none_iff.mp hn] at hp
    cases hp

/-! ## Requests keep the invariant -/

theorem IdentityInv.patched (h : IdentityInv acc w) (ha : Acted acc w loaded f u)
    {g : MessageRow → MessageRow} {hid : ∀ r, (g r).id = r.id} {hkey : ∀ r, (g r).key = r.key}
    (hg : ∀ r, (g r).folderId = r.folderId ∧ (g r).isDeleted = r.isDeleted) {k : FolderId} :
    IdentityInv acc { w with
      db := updateFolderCountsInTx (updateRow w.db loaded.row.id g hid hkey) k } := by
  have hplace : ∀ e, (updateFolderCountsInTx (updateRow w.db loaded.row.id g hid hkey) k).place acc e =
      w.db.place acc e := by
    intro e
    refine (place_updateRow ha.mem ha.key hid hkey e).trans ?_
    split
    case isFalse => rfl
    case isTrue he => rw [he, ha.place, (hg _).1, (hg _).2, ha.folder, ha.live]
  apply h.write
  · exact accounts_updateFolderCountsInTx h.account
  · intro x; rw [mailboxOf_updateFolderCountsInTx]; rfl
  · intro e g' d hp
    exact ⟨d, (hplace e).trans hp, fun hd => hd⟩
  · intro e p hn hp
    rw [hplace, hn] at hp
    cases hp

theorem place_softDeleteRow (ha : Acted acc w loaded f u) (e : Text) :
    (softDeleteRow w.db loaded.row).place acc e =
      if e = imapMessageExternalId f u then some (f, true) else w.db.place acc e := by
  have h := place_updateRow (h := fun x => { x with isDeleted := true }) ha.mem ha.key
    (fun _ => rfl) (fun _ => rfl) e
  refine h.trans ?_
  rw [ha.folder]

theorem IdentityInv.trashed (h : IdentityInv acc w) (ha : Acted acc w loaded f u) :
    IdentityInv acc { w with db := softDeleteRow w.db loaded.row } := by
  apply h.write
  · exact accounts_updateFolderCountsInTx h.account
  · intro x; exact mailboxOf_updateFolderCountsInTx _ _ x
  · intro e g d hp
    rw [place_softDeleteRow ha]
    split
    case isFalse => exact ⟨d, hp, fun hd => hd⟩
    case isTrue he =>
      rw [he, ha.place] at hp
      cases hp
      exact ⟨true, rfl, fun _ => rfl⟩
  · intro e p hn hp
    rw [place_softDeleteRow ha] at hp
    split at hp
    case isFalse => rw [hn] at hp; cases hp
    case isTrue he => rw [he, ha.place] at hn; cases hn

/-- The message leaves its mailbox, or stays flagged, and the row is soft-deleted. -/
theorem IdentityInv.deleted (h : IdentityInv acc w) (ha : Acted acc w loaded f u) (kept : Bool) :
    IdentityInv acc ⟨w.server.apply kept ⟨loaded.folderName, u, .deleteUid⟩,
      softDeleteRow w.db loaded.row⟩ := by
  have ht := h.trashed ha
  cases kept with
  | true => exact ht
  | false =>
    have hbox : ∀ x, mailboxOf (softDeleteRow w.db loaded.row) x = mailboxOf w.db x :=
      fun x => mailboxOf_updateFolderCountsInTx _ _ x
    -- expunging changes the messages of one mailbox and no assignment
    have hserver : ∀ n, w.server.apply false ⟨loaded.folderName, u, .deleteUid⟩ n =
        if n = loaded.folderName then (w.server n).expunge u else w.server n := fun _ => rfl
    have hassigned : ∀ n, (w.server.apply false ⟨loaded.folderName, u, .deleteUid⟩ n).assigned =
        (w.server n).assigned := by
      intro n
      rw [hserver]
      split <;> rfl
    refine ⟨ht.account, ?_, ?_, ?_⟩
    · intro e p hp
      obtain ⟨f', u', n, m, he, hf, hm⟩ := ht.stored e p hp
      exact ⟨f', u', n, m, he, hf, by rw [hassigned]; exact hm⟩
    · intro g n v m hg hv hm
      dsimp only at hg hv hm
      rw [hassigned] at hv
      by_cases hn : n = loaded.folderName ∧ v = u
      · obtain ⟨rfl, rfl⟩ := hn
        have hgf : g = f := mailboxOf_inj h.account ((hbox g).symm.trans hg) ha.box
        subst hgf
        exact ⟨g, true, by rw [place_softDeleteRow ha, if_pos rfl], .inl rfl⟩
      · apply ht.left g n v m hg hv
        intro hm'
        apply hm
        dsimp only at hm' ⊢
        rw [hserver]
        split
        case isFalse => exact hm'
        case isTrue e =>
          apply List.mem_filter.mpr
          exact ⟨hm', by simpa using fun hvu => hn ⟨e, hvu⟩⟩
    · intro e g n v m hp hn hv hm
      dsimp only at hm
      have hm' : (v, m) ∈ (w.server n).messages := by
        rw [hserver] at hm
        split at hm
        case isFalse => exact hm
        case isTrue => exact (List.mem_filter.mp hm).1
      exact (ht.pairs e g n v m hp hn hv hm').mono (fun _ => rfl) fun n p hp' => by
        rw [hassigned]; exact hp'

theorem place_writeMove (ha : Acted acc w loaded f u) (dest : FolderId) (e : Text) :
    (writeMove w.db loaded.row dest).place acc e =
      if e = imapMessageExternalId f u then some (dest, false) else w.db.place acc e := by
  have h := place_updateRow (h := fun x => { x with folderId := dest }) ha.mem ha.key
    (fun _ => rfl) (fun _ => rfl) e
  refine h.trans ?_
  rw [ha.live]

theorem mailboxOf_writeMove (db : Db) (r : MessageRow) (dest x : FolderId) :
    mailboxOf (writeMove db r dest) x = mailboxOf db x := by
  refine (mailboxOf_updateFolderCountsInTx _ _ x).trans ?_
  exact mailboxOf_updateFolderCountsInTx _ _ x

/-- What a move does to one mailbox, for a message that is there and another
destination. -/
theorem Server.apply_moveUid {s : Server} (kept : Bool) {name dest : Text} {u : Uid} {m : Nat}
    (hm : (u, m) ∈ (s name).messages) (hne : dest ≠ name) (n : Text) :
    s.apply kept ⟨name, u, .moveUid dest⟩ n =
      if n = dest then (s n).append m
      else if n = name ∧ kept = false then (s n).expunge u else s n := by
  have hlook : (s name).messages.lookup u = some m := by
    cases hl : (s name).messages.lookup u with
    | none =>
      have := List.lookup_eq_none_iff.mp hl (u, m) hm
      simp at this
    | some m' =>
      have hm' : (u, m') ∈ (s name).messages := by
        obtain ⟨l₁, l₂, hsplit, -⟩ := List.lookup_eq_some_iff.mp hl
        rw [hsplit]; simp
      rw [(s name).assigned_inj ((s name).held _ hm') ((s name).held _ hm)]
  simp only [Server.apply, hlook]
  cases kept with
  | true => simp [Server.update]
  | false =>
    by_cases hn : n = dest
    · simp [Server.update, hn, hne]
    · simp [Server.update, hn]

theorem IdentityInv.moved (h : IdentityInv acc w) (ha : Acted acc w loaded f u) {dest : FolderRow}
    (hdest : dest ∈ w.db.folders.rows) (kept : Bool)
    (hfree : u ∉ (w.server dest.wireName).messages.map Prod.fst)
    (hclear : ArrivalClear acc w dest.wireName) :
    IdentityInv acc ⟨w.server.apply kept ⟨loaded.folderName, u, .moveUid dest.wireName⟩,
      writeMove w.db loaded.row dest.id⟩ := by
  obtain ⟨m₀, -, hm₀⟩ := ha.held h
  -- the source holds the UID, so the destination is another mailbox and folder
  have hne : dest.wireName ≠ loaded.folderName := by
    intro e
    apply hfree
    rw [e]
    exact List.mem_map.mpr ⟨_, hm₀, rfl⟩
  have hbox' : mailboxOf w.db dest.id = dest.externalId := by
    rw [mailboxOf, find_folder hdest, Option.bind_some]
  have hnf : dest.id ≠ f := by
    intro e
    rw [e, ha.box] at hbox'
    exact hne (by rw [FolderRow.wireName, ← hbox', Option.getD_some])
  have hbox : ∀ x, mailboxOf (writeMove w.db loaded.row dest.id) x = mailboxOf w.db x :=
    mailboxOf_writeMove w.db loaded.row dest.id
  have hserver := Server.apply_moveUid kept hm₀ hne
  have hgrow : ∀ n, ∀ p ∈ (w.server n).assigned,
      p ∈ (w.server.apply kept ⟨loaded.folderName, u, .moveUid dest.wireName⟩ n).assigned := by
    intro n p hp
    rw [hserver]
    split
    · exact List.mem_append_left _ hp
    · split <;> exact hp
  refine ⟨?_, ?_, ?_, ?_⟩
  · exact accounts_updateFolderCountsInTx (accounts_updateFolderCountsInTx h.account)
  · intro e p hp
    dsimp only at hp
    have hold : ∃ q, w.db.place acc e = some q := by
      rw [place_writeMove ha] at hp
      split at hp
      case isTrue he => exact ⟨_, he ▸ ha.place⟩
      case isFalse => exact ⟨p, hp⟩
    obtain ⟨q, hq⟩ := hold
    obtain ⟨f', u', n, m, he, hf, hm⟩ := h.stored e q hq
    exact ⟨f', u', n, m, he, (hbox f').trans hf, hgrow n _ hm⟩
  · intro g n v m hg hv hm
    dsimp only at hv hm
    have hg' : mailboxOf w.db g = some n := (hbox g).symm.trans hg
    by_cases hpair : n = loaded.folderName ∧ v = u
    · -- the moved message: its row is in the destination now
      obtain ⟨rfl, rfl⟩ := hpair
      have hgf : g = f := mailboxOf_inj h.account hg' ha.box
      subst hgf
      exact ⟨dest.id, false, by rw [place_writeMove ha, if_pos rfl], .inr hnf⟩
    · have hv' : (v, m) ∈ (w.server n).assigned ∧ (v, m) ∉ (w.server n).messages := by
        rw [hserver] at hv hm
        split at hv
        case isTrue e =>
          rw [if_pos e] at hm
          simp only [ServerBox.append, List.mem_append, not_or] at hv hm
          rcases hv with hv | hv
          · exact ⟨hv, hm.1⟩
          · exact absurd hv hm.2
        case isFalse e =>
          rw [if_neg e] at hm
          split at hv
          case isFalse e' => rw [if_neg e'] at hm; exact ⟨hv, hm⟩
          case isTrue e' =>
            rw [if_pos e'] at hm
            refine ⟨hv, fun hm' => hm (List.mem_filter.mpr ⟨hm', ?_⟩)⟩
            simpa using fun hvu => hpair ⟨e'.1, hvu⟩
      obtain ⟨g', d, hp, hor⟩ := h.left g n v m hg' hv'.1 hv'.2
      refine ⟨g', d, ?_, hor⟩
      rw [place_writeMove ha, if_neg]
      · exact hp
      · intro e
        obtain ⟨rfl, rfl⟩ := imapMessageExternalId_inj e
        exact hpair ⟨Option.some.inj (hg'.symm.trans ha.box), rfl⟩
  · intro e g n v m hp hn hv hm
    dsimp only at hp hm
    have hn' : mailboxOf w.db g = some n := (hbox g).symm.trans hn
    rw [place_writeMove ha] at hp
    split at hp
    case isTrue he =>
      -- the moved row finds at most its own message under its old UID
      subst he
      cases hp
      have hname : n = dest.wireName := by
        rw [FolderRow.wireName, ← hbox', hn', Option.getD_some]
      have hvu : v = u := parseImapUid_external_eq hv
      subst hname hvu
      rw [hserver, if_pos rfl] at hm
      rcases List.mem_append.mp hm with hm | hm
      · exact absurd (List.mem_map.mpr ⟨_, hm, rfl⟩) hfree
      · have hmm : m = m₀ := congrArg Prod.snd (List.mem_singleton.mp hm)
        subst hmm
        exact ⟨f, v, loaded.folderName, rfl, (hbox f).trans ha.box,
          hgrow _ _ ((w.server _).held _ hm₀)⟩
    case isFalse he =>
      have hold : (v, m) ∈ (w.server n).messages := by
        rw [hserver] at hm
        split at hm
        case isTrue en =>
          rcases List.mem_append.mp hm with hm | hm
          · exact hm
          · have hvn : v = (w.server n).uidNext := congrArg Prod.fst (List.mem_singleton.mp hm)
            subst en
            exact absurd (hvn ▸ hv) (hclear.place hp hn')
        case isFalse =>
          split at hm
          · exact (List.mem_filter.mp hm).1
          · exact hm
      exact (h.pairs e g n v m hp hn' hv hold).mono hbox hgrow

end Inv

section Requests

variable {decodeLabels : Text → Option (List Text)} {acc : AccountId} {w : World}

/-- A request on a row that does not load does nothing. -/
theorem Request.handle_of_error {id : Nat} {e : SyncError} (h : loadMessageRow w.db id = .error e)
    (replies : Replies) (request : Request) :
    request.handle decodeLabels w.db id replies = ⟨[], .error e⟩ := by
  cases request with
  | patch body => simp only [Request.handle, patchMessage, h]
  | move folder => simp only [Request.handle, moveMessage, h]
  | moveToRole role => simp only [Request.handle, moveMessageToRole, h]
  | destroy => simp only [Request.handle, destroyRowServerSide, h]
  | discardDraft => simp only [Request.handle, Lyra.discardDraft, h]

theorem Server.react_flags {s : Server} {kept : Bool} {i : ImapCommand × Reply}
    (h : i.1.op.isFlags = true) : s.react kept i = s := by
  unfold Server.react
  split
  · rfl
  · unfold Server.apply
    cases hop : i.1.op with
    | addFlags _ => rfl
    | removeFlags _ => rfl
    | moveUid _ => rw [hop] at h; cases h
    | deleteUid => rw [hop] at h; cases h

theorem Server.foldl_react_flags {s : Server} {kept : Bool} {is : List (ImapCommand × Reply)}
    (h : ∀ i ∈ is, i.1.op.isFlags = true) : is.foldl (fun s i => s.react kept i) s = s := by
  induction is with
  | nil => rfl
  | cons i is ih =>
    rw [List.foldl_cons, Server.react_flags (h i List.mem_cons_self)]
    exact ih fun j hj => h j (List.mem_cons_of_mem _ hj)

theorem IdentityInv.request (h : IdentityInv acc w) {id : Nat} {request : Request}
    {replies : Replies} {kept : Bool}
    (hacc : ∀ loaded, loadMessageRow w.db id = .ok loaded → loaded.row.accountId = acc)
    (hok : CleanRequest acc w (.request id request replies kept)) :
    IdentityInv acc
      ⟨(request.handle decodeLabels w.db id replies).issued.foldl (fun s i => s.react kept i) w.server,
        (request.handle decodeLabels w.db id replies).commit w.db⟩ := by
  cases hl : loadMessageRow w.db id with
  | error e => rw [Request.handle_of_error hl]; exact h
  | ok loaded =>
    obtain ⟨hown, hans, hdest⟩ := hok loaded hl
    obtain ⟨u, ha⟩ := acted_of_loaded hl (hacc loaded hl) hown
    have hh : Handled w.db loaded replies request (request.handle decodeLabels w.db id replies) :=
      Request.handled hl replies request
    generalize request.handle decodeLabels w.db id replies = out at hh
    cases hh with
    | refused => exact h
    | same => exact h
    | @flags issued result f hid hkey hcmd hf hres =>
      dsimp only
      rw [Server.foldl_react_flags fun i hi => (hcmd i hi).2.2]
      rcases hres with ⟨e, rfl⟩ | rfl
      · exact h
      · exact h.patched ha hf
    | trashed => exact h.trashed ha
    | @moved dest v reply hmem hd hparse hr =>
      have hv := ha.parse hparse
      subst hv
      obtain ⟨hclear, hfree⟩ := hdest _ hd
      cases reply with
      | ok => exact h.moved ha hmem kept (hfree _ hparse) hclear
      | failed applied =>
        cases applied with
        | true => exact absurd rfl (hr hans)
        | false => exact h
    | @deleted v reply hparse hr =>
      have hv := ha.parse hparse
      subst hv
      cases reply with
      | ok => exact h.deleted ha kept
      | failed applied =>
        cases applied with
        | true => exact absurd rfl (hr hans)
        | false => exact h

theorem IdentityInv.step {w' : World} {a : WorldAction} (h : IdentityInv acc w)
    (hok : CleanRequest acc w a) (hs : w.Step decodeLabels acc a w') : IdentityInv acc w' := by
  cases a with
  | deliver name message => obtain ⟨-, rfl⟩ := hs; exact h.deliver hok
  | persist folder messages cursor => obtain ⟨hf, rfl⟩ := hs; exact h.persist hf
  | repair folder messages => obtain ⟨hf, rfl⟩ := hs; exact h.repair hf
  | reconcile folder serverUids => cases hs; exact h.reconcile
  | request id request replies kept => obtain ⟨hacc, rfl⟩ := hs; exact h.request hacc hok

theorem identityInv_init (h : (identitySystem decodeLabels acc).init w) : IdentityInv acc w := by
  obtain ⟨hserver, hrows, hfolders⟩ := h
  have hplace : ∀ e, w.db.place acc e = none := by
    intro e
    rw [Db.place, KeyedTable.find, hrows]; rfl
  refine ⟨hfolders, ?_, ?_, ?_⟩
  · intro e p hp; rw [hplace] at hp; cases hp
  · intro f n u m _ hm; rw [hserver] at hm; cases hm
  · intro e g n u m hp; rw [hplace] at hp; cases hp

/-- Flag commands on the row's pair all name its message. -/
theorem namesOwn_flags {r : MessageRow} {kept : Bool} {name : Text} {u : Uid} {m : Nat}
    (hs : StandsFor w r.externalId m) (hm : (u, m) ∈ (w.server name).messages)
    {is : List (ImapCommand × Reply)}
    (h : ∀ i ∈ is, i.1.mailbox = name ∧ i.1.uid = u ∧ i.1.op.isFlags = true) :
    NamesOwn w r kept w.server is := by
  induction is with
  | nil => trivial
  | cons i is ih =>
    obtain ⟨hname, hu, hf⟩ := h i List.mem_cons_self
    refine ⟨⟨m, hs, by rw [hname, hu]; exact hm⟩, ?_⟩
    rw [Server.react_flags hf]
    exact ih fun j hj => h j (List.mem_cons_of_mem _ hj)

theorem IdentityInv.commandsRight (h : IdentityInv acc w) {a : WorldAction} {w' : World}
    (hok : CleanRequest acc w a) (hs : w.Step decodeLabels acc a w') :
    CommandsRight decodeLabels w a := by
  cases a with
  | deliver | persist | repair | reconcile => trivial
  | request id request replies kept =>
    intro loaded hl
    obtain ⟨hown, -, -⟩ := hok loaded hl
    obtain ⟨u, ha⟩ := acted_of_loaded hl (hs.1 loaded hl) hown
    obtain ⟨m, hstand, hm⟩ := ha.held h
    have hh : Handled w.db loaded replies request (request.handle decodeLabels w.db id replies) :=
      Request.handled hl replies request
    generalize request.handle decodeLabels w.db id replies = out at hh
    cases hh with
    | refused => trivial
    | same => trivial
    | trashed => trivial
    | flags f hid hkey hcmd hf hres =>
      apply namesOwn_flags hstand hm
      intro i hi
      exact ⟨(hcmd i hi).1, ha.parse (hcmd i hi).2.1, (hcmd i hi).2.2⟩
    | moved hmem hd hparse hr =>
      exact ⟨⟨m, hstand, by rw [ha.parse hparse]; exact hm⟩, trivial⟩
    | deleted hparse hr =>
      exact ⟨⟨m, hstand, by rw [ha.parse hparse]; exact hm⟩, trivial⟩

/-- In every run whose steps are clean, every command of every request names the pair
under which the row's message is, and no pair of a live row denotes another message. -/
theorem commands_name_own_message (decodeLabels : Text → Option (List Text)) (acc : AccountId)
    (w : World) (h : (identitySystem decodeLabels acc).Reachable (CleanRequest acc) w) :
    PairsRight acc w ∧ ∀ a w', CleanRequest acc w a → (identitySystem decodeLabels acc).step w a w' →
      CommandsRight decodeLabels w a := by
  have hinv : IdentityInv acc w := by
    apply System.Reachable.invariant _ _ h
    · intro s hs; exact identityInv_init hs
    · intro s a t hs hok hst; exact hs.step hok hst
  exact ⟨hinv.right, fun a w' hok hst => hinv.commandsRight hok hst⟩

end Requests

/-! ## A moved message, destroyed -/

/-- Folders `A` and `B` with mailboxes `x` and `y`. -/
def twoFolderRows : KeyedTable FolderRow FolderRow.id FolderRow.key :=
  ⟨[{ id := ['A'], accountId := ['a'], externalId := some ['x'], name := ['x'] },
      { id := ['B'], accountId := ['a'], externalId := some ['y'], name := ['y'] }],
    by decide, by unfold KeysDistinct; decide⟩

def twoFolders : World where
  server := fun _ => .empty
  db :=
    { messages := .empty
      folders := twoFolderRows
      cursors := .empty
      now := 0 }

def noLabels : Text → Option (List Text) := fun _ => none

theorem twoFolders_init : (identitySystem noLabels ['a']).init twoFolders :=
  ⟨fun _ => rfl, rfl, by decide⟩

/-- Message 1 in `x` and message 2 in `y`, both with UID 1; the first is stored. -/
def oneStored : World where
  server := fun n => if n = ['y'] then ServerBox.empty.append 2
    else if n = ['x'] then ServerBox.empty.append 1 else .empty
  db := (persistImapFolderBatch twoFolders.db ['a'] ['A'] [{ uid := 1 }] ⟨1, 1, 0⟩ false).2

theorem reachable_oneStored {ok : World → WorldAction → Prop}
    (hdeliver : ∀ w n m, w.db.messages.rows = [] → ok w (.deliver n m))
    (hpersist : ∀ w f ms c, ok w (.persist f ms c)) :
    (identitySystem noLabels ['a']).Reachable ok oneStored := by
  have h₀ : (identitySystem noLabels ['a']).Reachable ok twoFolders := .init twoFolders_init
  have h₁ := h₀.take (.deliver ['x'] 1) (hdeliver _ _ _ rfl) ⟨fun _ => List.not_mem_nil, rfl⟩
  have h₂ := h₁.take (.deliver ['y'] 2) (hdeliver _ _ _ rfl) ⟨?_, rfl⟩
  · have h₃ := h₂.take (.persist ['A'] [{ uid := 1 }] ⟨1, 1, 0⟩) (hpersist _ _ _ _)
      ⟨⟨['x'], rfl, by simp [Server.update, twoFolders, ServerBox.append, ServerBox.empty]⟩, rfl⟩
    convert h₃ using 1
    simp only [oneStored, twoFolders]
    congr 1
    funext n
    simp only [Server.update]
    split <;> simp_all
  · intro name
    simp only [twoFolders, Server.update]
    split <;> simp [ServerBox.append, ServerBox.empty]

/-- The stored message is destroyed under its own folder. -/
theorem destroy_hits_own_message :
    PairsRight ['a'] oneStored ∧
      CommandsRight noLabels oneStored (.request 1 .destroy ⟨true, [.ok], true⟩ false) := by
  have hreach : (identitySystem noLabels ['a']).Reachable (CleanRequest ['a']) oneStored := by
    apply reachable_oneStored
    · intro w n m hrows r hr
      rw [hrows] at hr
      cases hr
    · intro _ _ _ _; trivial
  obtain ⟨hpairs, hcommands⟩ := commands_name_own_message noLabels ['a'] oneStored hreach
  refine ⟨hpairs, hcommands _ _ ?_ ⟨?_, rfl⟩⟩
  · intro loaded hl
    cases hl
    exact ⟨⟨1, rfl⟩, by simp [Request.answered], fun dest hd => by cases hd⟩
  · intro loaded hl
    cases hl
    rfl

/-- The message is moved to `B`, where UID 1 is another message, and destroyed. -/
theorem destroy_hits_other_message :
    ¬ ∀ w, (identitySystem noLabels ['a']).Reachable (fun _ _ => True) w →
      PairsRight ['a'] w ∧ ∀ a w', (identitySystem noLabels ['a']).step w a w' →
        CommandsRight noLabels w a := by
  intro h
  have h₁ : (identitySystem noLabels ['a']).Reachable (fun _ _ => True) oneStored :=
    reachable_oneStored (fun _ _ _ _ => trivial) (fun _ _ _ _ => trivial)
  have h₂ := h₁.take (.request 1 (.move ['B']) ⟨true, [.ok], true⟩ false) trivial
    ⟨fun loaded hl => by cases hl; rfl, rfl⟩
  have hc := (h _ h₂).2 (.request 1 .destroy ⟨true, [.ok], true⟩ false) _
    ⟨fun loaded hl => by cases hl; rfl, rfl⟩
  obtain ⟨⟨m, ⟨f, u, n, he, hn, ha⟩, hm⟩, -⟩ := hc _ rfl
  -- the command names UID 1 of `y`, which is message 2
  have hm' : (1, m) ∈ [((1, 2) : Nat × Nat), (2, 1)] := hm
  have hm₂ : m = 2 := by simpa using hm'
  -- the row stands for message 1, UID 1 of `x`
  have he' : imapMessageExternalId ['A'] 1 = imapMessageExternalId f u := Option.some.inj he
  obtain ⟨rfl, rfl⟩ := imapMessageExternalId_inj he'
  have hx : n = ['x'] := (Option.some.inj hn).symm
  subst hx
  have hm₁ : m = 1 := congrArg Prod.snd (List.mem_singleton.mp ha)
  omega

end Lyra
