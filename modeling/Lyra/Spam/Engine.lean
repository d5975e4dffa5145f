import Lyra.Spam.Judge
import Lyra.Imap.Identity
import Mathlib.Data.List.Sort

/-!
# The anti-spam pass and the user's verdicts

`spam_pass` (heuristic batch, purge, AI batch), the re-judge after a sender-list edit,
and the requests that mark a message as spam or as not spam.  All of them stamp
`spam_verdict` on a row and move rows through the same seam as a user's move.

Everything awaited is an argument: by row, whether its stamp is written and what the
servers answer to its move.
-/

namespace Lyra

open Lyra.Lib

/-- The database and, by account, the IMAP servers. -/
structure Mail where
  db : Db
  server : AccountId → Server

/-- What a move meets; `kept` is the server's way with the source (`Server.apply`). -/
structure MoveReply where
  replies : Replies
  kept : Bool

/-- The commands of a request take effect, and its writes are committed. -/
def Mail.settle (m : Mail) (acc : AccountId) (kept : Bool) (out : Outcome Db) : Mail where
  db := out.commit m.db
  server := fun a =>
    if a = acc then out.issued.foldl (fun s i => s.react kept i) (m.server a) else m.server a

/-- `set_spam_verdict`. -/
def Mail.setSpamVerdict (m : Mail) (id : Nat) (v : SpamVerdict) : Mail :=
  { m with
    db := updateRow m.db id (fun r => { r with spamVerdict := some v }) (fun _ => rfl)
      (fun _ => rfl) }

/-! ## Candidates -/

structure SpamCandidate where
  id : Nat
  fromEmail : Option Text
  fromName : Option Text
  subject : Option Text
  date : Option Nat
  verdict : Option SpamVerdict
  bodyHead : Option Text

/-- The row is live, in a folder with the role. -/
def inRole (db : Db) (role : Text) (r : MessageRow) : Bool :=
  !r.isDeleted &&
    (db.folders.rows.find? fun f => f.id == r.folderId).any fun f =>
      decide (f.effectiveRole = some role)

/-- `ORDER BY date DESC`, rows without a date last. -/
def byDateDesc (rows : List MessageRow) : List MessageRow :=
  rows.insertionSort fun a b => b.date.elim 0 (· + 1) ≤ a.date.elim 0 (· + 1)

/-- The rows of `folder_role_rows`. -/
def roleRows (db : Db) (role : Text) (limit : Nat) (onlyUnjudged : Bool) : List MessageRow :=
  (byDateDesc (db.messages.rows.filter fun r =>
    inRole db role r && (!onlyUnjudged || r.spamVerdict.isNone))).take limit

section Engine

variable (ops : TextOps) (protocol : AccountId → Protocol)

def MessageRow.candidate (r : MessageRow) : SpamCandidate where
  id := r.id
  fromEmail := fromJsonEmail ops r.fromAddress
  fromName := fromJsonDisplayName ops r.fromAddress
  subject := r.subject
  date := r.date
  verdict := r.spamVerdict
  bodyHead := r.bodyText.map (List.take 600)

def SpamCandidate.envelope (c : SpamCandidate) : SpamEnvelope := ⟨c.fromEmail, c.fromName, c.subject⟩

def folderRoleRows (db : Db) (role : Text) (limit : Nat) (onlyUnjudged : Bool) :
    List SpamCandidate :=
  (roleRows db role limit onlyUnjudged).map (MessageRow.candidate ops)

def unjudgedRows (db : Db) (role : Text) (limit : Nat) : List SpamCandidate :=
  folderRoleRows ops db role limit true

/-! ## Moves -/

/-- Full-row move to the account's folder with a role. -/
def moveRowToRole (m : Mail) (id : Nat) (role : Text) (reply : MoveReply) :
    Except SyncError Unit × Mail :=
  match loadMessageRow m.db id with
  | .error e => (.error e, m)
  | .ok loaded =>
    match roleFolder m.db loaded.row.accountId role with
    | none =>
      (.error (.invalidInput ("account has no " ++ String.ofList role ++ " folder")), m)
    | some dest =>
      let out := applyMessageMove (protocol loaded.row.accountId) m.db loaded dest.id
        dest.externalId dest.wireName reply.replies
      (out.result.map fun _ => (), m.settle loaded.row.accountId reply.kept out)

def moveRowToSpam (m : Mail) (id : Nat) (reply : MoveReply) : Except SyncError Unit × Mail :=
  moveRowToRole protocol m id "spam".toList reply

def moveRowToInbox (m : Mail) (id : Nat) (reply : MoveReply) : Except SyncError Unit × Mail :=
  moveRowToRole protocol m id "inbox".toList reply

/-! ## The pass -/

def spamPassBatch : Nat := 100

def aiSpamPassCap : Nat := 10

/-- What the AI assistant answers to a subject, a sender and the head of a body:
`none` is an answer that cannot be read. -/
abbrev AiJudge := Text → Text → Text → Except Unit (Option Bool)

/-- What a pass meets.  `ai` is absent unless the assistant is configured, in auto mode
and its key can be read. -/
structure PassReplies where
  settingsRead : Bool
  sendersRead : Bool
  batchRead : Bool
  purgeRead : Bool
  aiRead : Bool
  ai : Option AiJudge
  stamp : Nat → Bool
  move : Nat → MoveReply
  cutoff : Nat

/-- The heuristic batch: stamp each row, move spam; a failed move is skipped, a failed
stamp ends the pass. -/
def judgeRows (settings : SpamSettings) (senders : List SenderEntry) (r : PassReplies) :
    Mail → List SpamCandidate → Except SyncError Unit × Mail
  | m, [] => (.ok (), m)
  | m, row :: rest =>
    match judgeMessage ops row.envelope settings senders with
    | none => judgeRows settings senders r m rest
    | some v =>
      if r.stamp row.id then
        let stamped := m.setSpamVerdict row.id v
        let moved :=
          if v = .spam ∨ v = .blocked then (moveRowToSpam protocol stamped row.id (r.move row.id)).2
          else stamped
        judgeRows settings senders r moved rest
      else (.error .database, m)

def judgeInboxBatch (settings : SpamSettings) (senders : List SenderEntry) (r : PassReplies)
    (m : Mail) : Except SyncError Unit × Mail :=
  if r.batchRead then
    judgeRows ops protocol settings senders r m (unjudgedRows ops m.db "inbox".toList spamPassBatch)
  else (.error .database, m)

/-- The rows of the purge scan: the query selects their ids only. -/
def spamFolderRows (db : Db) : List SpamCandidate :=
  ((byDateDesc (db.messages.rows.filter (inRole db "spam".toList))).reverse.take 200).map fun r =>
    ⟨r.id, none, none, none, none, none, none⟩

/-- Destroy a message on the server, then soft-delete its row. -/
def purgeRow (m : Mail) (id : Nat) (reply : MoveReply) : Mail :=
  match loadMessageRow m.db id with
  | .error _ => m
  | .ok loaded =>
    m.settle loaded.row.accountId reply.kept
      (destroyRowServerSide (protocol loaded.row.accountId) m.db id reply.replies)

def purgeRows (r : PassReplies) : Mail → List SpamCandidate → Mail
  | m, [] => m
  | m, row :: rest =>
    if row.date.any (· < r.cutoff) then
      purgeRows r (purgeRow protocol m row.id (r.move row.id)) rest
    else purgeRows r m rest

def purgeOldSpam (r : PassReplies) (m : Mail) : Except SyncError Unit × Mail :=
  if r.purgeRead then (.ok (), purgeRows protocol r m (spamFolderRows m.db)) else (.error .database, m)

/-- The AI batch: failures leave a row unjudged. -/
def aiRows (judge : AiJudge) (r : PassReplies) : Mail → List SpamCandidate → Mail
  | m, [] => m
  | m, row :: rest =>
    match row.fromEmail with
    | none => aiRows judge r m rest
    | some sender =>
      match judge (row.subject.getD []) sender (row.bodyHead.getD []) with
      | .ok (some true) =>
        if r.stamp row.id then
          aiRows judge r
            (moveRowToSpam protocol (m.setSpamVerdict row.id .aiSpam) row.id (r.move row.id)).2 rest
        else aiRows judge r m rest
      | .ok (some false) =>
        aiRows judge r (if r.stamp row.id then m.setSpamVerdict row.id .aiClean else m) rest
      | .ok none | .error _ => aiRows judge r m rest

def aiSpamAutoPass (r : PassReplies) (m : Mail) : Mail :=
  match r.ai with
  | none => m
  | some judge =>
    if r.aiRead then
      aiRows protocol judge r m (unjudgedRows ops m.db "inbox".toList aiSpamPassCap)
    else m

/-- `spam_pass`; its errors are logged. -/
def spamPass (settings : SpamSettings) (senders : List SenderEntry) (r : PassReplies) (m : Mail) :
    Mail :=
  if r.settingsRead then
    if !settings.enabled && !settings.autoDelete then aiSpamAutoPass ops protocol r m
    else if r.sendersRead then
      match
        if settings.enabled then judgeInboxBatch ops protocol settings senders r m else (.ok (), m)
      with
      | (.error _, m) => m
      | (.ok (), m) =>
        match if settings.autoDelete then purgeOldSpam protocol r m else (.ok (), m) with
        | (.error _, m) => m
        | (.ok (), m) => aiSpamAutoPass ops protocol r m
    else m
  else m

/-! ## Re-judging after a list edit -/

def rejudgeMoveCap : Nat := 25

def rejudgeScanLimit : Nat := 500

/-- The verdicts a list edit acts on. -/
def rejudgeable (list : SenderList) (v : Option SpamVerdict) : Bool :=
  match list with
  | .blocked => v == none || v == some .clean
  | .allowed => v == some .spam || v == some .blocked

def rejudgeIds (rows : List SpamCandidate) (entryEmail : Text) (list : SenderList) : List Nat :=
  ((rows.filter fun r =>
    r.fromEmail.any fun sender => senderMatches ops entryEmail sender && rejudgeable list r.verdict).take
      rejudgeMoveCap).map SpamCandidate.id

structure RejudgeReplies where
  read : Bool
  stamp : Nat → Bool
  move : Nat → MoveReply

def rejudgeRow (list : SenderList) (r : RejudgeReplies) (m : Mail) (id : Nat) : Mail :=
  match list with
  | .blocked =>
    (moveRowToSpam protocol (if r.stamp id then m.setSpamVerdict id .blocked else m) id (r.move id)).2
  | .allowed =>
    match moveRowToInbox protocol m id (r.move id) with
    | (.ok (), m) => if r.stamp id then m.setSpamVerdict id .allowed else m
    | (.error _, m) => m

/-- `apply_sender_list_change`. -/
def applySenderListChange (entryEmail : Text) (list : SenderList) (r : RejudgeReplies) (m : Mail) :
    Mail :=
  let role := match list with
    | .blocked => "inbox".toList
    | .allowed => "spam".toList
  if r.read then
    (rejudgeIds ops (folderRoleRows ops m.db role rejudgeScanLimit false) entryEmail list).foldl
      (rejudgeRow protocol list r) m
  else m

/-! ## Requests -/

/-- The mail, the user's settings and lists, and the re-judges not yet run. -/
structure SpamState where
  mail : Mail
  settings : SpamSettings
  senders : List SenderEntry
  pending : List (Text × SenderList)

/-- Learn a sender; what was learned is re-judged in the background. -/
def learnAndRejudge (s : SpamState) (email : Text) (block stored : Bool) : SpamState :=
  match learnSender ops s.settings s.senders email block stored with
  | none => s
  | some senders =>
    { s with
      senders := senders
      pending := s.pending ++ [(email, if block then .blocked else .allowed)] }

/-- What a request on one message meets. -/
structure VerdictReplies where
  stamp : Bool
  learn : Bool
  move : MoveReply

/-- `spam_message`. -/
def spamMessage (s : SpamState) (id : Nat) (r : VerdictReplies) : Except SyncError Unit × SpamState :=
  match loadMessageRow s.mail.db id with
  | .error e => (.error e, s)
  | .ok loaded =>
    let sender := fromJsonEmail ops loaded.row.fromAddress
    let out := moveMessageToRole (protocol loaded.row.accountId) s.mail.db id "spam".toList
      r.move.replies
    let s := { s with mail := s.mail.settle loaded.row.accountId r.move.kept out }
    match out.result with
    | .error e => (.error e, s)
    | .ok _ =>
      if r.stamp then
        let s := { s with mail := s.mail.setSpamVerdict id .blocked }
        (.ok (), sender.elim s fun email => learnAndRejudge ops s email true r.learn)
      else (.error .database, s)

/-- The learn hook and the move of `apply_user_move` to the inbox. -/
def applyUserMove (s : SpamState) (loaded : LoadedRow) (dest : FolderRow) (destRole : Text)
    (r : VerdictReplies) : Except SyncError Unit × SpamState :=
  let s :=
    if loaded.folderRole = some "spam".toList ∧ destRole ≠ "spam".toList ∧
        loaded.row.isDraft = false then
      (fromJsonEmail ops loaded.row.fromAddress).elim s fun email =>
        learnAndRejudge ops s email false r.learn
    else s
  let out := applyMessageMove (protocol loaded.row.accountId) s.mail.db loaded dest.id
    dest.externalId dest.wireName r.move.replies
  (out.result.map fun _ => (), { s with mail := s.mail.settle loaded.row.accountId r.move.kept out })

/-- `not_spam_message`. -/
def notSpamMessage (s : SpamState) (id : Nat) (r : VerdictReplies) :
    Except SyncError Unit × SpamState :=
  match loadMessageRow s.mail.db id with
  | .error e => (.error e, s)
  | .ok loaded =>
    let sender := fromJsonEmail ops loaded.row.fromAddress
    if r.stamp then
      let s := { s with mail := s.mail.setSpamVerdict loaded.row.id .allowed }
      if loaded.folderRole ≠ some "spam".toList then
        (.ok (), sender.elim s fun email => learnAndRejudge ops s email false r.learn)
      else
        match roleFolder s.mail.db loaded.row.accountId "inbox".toList with
        | none => (.error (.invalidInput "account has no inbox folder"), s)
        | some dest => applyUserMove ops protocol s loaded dest "inbox".toList r
    else (.error .database, s)

/-- `post_sender`. -/
def postSender (s : SpamState) (email : Text) (list : SenderList) (stored : Bool) :
    Except SyncError Unit × SpamState :=
  let email := ops.toLowercase (ops.trim email)
  if email = [] || email.contains ' ' then
    (.error (.invalidInput "email must be an address or a domain"), s)
  else if stored then
    (.ok (), { s with
      senders := addSender ops s.senders email list
      pending := s.pending ++ [(email, list)] })
  else (.error .database, s)

end Engine

end Lyra
