import Lyra.Frontend.Conversation
import Lyra.Push.Diff

/-!
# The new-mail diff of the notifier

`notifications.ts` with `parseAddress` of `mail-api.ts`: the fresh messages, the next baseline
and the label of a sender.  A label is a value of JavaScript, not always a string.
-/

namespace Lyra.Notifications

open Lyra.Push Lyra.Conversation

/-! ## Values -/

/-- `a ?? b`; `none` is `undefined`. -/
def coalesce (a b : Option Json) : Option Json :=
  match a with
  | none | some .null => b
  | some v => some v

/-- Whether `!v` is false. -/
def truthy : Option Json → Bool
  | none | some .null => false
  | some (.bool b) => b
  | some (.num n) => n != 0
  | some (.str s) => s ≠ []
  | some (.arr _) | some (.obj _) => true

/-! ## Addresses -/

/-- The characters that `.` does not match. -/
def isLineTerminator (c : Char) : Bool := c ∈ ['\n', '\r', '\u2028', '\u2029']

/-- `(.+?)>$` -/
def matchBracketed (rest : Text) : Option Text :=
  if rest.getLast? = some '>' ∧ rest.dropLast ≠ [] ∧ rest.dropLast.all (!isLineTerminator ·) then
    some rest.dropLast
  else none

/-- `^(.+?)\s*<(.+?)>$`, where the first group has matched `group` so far. -/
def matchAddress (group : Text) : Text → Option (Text × Text)
  | [] => none
  | c :: t =>
    let here :=
      match (c :: t).dropWhile isSpace with
      | '<' :: rest => if group ≠ [] then (matchBracketed rest).map (group, ·) else none
      | _ => none
    match here with
    | some m => some m
    | none => if isLineTerminator c then none else matchAddress (group ++ [c]) t

structure MailAddress where
  name : Option Json
  email : Text

/-- `parseOneAddress`. -/
def parseOneAddress (raw : Text) : MailAddress :=
  match matchAddress [] raw with
  | some (name, email) => { name := some (.str (trim name)), email := trim email }
  | none => { name := none, email := raw }

def unknown : MailAddress := { name := none, email := "unknown".toList }

/-- `parseAddress` on a parsed object.  A value without `match` throws, and is unknown. -/
def parseAddress (fields : List (Text × Json)) : MailAddress :=
  match coalesce (Json.field fields "raw") (Json.field fields "email") with
  | some (.str raw) =>
    if raw = [] then unknown
    else
      let addr := parseOneAddress raw
      let name := Json.field fields "name"
      if truthy name && !truthy addr.name then { name, email := addr.email } else addr
  | _ => unknown

/-- `senderLabel`. -/
def senderLabel (parse : Text → Option Json) (fromAddress : Option Text) : Json :=
  let «from» := fromAddress.getD []
  match parse «from» with
  | some (.arr (first :: _)) =>
    match first with
    | .str entry => .str entry
    -- reading a field of `null` throws
    | .null => .str «from»
    | .obj fields =>
      (coalesce (coalesce (Json.field fields "name") (Json.field fields "email"))
        (some (.str []))).getD .null
    | _ => .str []
  | some (.obj fields) =>
    let addr := parseAddress fields
    if addr.email ≠ "unknown".toList then
      (coalesce addr.name (some (.str addr.email))).getD .null
    else .str «from»
  | _ => .str «from»

/-! ## The diff -/

def inboxDiffLimit : Nat := 15

def nonIncomingRoles : List Text :=
  ["sent".toList, "drafts".toList, "trash".toList, "spam".toList, "junk".toList, "outbox".toList]

def isIncomingFolderRole (folderRole : Option Text) : Bool :=
  !nonIncomingRoles.contains (folderRole.getD [])

/-- `msg.messageIdHeader || msg.id`. -/
def messageIdentity (m : MessageResponse) : Text :=
  match m.messageIdHeader with
  | some header => if header ≠ [] then header else m.id
  | none => m.id

structure NotificationDiff where
  fresh : List MessageResponse
  baseline : List Text

/-- The diff of `handleSyncEventForNotifications`; the account may have no baseline. -/
def diffNotifications (messages : List MessageResponse) (baseline : Option (List Text))
    (mutedFolders mutedThreads : List Text) : NotificationDiff :=
  let incoming := messages.filter fun m => isIncomingFolderRole m.folderRole
  let slice := incoming.take inboxDiffLimit
  let known := baseline.getD []
  { fresh :=
      if known = [] then []
      else slice.filter fun m =>
        !known.contains (messageIdentity m) && !mutedFolders.contains m.folderId &&
          !(m.threadId.any fun t => t ≠ [] && mutedThreads.contains t)
    baseline := slice.map messageIdentity }

end Lyra.Notifications
