import Lyra.Store.Messages

/-!
# Sender lists and verdicts

The pure part of the anti-spam filter: the sender lists, the heuristic score, the
verdict on an envelope (allowed list, then blocked list, then heuristics), and the
address read out of a stored `from_address`.

`TextOps` are the text functions of the standard library and the JSON reader.
-/

namespace Lyra

/-- A JSON value, as far as a stored address can be one. -/
inductive Json
  | object (fields : List (Text × Json))
  | array (items : List Json)
  | string (text : Text)
  | other

structure TextOps where
  toLowercase : Text → Text
  isWhitespace : Char → Bool
  parseJson : Text → Option Json

/-! ## Settings and lists -/

inductive Sensitivity
  | lenient
  | standard
  | strict
  deriving DecidableEq, Repr

/-- The score from which a message is spam. -/
def Sensitivity.threshold : Sensitivity → Nat
  | .lenient => 3
  | .standard => 2
  | .strict => 1

structure SpamSettings where
  enabled : Bool := false
  learn : Bool := true
  autoDelete : Bool := false
  sensitivity : Sensitivity := .standard
  deriving DecidableEq, Repr

inductive SenderList
  | blocked
  | allowed
  deriving DecidableEq, Repr

structure SenderEntry where
  email : Text
  list : SenderList
  deriving DecidableEq, Repr

section Text

variable (ops : TextOps)

def TextOps.trim (s : Text) : Text :=
  ((s.dropWhile ops.isWhitespace).reverse.dropWhile ops.isWhitespace).reverse

/-- Whether a sender is the address of an entry, or of its domain (`@b.com`, `b.com`). -/
def senderMatches (entryEmail sender : Text) : Bool :=
  let entry := ops.toLowercase (ops.trim entryEmail)
  let sender := ops.toLowercase (ops.trim sender)
  if entry = sender then true
  else
    let entryDomain := match entry with
      | '@' :: rest => rest
      | _ => entry
    if ['@'].isPrefixOf entry || !entry.contains '@' then
      let domain := (sender.reverse.takeWhile (· ≠ '@')).reverse
      domain == entryDomain || ('.' :: entryDomain).isSuffixOf domain
    else false

/-- `add_sender`: a sender is on one of the lists. -/
def addSender (senders : List SenderEntry) (email : Text) (list : SenderList) :
    List SenderEntry :=
  let email := ops.toLowercase (ops.trim email)
  let rest := senders.filter fun s => !(s.email == email && s.list != list)
  if rest.contains ⟨email, list⟩ then rest else rest ++ [⟨email, list⟩]

def removeSender (senders : List SenderEntry) (email : Text) : List SenderEntry :=
  senders.filter fun s => s.email != ops.toLowercase (ops.trim email)

/-- `learn_sender`; `stored` says whether the write went through. -/
def learnSender (settings : SpamSettings) (senders : List SenderEntry) (email : Text)
    (block stored : Bool) : Option (List SenderEntry) :=
  if ops.trim email = [] || !email.contains '@' then none
  else if !settings.learn || !stored then none
  else some (addSender ops senders email (if block then .blocked else .allowed))

/-! ## Judgment -/

structure SpamEnvelope where
  fromEmail : Option Text := none
  fromName : Option Text := none
  subject : Option Text := none

/-- Signals of marketing bait. -/
def baitKeywords : List String :=
  ["viagra", "casino", "lottery", "crypto bonus", "bitcoin earnings", "wire transfer urgently",
    "claim your prize", "winner notification", "limited time offer", "act now", "100% free",
    "make money fast", "work from home millionaire", "no credit check", "unsubscribe click here",
    "seo services guaranteed", "cheap meds", "代开发票", "中奖通知", "恭喜获得", "赌博", "贷款秒批"]

def heuristicScore (env : SpamEnvelope) : Nat :=
  let subject := env.subject.getD []
  let name := env.fromName.getD []
  let haystack := ops.toLowercase (subject ++ ' ' :: name)
  let baitHits := min (baitKeywords.countP fun kw => containsText kw.toList haystack) 3
  let letters := subject.filter Char.isAlpha
  let shouting := decide (8 ≤ letters.length) &&
    decide (letters.length * 8 ≤ (letters.countP Char.isUpper) * 10)
  let bangs := subject.count '!'
  baitHits + (if shouting then 1 else 0) + (if 3 ≤ bangs then 1 else 0)

/-- Why a message was judged. -/
inductive Verdict
  | listed (list : SenderList)
  | scored (score : Nat)
  | clean
  deriving DecidableEq, Repr

/-- The sender is on the list. -/
def onList (senders : List SenderEntry) (list : SenderList) (sender : Text) : Bool :=
  senders.any fun s => s.list == list && senderMatches ops s.email sender

def spamVerdict (env : SpamEnvelope) (settings : SpamSettings) (senders : List SenderEntry) :
    Verdict :=
  let sender := env.fromEmail.getD []
  if sender = [] then .clean
  else if onList ops senders .allowed sender then .listed .allowed
  else if onList ops senders .blocked sender then .listed .blocked
  else if !settings.enabled then .clean
  else
    let score := heuristicScore ops env
    if settings.sensitivity.threshold ≤ score then .scored score else .clean

/-- The verdict to persist. -/
def judgeMessage (env : SpamEnvelope) (settings : SpamSettings) (senders : List SenderEntry) :
    Option SpamVerdict :=
  match spamVerdict ops env settings senders with
  | .listed .blocked => some .blocked
  | .listed .allowed => some .allowed
  | .scored _ => some .spam
  | .clean => some .clean

end Text

/-- The message goes to the spam folder. -/
def SpamVerdict.isSpam : SpamVerdict → Bool
  | .spam | .blocked | .aiSpam => true
  | .allowed | .clean | .aiClean => false

/-! ## Stored addresses -/

def Json.get (key : String) : Json → Option Json
  | .object fields => fields.lookup key.toList
  | _ => none

def Json.asStr : Json → Option Text
  | .string s => some s
  | _ => none

/-- What stands after the first `<`, up to the next `<` or `>`. -/
def angled (raw : Text) : Option Text :=
  match raw.dropWhile (· ≠ '<') with
  | [] => none
  | _ :: rest => some ((rest.takeWhile (· ≠ '<')).takeWhile (· ≠ '>'))

section Address

variable (ops : TextOps)

/-- The address of one stored value. -/
def extractEmail (o : Json) : Option Text :=
  match (o.get "email").bind Json.asStr with
  | some email => some email
  | none => ((o.get "raw").bind Json.asStr).bind fun r =>
    match angled r with
    | some a => some a
    | none => if r.contains '@' then some (ops.trim r) else none

/-- The bare address of a stored `from_address`. -/
def fromJsonEmail (raw : Option Text) : Option Text :=
  match raw.bind ops.parseJson with
  | none => none
  | some (.object fields) =>
    (extractEmail ops (.object fields)).or
      (((Json.object fields).get "raw").bind Json.asStr |>.bind angled)
  | some (.array items) => items.head?.bind (extractEmail ops)
  | some (.string s) => extractEmail ops (.object [("raw".toList, .string s)])
  | some .other => none

/-- The display name of a stored `from_address`; a bare address has none. -/
def fromJsonDisplayName (raw : Option Text) : Option Text :=
  (((raw.bind ops.parseJson).bind (Json.get "raw")).bind Json.asStr).bind fun r =>
    let name := ops.trim (r.takeWhile (· ≠ '<'))
    if name = [] || name.contains '@' then none else some name

end Address

end Lyra
