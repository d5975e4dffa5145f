import Lyra.Store.Schema
import Lyra.Dav.Xml
import Mathlib.Algebra.Order.Ring.Rat

/-!
# The new-mail diff of the push fan-out

`push/diff.rs`: which messages are new against a stored baseline, and how their senders are
shown.  The JSON parser is a parameter.
-/

namespace Lyra.Push

/-! ## JSON -/

inductive Json
  | null
  | bool (b : Bool)
  | num (n : Rat)
  | str (s : Text)
  | arr (entries : List Json)
  | obj (fields : List (Text × Json))

namespace Json

/-- A field of a parsed object. -/
def field (fields : List (Text × Json)) (key : String) : Option Json := fields.lookup key.toList

/-- `as_str`. -/
def asStr : Option Json → Option Text
  | some (.str s) => some s
  | _ => none

/-- `Value::get`, then `as_str`. -/
def getStr (key : String) : Json → Option Text
  | .obj fields => asStr (field fields key)
  | _ => none

end Json

/-! ## Messages -/

/-- What the diff reads of a listed message. -/
structure MessageResponse where
  id : Text
  folderId : Text
  /-- The effective role. -/
  folderRole : Option Text
  threadId : Option Text
  messageIdHeader : Option Text
  fromAddress : Option Text
  subject : Option Text
  isRead : Bool
  deriving DecidableEq, Repr

structure PushCandidate where
  id : Text
  identity : Text
  title : Text
  body : Text
  deriving DecidableEq, Repr

structure DiffOutcome where
  fresh : List PushCandidate
  newBaseline : List Text
  seeded : Bool
  deriving DecidableEq, Repr

def nonIncomingRoles : List Text :=
  ["sent".toList, "drafts".toList, "trash".toList, "spam".toList, "junk".toList, "outbox".toList]

def diffLimit : Nat := 15

def isIncoming (role : Option Text) : Bool := !nonIncomingRoles.contains (role.getD [])

/-- The Message-ID header, or the row's id where there is none. -/
def identity (m : MessageResponse) : Text := (m.messageIdHeader.filter fun s => s ≠ []).getD m.id

/-! ## Senders -/

/-- What stands before and after the last such character. -/
def splitLast (c : Char) : Text → Option (Text × Text)
  | [] => none
  | x :: t =>
    match splitLast c t with
    | some (before, after) => some (x :: before, after)
    | none => if x = c then some ([], t) else none

/-- `display_from_address`. -/
def displayFromAddress (text : Text) : Text :=
  match splitLast '<' text with
  | some (before, after) =>
    if text.getLast? = some '>' then
      let name := trimText before
      if name ≠ [] then name else trimText after.dropLast
    else text
  | none => text

/-- `sender_label`. -/
def senderLabel (parse : Text → Option Json) (fromAddress : Option Text) : Text :=
  let raw := fromAddress.getD []
  match parse raw with
  | some (.arr entries) =>
    match entries with
    | [] => raw
    | .str entry :: _ => entry
    | first :: _ => ((first.getStr "name").or (first.getStr "email")).getD []
  | some (.obj fields) =>
    displayFromAddress ((((Json.obj fields).getStr "raw").or ((Json.obj fields).getStr "email")).getD [])
  | _ => raw

/-! ## The diff -/

/-- The newest incoming messages. -/
def window (messages : List MessageResponse) : List MessageResponse :=
  (messages.filter fun m => isIncoming m.folderRole).take diffLimit

/-- Whether neither the folder nor the thread is muted. -/
def unmuted (mutedFolders mutedThreads : List Text) (m : MessageResponse) : Bool :=
  !mutedFolders.contains m.folderId && m.threadId.all fun t => !mutedThreads.contains t

def candidate (parse : Text → Option Json) (m : MessageResponse) : PushCandidate where
  id := m.id
  identity := identity m
  title := senderLabel parse m.fromAddress
  body := m.subject.getD []

/-- `diff_new_messages`. -/
def diffNewMessages (parse : Text → Option Json) (messages : List MessageResponse)
    (baseline mutedFolders mutedThreads : List Text) : DiffOutcome :=
  let incoming := window messages
  let newBaseline := incoming.map identity
  if baseline = [] then { fresh := [], newBaseline, seeded := true }
  else
    { fresh := ((incoming.filter fun m => !baseline.contains (identity m)).filter
        (unmuted mutedFolders mutedThreads)).map (candidate parse)
      newBaseline
      seeded := false }

/-! ## Splitting a text -/

theorem splitLast_eq_none {c : Char} {t : Text} (h : c ∉ t) : splitLast c t = none := by
  induction t with
  | nil => rfl
  | cons x t ih =>
    rw [List.mem_cons, not_or] at h
    rw [splitLast, ih h.2]
    exact if_neg (Ne.symm h.1)

theorem splitLast_append {c : Char} {after : Text} (h : c ∉ after) (before : Text) :
    splitLast c (before ++ c :: after) = some (before, after) := by
  induction before with
  | nil =>
    rw [List.nil_append, splitLast, splitLast_eq_none h]
    exact if_pos rfl
  | cons x before ih => rw [List.cons_append, splitLast, ih]

theorem splitLast_of_mem {c : Char} {t : Text} (h : c ∈ t) : ∃ before after,
    splitLast c t = some (before, after) ∧ t = before ++ c :: after ∧ c ∉ after := by
  induction t with
  | nil => cases h
  | cons x t ih =>
    by_cases hrest : c ∈ t
    · obtain ⟨before, after, hsplit, ht, hafter⟩ := ih hrest
      refine ⟨x :: before, after, ?_, ?_, hafter⟩
      · rw [splitLast, hsplit]
      · rw [ht]
        rfl
    · obtain rfl : c = x := (List.mem_cons.mp h).resolve_right hrest
      exact ⟨[], t, splitLast_append hrest [], rfl, hrest⟩

end Lyra.Push
