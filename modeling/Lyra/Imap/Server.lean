import Mathlib.Data.List.Perm.Basic
import Lyra.Lib.Chunks
import Lyra.Store.Messages

/-!
# IMAP mailboxes

A mailbox as the protocol describes it: messages in sequence order with
strictly ascending UIDs below `UIDNEXT`, and a mod-sequence per message
(RFC 7162).

The client's `UID SEARCH n:*` names message *sequence numbers*: only the
numbers that come back are UIDs.  A range is unordered and `*` is the last
message, so `n:*` with `n` past the end still lists the last message.

* `Mailbox.mem_searchFrom`: what such a search lists;
* `Mailbox.seq_le`: a message's sequence number is at most its UID.
-/

namespace Lyra

/-! ## Mailboxes -/

/-- A message on the server, as a metadata fetch shows it. -/
structure ServerMessage where
  envelope : ImapMessage
  modseq : Nat
  deriving DecidableEq, Repr

def ServerMessage.uid (m : ServerMessage) : Uid := m.envelope.uid

structure Mailbox where
  uidValidity : Nat
  uidNext : Nat
  /-- In sequence order. -/
  messages : List ServerMessage
  /-- Absent when the mailbox keeps no mod-sequences. -/
  highestModseq : Option Nat
  /-- The server advertises CONDSTORE or QRESYNC. -/
  condstore : Bool
  ascending : (messages.map ServerMessage.uid).Pairwise (· < ·)
  uidBounds : ∀ m ∈ messages, 0 < m.uid ∧ m.uid < uidNext
  uidNextPos : 0 < uidNext
  uidLimit : uidNext ≤ 2 ^ 32
  modseqBound : ∀ h, highestModseq = some h → ∀ m ∈ messages, m.modseq ≤ h

namespace Mailbox

def uids (mb : Mailbox) : List Uid := mb.messages.map ServerMessage.uid

theorem mem_uids {mb : Mailbox} {u : Uid} : u ∈ mb.uids ↔ ∃ m ∈ mb.messages, m.uid = u :=
  List.mem_map

theorem nodup_uids (mb : Mailbox) : mb.uids.Nodup :=
  mb.ascending.imp fun h => Nat.ne_of_lt h

theorem uid_pos {mb : Mailbox} {u : Uid} (h : u ∈ mb.uids) : 0 < u := by
  obtain ⟨m, hm, rfl⟩ := mem_uids.mp h
  exact (mb.uidBounds m hm).1

theorem uid_lt_next {mb : Mailbox} {u : Uid} (h : u ∈ mb.uids) : u < mb.uidNext := by
  obtain ⟨m, hm, rfl⟩ := mem_uids.mp h
  exact (mb.uidBounds m hm).2

theorem uid_lt {mb : Mailbox} {u : Uid} (h : u ∈ mb.uids) : u < 2 ^ 32 :=
  Nat.lt_of_lt_of_le (uid_lt_next h) mb.uidLimit

theorem eq_of_uid {mb : Mailbox} {m m' : ServerMessage} (hm : m ∈ mb.messages)
    (hm' : m' ∈ mb.messages) (h : m.uid = m'.uid) : m = m' :=
  List.inj_on_of_nodup_map mb.nodup_uids hm hm' h

/-! ## Answers to the client's commands -/

/-- `UID FETCH` of a UID set: the messages that exist. -/
def fetch (mb : Mailbox) (us : List Uid) : List ImapMessage :=
  (mb.messages.filter fun m => us.contains m.uid).map ServerMessage.envelope

/-- `UID FETCH 1:* (CHANGEDSINCE s)`. -/
def changedSince (mb : Mailbox) (s : Nat) : List ImapMessage :=
  (mb.messages.filter fun m => decide (s < m.modseq)).map ServerMessage.envelope

/-- `UID SEARCH n:*`; `0:*` is not a sequence set and lists nothing. -/
def searchFrom (mb : Mailbox) (n : Nat) : List Uid :=
  if n = 0 then [] else mb.uids.drop (min n mb.uids.length - 1)

/-- The message sequence number of a UID. -/
def seq (mb : Mailbox) (u : Uid) : Nat := mb.uids.idxOf u + 1

/-- The UID of the last message. -/
def isLast (mb : Mailbox) (u : Uid) : Prop := mb.uids.getLast? = some u

instance (mb : Mailbox) (u : Uid) : Decidable (mb.isLast u) :=
  inferInstanceAs (Decidable (mb.uids.getLast? = some u))

theorem mem_fetch {mb : Mailbox} {us : List Uid} {e : ImapMessage} :
    e ∈ mb.fetch us ↔ ∃ m ∈ mb.messages, m.uid ∈ us ∧ m.envelope = e := by
  simp only [fetch, List.mem_map, List.mem_filter, List.contains_iff_mem, and_assoc]

theorem mem_uids_fetch {mb : Mailbox} {us : List Uid} {u : Uid} :
    u ∈ (mb.fetch us).map ImapMessage.uid ↔ u ∈ us ∧ u ∈ mb.uids := by
  simp only [List.mem_map, mem_fetch, mem_uids]
  constructor
  · rintro ⟨_, ⟨m, hm, hu, rfl⟩, rfl⟩
    exact ⟨hu, m, hm, rfl⟩
  · rintro ⟨hu, m, hm, rfl⟩
    exact ⟨m.envelope, ⟨m, hm, hu, rfl⟩, rfl⟩

theorem mem_changedSince {mb : Mailbox} {s : Nat} {e : ImapMessage} :
    e ∈ mb.changedSince s ↔ ∃ m ∈ mb.messages, s < m.modseq ∧ m.envelope = e := by
  simp only [changedSince, List.mem_map, List.mem_filter, decide_eq_true_eq, and_assoc]

theorem mem_uids_changedSince {mb : Mailbox} {s : Nat} {u : Uid} :
    u ∈ (mb.changedSince s).map ImapMessage.uid ↔ ∃ m ∈ mb.messages, s < m.modseq ∧ m.uid = u := by
  simp only [List.mem_map, mem_changedSince]
  constructor
  · rintro ⟨_, ⟨m, hm, hs, rfl⟩, rfl⟩
    exact ⟨m, hm, hs, rfl⟩
  · rintro ⟨m, hm, hs, rfl⟩
    exact ⟨m.envelope, ⟨m, hm, hs, rfl⟩, rfl⟩

/-! ## Sequence numbers -/

theorem getElem_ascending {l : List Nat} (hl : l.Pairwise (· < ·)) (hpos : ∀ a ∈ l, 0 < a) :
    ∀ i (h : i < l.length), i < l[i] := by
  intro i
  induction i with
  | zero => intro h; exact hpos _ (List.getElem_mem h)
  | succ i ih =>
    intro h
    have hi := ih (by omega)
    have hlt := List.pairwise_iff_getElem.mp hl i (i + 1) (by omega) h (by omega)
    omega

theorem seq_le {mb : Mailbox} {u : Uid} (h : u ∈ mb.uids) : mb.seq u ≤ u := by
  have hi : mb.uids.idxOf u < mb.uids.length := List.idxOf_lt_length_iff.mpr h
  have := getElem_ascending mb.ascending (fun a ha => uid_pos ha) (mb.uids.idxOf u) hi
  have e : mb.uids[mb.uids.idxOf u] = u := List.getElem_idxOf hi
  have e' : (mb.messages.map ServerMessage.uid)[mb.uids.idxOf u] = u := e
  rw [e'] at this
  exact this

theorem isLast_iff {mb : Mailbox} {u : Uid} :
    mb.isLast u ↔ u ∈ mb.uids ∧ mb.seq u = mb.uids.length := by
  unfold isLast seq
  constructor
  · intro h
    have hne : mb.uids ≠ [] := by
      intro e; rw [e] at h; cases h
    have hu : mb.uids.getLast hne = u := by
      rw [List.getLast?_eq_getLast_of_ne_nil hne] at h
      exact Option.some.inj h
    have hpos := List.length_pos_of_ne_nil hne
    have hmem : u ∈ mb.uids := by rw [← hu]; exact List.getLast_mem hne
    refine ⟨hmem, ?_⟩
    have : mb.uids[mb.uids.length - 1] = u := by rw [← List.getLast_eq_getElem hne]; exact hu
    rw [← this, mb.nodup_uids.idxOf_getElem]
    omega
  · rintro ⟨hu, hs⟩
    have hi := List.idxOf_lt_length_iff.mpr hu
    rw [List.getLast?_eq_getElem?]
    rw [show mb.uids.length - 1 = mb.uids.idxOf u by omega]
    rw [List.getElem?_eq_getElem hi, List.getElem_idxOf hi]

/-- `UID SEARCH n:*` lists the sequence numbers from `n` on, and in any case
the last message. -/
theorem mem_searchFrom {mb : Mailbox} {n : Nat} (hn : 0 < n) {u : Uid} :
    u ∈ mb.searchFrom n ↔ u ∈ mb.uids ∧ (n ≤ mb.seq u ∨ mb.isLast u) := by
  rw [searchFrom, if_neg (by omega), Lib.mem_drop_iff_idxOf mb.nodup_uids, isLast_iff]
  constructor
  · rintro ⟨hu, hk⟩
    have hi := List.idxOf_lt_length_iff.mpr hu
    refine ⟨hu, ?_⟩
    unfold seq
    by_cases h : n ≤ mb.uids.idxOf u + 1
    · exact .inl h
    · exact .inr ⟨hu, by omega⟩
  · rintro ⟨hu, hk⟩
    refine ⟨hu, ?_⟩
    unfold seq at hk
    rcases hk with h | ⟨_, h⟩
    · omega
    · omega

theorem mem_uids_of_mem_searchFrom {mb : Mailbox} {n : Nat} {u : Uid} (h : u ∈ mb.searchFrom n) :
    u ∈ mb.uids := by
  unfold searchFrom at h
  split at h
  · cases h
  · exact List.mem_of_mem_drop h

theorem searchFrom_one (mb : Mailbox) : mb.searchFrom 1 = mb.uids := by
  unfold searchFrom
  rw [if_neg (by decide)]
  have : min 1 mb.uids.length - 1 = 0 := by omega
  rw [this, List.drop_zero]

/-! ## Later states of a mailbox -/

/-- A later state of the same mailbox: messages may have been expunged, new ones
carry fresh UIDs, and what is new or changed has a higher mod-sequence. -/
structure Later (mb mb' : Mailbox) : Prop where
  uidValidity : mb'.uidValidity = mb.uidValidity
  condstore : mb'.condstore = mb.condstore
  uidNext : mb.uidNext ≤ mb'.uidNext
  old : ∀ m ∈ mb'.messages, m.uid < mb.uidNext → m.uid ∈ mb.uids
  highest : ∀ h, mb.highestModseq = some h → ∃ h', mb'.highestModseq = some h' ∧ h ≤ h'
  fresh : ∀ h, mb.highestModseq = some h → ∀ m ∈ mb'.messages, m ∈ mb.messages ∨ h < m.modseq

/-- Mod-sequences are kept, so that a later pass asks for what changed. -/
def Tracked (mb : Mailbox) : Prop :=
  mb.condstore = true ∧ 0 < mb.highestModseq.getD 0

end Mailbox

end Lyra
