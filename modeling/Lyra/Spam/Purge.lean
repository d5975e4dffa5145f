import Lyra.Spam.Engine

/-!
# The purge of the spam folder

With auto-delete on, a pass destroys the messages of the spam folder that are older than the
window.  A date is a text on SQLite and a timestamp on Postgres, and the scan reads either of them
out of the columns that its query selects.

* `purgeOldSpam_eq`: the purge is the destruction of its targets, one after the other;
* `spamFolderRows_eq`: the scan, column by column;
* `destroysOld_iff`: it destroys exactly the old messages if there are none;
* `old_spam_kept`: a message of last year.
-/

namespace Lyra

open Lyra.Lib

/-! ## Result rows -/

/-- A column of a result row, as the driver decodes it. -/
inductive ColumnValue
  | key (id : Nat)
  | text (t : Text)
  | timestamp (seconds : Nat)

abbrev ResultRow := List (String × ColumnValue)

/-- How chrono writes and reads RFC 3339, and how a database keeps a date: as the text
`YYYY-MM-DD HH:MM:SS` on SQLite, as a timestamp on Postgres. -/
structure DateForm where
  stored : Nat → ColumnValue
  toRfc3339 : Nat → Text
  parseFromRfc3339 : Text → Option Nat

section Scan

variable (form : DateForm)

/-- The columns of a message that a scan may select. -/
def MessageRow.column (r : MessageRow) (name : String) : Option ColumnValue :=
  if name = "id" then some (.key r.id)
  else if name = "date" then r.date.map form.stored
  else none

def MessageRow.select (r : MessageRow) (columns : List String) : ResultRow :=
  columns.filterMap fun name => (r.column form name).map (name, ·)

/-- Either form of the date column; an absent column is no date. -/
def rowDateText (row : ResultRow) : Option Text :=
  match row.lookup "date" with
  | some (.text t) => some t
  | some (.timestamp d) => some (form.toRfc3339 d)
  | some (.key _) | none => none

/-- The live messages of the spam folder, oldest first, at most 200. -/
def scannedSpam (db : Db) : List MessageRow :=
  (byDateDesc (db.messages.rows.filter (inRole db "spam".toList))).reverse.take 200

/-- What `spam_folder_rows` selects. -/
def spamFolderColumns : List String := ["id"]

def scanRow (r : MessageRow) : SpamCandidate where
  id := r.id
  fromEmail := none
  fromName := none
  subject := none
  date := (rowDateText form (r.select form spamFolderColumns)).bind form.parseFromRfc3339
  verdict := none
  bodyHead := none

/-- The scan has no date to read: the query selects the ids only. -/
theorem rowDateText_scan (r : MessageRow) :
    rowDateText form (r.select form spamFolderColumns) = none := rfl

theorem spamFolderRows_eq (db : Db) : spamFolderRows db = (scannedSpam db).map (scanRow form) :=
  rfl

end Scan

/-! ## The window -/

def spamPurgeDays : Nat := 30

/-- The messages before it are old. -/
def purgeCutoff (now : Nat) : Nat := now - spamPurgeDays * 86400

/-- The message is more than thirty days old. -/
def MessageRow.OlderThanWindow (now : Nat) (r : MessageRow) : Prop :=
  ∃ d, r.date = some d ∧ d + spamPurgeDays * 86400 < now

/-- The messages that a purge destroys. -/
def purgeTargets (cutoff : Nat) (rows : List SpamCandidate) : List Nat :=
  (rows.filter fun row => row.date.any (· < cutoff)).map SpamCandidate.id

section Purge

variable (protocol : AccountId → Protocol) (r : PassReplies)

theorem purgeRows_eq (rows : List SpamCandidate) (m : Mail) :
    purgeRows protocol r m rows =
      (purgeTargets r.cutoff rows).foldl (fun m id => purgeRow protocol m id (r.move id)) m := by
  induction rows generalizing m with
  | nil => rfl
  | cons row rows ih =>
    unfold purgeRows purgeTargets
    cases hold : row.date.any (· < r.cutoff) with
    | true =>
      have hkeep : (row :: rows).filter (fun row => row.date.any (· < r.cutoff)) =
          row :: rows.filter fun row => row.date.any (· < r.cutoff) :=
        List.filter_cons_of_pos hold
      rw [if_pos rfl, hkeep, List.map_cons, List.foldl_cons]
      exact ih _
    | false =>
      have hskip : (row :: rows).filter (fun row => row.date.any (· < r.cutoff)) =
          rows.filter fun row => row.date.any (· < r.cutoff) :=
        List.filter_cons_of_neg (by rw [hold]; exact Bool.false_ne_true)
      rw [if_neg Bool.false_ne_true, hskip]
      exact ih m

theorem purgeOldSpam_eq (hread : r.purgeRead = true) (m : Mail) :
    purgeOldSpam protocol r m =
      (.ok (), (purgeTargets r.cutoff (spamFolderRows m.db)).foldl
        (fun m id => purgeRow protocol m id (r.move id)) m) := by
  unfold purgeOldSpam
  rw [if_pos hread, purgeRows_eq]

end Purge

/-! ## What is destroyed -/

/-- The messages that a purge at some time destroys. -/
def destroyedIds (form : DateForm) (db : Db) (now : Nat) : List Nat :=
  purgeTargets (purgeCutoff now) ((scannedSpam db).map (scanRow form))

/-- Whatever the servers answer, the purge destroys some messages one after the other, and these
are the old ones that it scanned. -/
structure DestroysOld (form : DateForm) (db : Db) (now : Nat) : Prop where
  run : ∀ protocol server (r : PassReplies), r.purgeRead = true → r.cutoff = purgeCutoff now →
    purgeOldSpam protocol r ⟨db, server⟩ =
      (.ok (), (destroyedIds form db now).foldl
        (fun m id => purgeRow protocol m id (r.move id)) ⟨db, server⟩)
  exact : ∀ row ∈ db.messages.rows,
    row.id ∈ destroyedIds form db now ↔ row ∈ scannedSpam db ∧ row.OlderThanWindow now

section Destroyed

variable (form : DateForm) (db : Db) (now : Nat)

theorem mem_rows_of_scanned {row : MessageRow} (h : row ∈ scannedSpam db) :
    row ∈ db.messages.rows := by
  have hsorted := List.mem_reverse.mp (List.mem_of_mem_take h)
  exact (List.mem_filter.mp ((List.perm_insertionSort _ _).mem_iff.mp hsorted)).1

/-- No scanned message has a date, so none is old. -/
theorem destroyedIds_eq_nil : destroyedIds form db now = [] := by
  unfold destroyedIds purgeTargets
  rw [List.map_eq_nil_iff, List.filter_eq_nil_iff]
  intro c hc
  obtain ⟨row, -, rfl⟩ := List.mem_map.mp hc
  unfold scanRow
  rw [rowDateText_scan]
  exact Bool.false_ne_true

theorem destroysOld_iff :
    DestroysOld form db now ↔ ∀ row ∈ scannedSpam db, ¬ row.OlderThanWindow now := by
  constructor
  · intro h row hrow hold
    have hmem := (h.exact row (mem_rows_of_scanned db hrow)).mpr ⟨hrow, hold⟩
    rw [destroyedIds_eq_nil] at hmem
    exact absurd hmem List.not_mem_nil
  · intro hnone
    refine ⟨fun protocol server r hread hcutoff => ?_, fun row _ => ?_⟩
    · rw [purgeOldSpam_eq protocol r hread, hcutoff, spamFolderRows_eq form]
      rfl
    · rw [destroyedIds_eq_nil]
      exact ⟨fun h => absurd h List.not_mem_nil, fun h => absurd h.2 (hnone row h.1)⟩

end Destroyed

/-! ## An old message -/

/-- A message of the spam folder. -/
def oldSpam : MessageRow where
  id := 1
  accountId := ['a']
  folderId := ['j']
  externalId := some "j:1".toList
  date := some 0

def oldSpamDb : Db where
  messages := ⟨[oldSpam], List.nodup_singleton _, List.pairwise_singleton _ _⟩
  folders := ⟨[⟨['j'], ['a'], some "Junk".toList, "Junk".toList, none, some "spam".toList, none, 0,
      1, 1⟩], List.nodup_singleton _, List.pairwise_singleton _ _⟩
  cursors := .empty
  now := 0

/-- A year later it is still there, on either database. -/
theorem old_spam_kept : ¬ ∃ form : DateForm, DestroysOld form oldSpamDb (365 * 86400) := by
  rintro ⟨form, h⟩
  have hscanned : oldSpam ∈ scannedSpam oldSpamDb := by decide +kernel
  have hmem := (h.exact oldSpam (mem_rows_of_scanned _ hscanned)).mpr
    ⟨hscanned, 0, rfl, by decide⟩
  rw [destroyedIds_eq_nil] at hmem
  exact absurd hmem List.not_mem_nil

end Lyra
