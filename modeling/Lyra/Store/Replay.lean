import Lyra.Store.Messages
import Lyra.Lib.Refresh

/-!
# Persisting a batch again

A sync may persist a page a second time.  A row of the page is then in the table, and the conflict
clause decides, column by column: the flags follow the server, the texts move off stale values, the
other columns fill absences or stay.

* `filled_filled`: what a batch makes of a row, it makes of it once;
* `rows_upsertMessages`: the table after a batch;
* `batch_replays`: a page persisted twice is a page persisted once.
-/

namespace Lyra

open Lyra.Lib

/-! ## A row and a batch -/

/-- What an incoming row makes of a stored one. -/
def filledOne (incoming r : MessageRow) : MessageRow :=
  if r.key = incoming.key then applyFillInOnConflict incoming r else r

def filled (items : List MessageRow) (r : MessageRow) : MessageRow :=
  items.foldl (fun r i => filledOne i r) r

theorem or_eq_refresh {α : Type} (a b : Option α) : a.or b = refresh Option.isNone a b := by
  cases a with
  | none => rfl
  | some a => rfl

/-- The conflict clause, by what makes each column stale. -/
theorem applyFillInOnConflict_eq (i r : MessageRow) : applyFillInOnConflict i r =
    { r with
      isRead := refresh (fun _ => true) r.isRead i.isRead
      isStarred := refresh (fun _ => true) r.isStarred i.isStarred
      flags := refresh (fun _ => true) r.flags i.flags
      subject := refresh staleText r.subject i.subject
      fromAddress := refresh staleText r.fromAddress i.fromAddress
      toAddresses := refresh staleText r.toAddresses i.toAddresses
      ccAddresses := refresh staleText r.ccAddresses i.ccAddresses
      date := refresh Option.isNone r.date i.date
      snippet := refresh staleText r.snippet i.snippet
      messageIdHeader := refresh Option.isNone r.messageIdHeader i.messageIdHeader
      mailer := refresh Option.isNone r.mailer i.mailer } := by
  unfold applyFillInOnConflict
  rw [or_eq_refresh, or_eq_refresh, or_eq_refresh]
  rfl

theorem foldl_applyFillInOnConflict (items : List MessageRow) (r : MessageRow) :
    items.foldl (fun r i => applyFillInOnConflict i r) r =
      { r with
        isRead := (items.map (·.isRead)).foldl (refresh fun _ => true) r.isRead
        isStarred := (items.map (·.isStarred)).foldl (refresh fun _ => true) r.isStarred
        flags := (items.map (·.flags)).foldl (refresh fun _ => true) r.flags
        subject := (items.map (·.subject)).foldl (refresh staleText) r.subject
        fromAddress := (items.map (·.fromAddress)).foldl (refresh staleText) r.fromAddress
        toAddresses := (items.map (·.toAddresses)).foldl (refresh staleText) r.toAddresses
        ccAddresses := (items.map (·.ccAddresses)).foldl (refresh staleText) r.ccAddresses
        date := (items.map (·.date)).foldl (refresh Option.isNone) r.date
        snippet := (items.map (·.snippet)).foldl (refresh staleText) r.snippet
        messageIdHeader :=
          (items.map (·.messageIdHeader)).foldl (refresh Option.isNone) r.messageIdHeader
        mailer := (items.map (·.mailer)).foldl (refresh Option.isNone) r.mailer } := by
  induction items generalizing r with
  | nil => rfl
  | cons i items ih =>
    rw [List.foldl_cons, ih, applyFillInOnConflict_eq]
    rfl

theorem filledOne_key (i r : MessageRow) : (filledOne i r).key = r.key := by
  unfold filledOne
  split
  · rfl
  · rfl

theorem filledOne_id (i r : MessageRow) : (filledOne i r).id = r.id := by
  unfold filledOne
  split
  · rfl
  · rfl

theorem filledOne_folderId (i r : MessageRow) : (filledOne i r).folderId = r.folderId := by
  unfold filledOne
  split
  · rfl
  · rfl

/-- Only the rows with its key matter to a row. -/
theorem filled_eq (items : List MessageRow) (r : MessageRow) :
    filled items r = (items.filter fun i => decide (r.key = i.key)).foldl
      (fun r i => applyFillInOnConflict i r) r := by
  induction items generalizing r with
  | nil => rfl
  | cons i items ih =>
    show filled items (filledOne i r) = _
    rw [ih, filledOne_key]
    unfold filledOne
    split
    · rename_i h
      rw [List.filter_cons_of_pos (p := fun i : MessageRow => decide (r.key = i.key)) (decide_eq_true h),
        List.foldl_cons]
    · rename_i h
      rw [List.filter_cons_of_neg (p := fun i : MessageRow => decide (r.key = i.key))
        (by rw [decide_eq_true_eq]; exact h)]

theorem filled_key (items : List MessageRow) (r : MessageRow) : (filled items r).key = r.key := by
  induction items generalizing r with
  | nil => rfl
  | cons i items ih => exact (ih _).trans (filledOne_key i r)

theorem filled_id (items : List MessageRow) (r : MessageRow) : (filled items r).id = r.id := by
  induction items generalizing r with
  | nil => rfl
  | cons i items ih => exact (ih _).trans (filledOne_id i r)

theorem filled_folderId (items : List MessageRow) (r : MessageRow) :
    (filled items r).folderId = r.folderId := by
  induction items generalizing r with
  | nil => rfl
  | cons i items ih => exact (ih _).trans (filledOne_folderId i r)

/-- Replaying a batch over a row that it has filled changes nothing. -/
theorem filled_filled (items : List MessageRow) (r : MessageRow) :
    filled items (filled items r) = filled items r := by
  rw [filled_eq items (filled items r), filled_key, filled_eq items r,
    foldl_applyFillInOnConflict, foldl_applyFillInOnConflict]
  simp only [foldl_refresh_idem]

theorem filledOne_self (r : MessageRow) : filledOne r r = r := by
  unfold filledOne
  rw [if_pos rfl, applyFillInOnConflict_eq]
  simp only [refresh_self]

/-! ## The table and a batch -/

section Batch

variable (acc : AccountId) (f : FolderId)

/-- The row of a message, but for its id. -/
def ImapMessage.incoming (m : ImapMessage) : MessageRow := m.toRow 0 acc f

/-- What a message makes of the rows of the table. -/
def upsertRow (rows : List MessageRow) (m : ImapMessage) : List MessageRow :=
  rows.map (filledOne (m.incoming acc f)) ++
    if (m.incoming acc f).key ∈ rows.map MessageRow.key then []
    else [m.toRow (freshNat (rows.map MessageRow.id)) acc f]

def upsertRows (rows : List MessageRow) (ms : List ImapMessage) : List MessageRow :=
  ms.foldl (upsertRow acc f) rows

theorem rows_upsertMessageInTx (db : Db) (m : ImapMessage) :
    (upsertMessageInTx db acc f m).2.messages.rows = upsertRow acc f db.messages.rows m := by
  have hkey : (m.incoming acc f).key = some (acc, imapMessageExternalId f m.uid) := rfl
  unfold upsertRow upsertMessageInTx
  rw [hkey]
  dsimp only
  cases hfind : db.messages.find (acc, imapMessageExternalId f m.uid) with
  | none =>
    have hnone := (db.messages.find_eq_none_iff _).mp hfind
    have hfree : some (acc, imapMessageExternalId f m.uid) ∉
        db.messages.rows.map MessageRow.key := by
      intro h
      obtain ⟨x, hx, hxk⟩ := List.mem_map.mp h
      exact hnone x hx hxk
    have hsame : db.messages.rows.map (filledOne (m.incoming acc f)) = db.messages.rows := by
      refine (List.map_congr_left fun x hx => ?_).trans (List.map_id _)
      unfold filledOne
      rw [hkey, if_neg (hnone x hx)]
      rfl
    rw [if_neg hfree, hsame]
    exact KeyedTable.upsert_of_free _ _ _ _ _ _ (m.key_toRow _ acc f) hfind
  | some x =>
    obtain ⟨hx, hxk⟩ := (db.messages.find_eq_some_iff _ x).mp hfind
    have hheld : some (acc, imapMessageExternalId f m.uid) ∈
        db.messages.rows.map MessageRow.key := List.mem_map.mpr ⟨x, hx, hxk⟩
    rw [if_pos hheld, List.append_nil]
    refine (congrArg KeyedTable.rows (db.messages.upsert_of_held (m.toRow db.newMessageId acc f)
      (applyFillInOnConflict (m.toRow db.newMessageId acc f)) (fun _ => rfl) (fun _ => rfl)
      (fun _ x hx => db.newMessageId_fresh x hx) (m.key_toRow _ acc f)
      (by rw [hfind]; rfl))).trans ?_
    refine List.map_congr_left fun r _ => ?_
    unfold filledOne KeyedTable.clash
    rw [m.key_toRow, hkey, Option.isSome_some, Bool.true_and]
    simp only [decide_eq_true_eq]
    rfl

theorem rows_upsertMessages (db : Db) (ms : List ImapMessage) :
    (upsertMessages acc f db ms).2.messages.rows = upsertRows acc f db.messages.rows ms := by
  induction ms generalizing db with
  | nil => rfl
  | cons m ms ih =>
    rw [upsertMessages_cons, ih, rows_upsertMessageInTx]
    rfl

variable {acc f} {rows : List MessageRow} {ms : List ImapMessage} {m : ImapMessage}

theorem keys_upsertRow : (upsertRow acc f rows m).map MessageRow.key =
    rows.map MessageRow.key ++
      if (m.incoming acc f).key ∈ rows.map MessageRow.key then [] else [(m.incoming acc f).key] := by
  unfold upsertRow
  rw [List.map_append, List.map_map]
  congr 1
  · exact List.map_congr_left fun r _ => filledOne_key _ r
  · split
    · rfl
    · rfl

theorem mem_keys_upsertRows {k : Option (AccountId × Text)} (h : k ∈ rows.map MessageRow.key) :
    k ∈ (upsertRows acc f rows ms).map MessageRow.key := by
  induction ms generalizing rows with
  | nil => exact h
  | cons m ms ih =>
    apply ih
    rw [keys_upsertRow]
    exact List.mem_append_left _ h

/-- After a batch, every message has its row. -/
theorem incoming_mem_upsertRows (hm : m ∈ ms) :
    (m.incoming acc f).key ∈ (upsertRows acc f rows ms).map MessageRow.key := by
  induction ms generalizing rows with
  | nil => exact nomatch hm
  | cons m' ms ih =>
    rcases List.mem_cons.mp hm with rfl | hm
    · show _ ∈ (upsertRows acc f (upsertRow acc f rows m) ms).map MessageRow.key
      apply mem_keys_upsertRows
      rw [keys_upsertRow]
      split
      · rename_i h
        exact List.mem_append_left _ h
      · exact List.mem_append_right _ (List.mem_singleton_self _)
    · exact ih hm

/-- Where every message has its row, a batch fills the rows. -/
theorem upsertRows_of_present
    (h : ∀ m ∈ ms, (m.incoming acc f).key ∈ rows.map MessageRow.key) :
    upsertRows acc f rows ms = rows.map (filled (ms.map (ImapMessage.incoming acc f))) := by
  induction ms generalizing rows with
  | nil => exact (List.map_id _).symm
  | cons m ms ih =>
    have hrow : upsertRow acc f rows m = rows.map (filledOne (m.incoming acc f)) := by
      unfold upsertRow
      rw [if_pos (h m List.mem_cons_self), List.append_nil]
    have hkeys : (rows.map (filledOne (m.incoming acc f))).map MessageRow.key =
        rows.map MessageRow.key := by
      rw [List.map_map]
      exact List.map_congr_left fun r _ => filledOne_key _ r
    show upsertRows acc f (upsertRow acc f rows m) ms = _
    rw [hrow, ih fun m' hm' => by rw [hkeys]; exact h m' (List.mem_cons_of_mem _ hm'),
      List.map_map]
    rfl

/-- Every row after a batch is a row that the batch has filled. -/
theorem exists_filled {r : MessageRow} (hr : r ∈ upsertRows acc f rows ms) :
    ∃ x, filled (ms.map (ImapMessage.incoming acc f)) x = r := by
  suffices h : (∃ x ∈ rows, filled (ms.map (ImapMessage.incoming acc f)) x = r) ∨
      ∃ m ∈ ms, (m.incoming acc f).key ∉ rows.map MessageRow.key ∧
        ∃ id, filled (ms.map (ImapMessage.incoming acc f)) (m.toRow id acc f) = r by
    rcases h with ⟨x, -, hx⟩ | ⟨m, -, -, id, hx⟩
    · exact ⟨x, hx⟩
    · exact ⟨_, hx⟩
  induction ms generalizing rows with
  | nil => exact .inl ⟨r, hr, rfl⟩
  | cons m ms ih =>
    rcases ih hr with ⟨x, hx, hfilled⟩ | ⟨m', hm', hfree, id, hfilled⟩
    · unfold upsertRow at hx
      rcases List.mem_append.mp hx with hx | hx
      · obtain ⟨y, hy, rfl⟩ := List.mem_map.mp hx
        exact .inl ⟨y, hy, hfilled⟩
      · split at hx
        · exact nomatch hx
        · rename_i hfree
          obtain rfl := List.mem_singleton.mp hx
          refine .inr ⟨m, List.mem_cons_self, hfree, freshNat (rows.map MessageRow.id), ?_⟩
          -- the new row is what its own message makes of it
          exact (congrArg (filled (ms.map (ImapMessage.incoming acc f))) (filledOne_self _)).trans
            hfilled
    · rw [keys_upsertRow] at hfree
      have hold : (m'.incoming acc f).key ∉ rows.map MessageRow.key :=
        fun h => hfree (List.mem_append_left _ h)
      refine .inr ⟨m', List.mem_cons_of_mem _ hm', hold, id, ?_⟩
      -- a message with the same key has its row before
      have hne : (m'.toRow id acc f).key ≠ (m.incoming acc f).key := by
        intro he
        have hkey : (m'.incoming acc f).key = (m.incoming acc f).key := he
        rw [hkey] at hfree hold
        rw [if_neg hold] at hfree
        exact hfree (List.mem_append_right _ (List.mem_singleton_self _))
      have hone : filledOne (m.incoming acc f) (m'.toRow id acc f) = m'.toRow id acc f := if_neg hne
      exact (congrArg (filled _) hone).trans hfilled

theorem upsertRows_upsertRows :
    upsertRows acc f (upsertRows acc f rows ms) ms = upsertRows acc f rows ms := by
  rw [upsertRows_of_present fun m hm => incoming_mem_upsertRows hm]
  refine (List.map_congr_left fun r hr => ?_).trans (List.map_id _)
  obtain ⟨x, rfl⟩ := exists_filled hr
  exact filled_filled _ x

/-- A batch fills the rows that are there and appends rows of its folder; which, depends on the
ids and keys alone. -/
theorem upsertRows_append (acc : AccountId) (ms : List ImapMessage) {rows' : List MessageRow}
    (new : List MessageRow)
    (hids : rows.map MessageRow.id = rows'.map MessageRow.id)
    (hkeys : rows.map MessageRow.key = rows'.map MessageRow.key)
    (hnew : ∀ r ∈ new, r.folderId = f) :
    ∃ new', upsertRows acc f (rows ++ new) ms =
        rows.map (filled (ms.map (ImapMessage.incoming acc f))) ++ new' ∧
      upsertRows acc f (rows' ++ new) ms =
        rows'.map (filled (ms.map (ImapMessage.incoming acc f))) ++ new' ∧
      ∀ r ∈ new', r.folderId = f := by
  induction ms generalizing rows rows' new with
  | nil =>
    refine ⟨new, ?_, ?_, hnew⟩
    · exact congrArg (· ++ new) (List.map_id _).symm
    · exact congrArg (· ++ new) (List.map_id _).symm
  | cons m ms ih =>
    let one := filledOne (m.incoming acc f)
    let appended := new.map one ++
      if (m.incoming acc f).key ∈ (rows ++ new).map MessageRow.key then []
      else [m.toRow (freshNat ((rows ++ new).map MessageRow.id)) acc f]
    have hstep : upsertRow acc f (rows ++ new) m = rows.map one ++ appended := by
      unfold upsertRow
      rw [List.map_append, List.append_assoc]
    have hstep' : upsertRow acc f (rows' ++ new) m = rows'.map one ++ appended := by
      unfold upsertRow
      have hk : (rows' ++ new).map MessageRow.key = (rows ++ new).map MessageRow.key := by
        rw [List.map_append, List.map_append, hkeys]
      have hi : (rows' ++ new).map MessageRow.id = (rows ++ new).map MessageRow.id := by
        rw [List.map_append, List.map_append, hids]
      rw [hk, hi, List.map_append, List.append_assoc]
    have hone : ∀ l : List MessageRow, (l.map one).map MessageRow.id = l.map MessageRow.id ∧
        (l.map one).map MessageRow.key = l.map MessageRow.key := by
      intro l
      rw [List.map_map, List.map_map]
      exact ⟨List.map_congr_left fun r _ => filledOne_id _ r,
        List.map_congr_left fun r _ => filledOne_key _ r⟩
    have happended : ∀ r ∈ appended, r.folderId = f := by
      intro r hr
      rcases List.mem_append.mp hr with hr | hr
      · obtain ⟨x, hx, rfl⟩ := List.mem_map.mp hr
        exact (filledOne_folderId _ x).trans (hnew x hx)
      · split at hr
        · exact nomatch hr
        · obtain rfl := List.mem_singleton.mp hr
          rfl
    obtain ⟨new', hrows, hrows', hnew'⟩ := @ih (rows.map one) (rows'.map one) appended
      (by rw [(hone _).1, (hone _).1, hids]) (by rw [(hone _).2, (hone _).2, hkeys]) happended
    refine ⟨new', ?_, ?_, hnew'⟩
    · show upsertRows acc f (upsertRow acc f (rows ++ new) m) ms = _
      rw [hstep, hrows, List.map_map]
      rfl
    · show upsertRows acc f (upsertRow acc f (rows' ++ new) m) ms = _
      rw [hstep', hrows', List.map_map]
      rfl

end Batch

/-! ## Pages -/

/-- What a user has done to a message, its body, and the texts that are not stale. -/
structure KeepsLocal (r r' : MessageRow) : Prop where
  id : r'.id = r.id
  key : r'.key = r.key
  labels : r'.labels = r.labels
  snoozedUntil : r'.snoozedUntil = r.snoozedUntil
  spamVerdict : r'.spamVerdict = r.spamVerdict
  isDeleted : r'.isDeleted = r.isDeleted
  bodyText : r'.bodyText = r.bodyText
  bodyHtml : r'.bodyHtml = r.bodyHtml
  subject : staleText r.subject = false → r'.subject = r.subject
  snippet : staleText r.snippet = false → r'.snippet = r.snippet
  fromAddress : staleText r.fromAddress = false → r'.fromAddress = r.fromAddress
  toAddresses : staleText r.toAddresses = false → r'.toAddresses = r.toAddresses
  ccAddresses : staleText r.ccAddresses = false → r'.ccAddresses = r.ccAddresses

theorem keepsLocal_filled (items : List MessageRow) (r : MessageRow) :
    KeepsLocal r (filled items r) := by
  have hid := filled_id items r
  have hkey := filled_key items r
  rw [filled_eq, foldl_applyFillInOnConflict] at hid hkey ⊢
  exact ⟨hid, hkey, rfl, rfl, rfl, rfl, rfl, rfl,
    fun h => foldl_refresh_of_fresh h _, fun h => foldl_refresh_of_fresh h _,
    fun h => foldl_refresh_of_fresh h _, fun h => foldl_refresh_of_fresh h _,
    fun h => foldl_refresh_of_fresh h _⟩

section Page

variable (acc : AccountId) (f : FolderId) (ms : List ImapMessage) (cursor : SyncCursorInfo)
  (clearFirst : Bool)

/-- The message table after a page. -/
def persistedRows (db : Db) : List MessageRow :=
  (persistImapFolderBatch db acc f ms cursor clearFirst).2.messages.rows

/-- A page that is persisted again: the rows are the same, if the folder is wiped first up to the
ids of the rows that are inserted anew; every message has exactly one row; and a row that was there
keeps what is local. -/
structure ReplaySafe (db : Db) : Prop where
  again : clearFirst = false →
    persistedRows acc f ms cursor clearFirst
        (persistImapFolderBatch db acc f ms cursor clearFirst).2 =
      persistedRows acc f ms cursor clearFirst db
  wiped : (persistedRows acc f ms cursor clearFirst
        (persistImapFolderBatch db acc f ms cursor clearFirst).2).map (fun r => { r with id := 0 }) =
      (persistedRows acc f ms cursor clearFirst db).map fun r => { r with id := 0 }
  oneRow : ∀ m ∈ ms, ∃! r, r ∈ persistedRows acc f ms cursor clearFirst db ∧
    r.key = some (acc, imapMessageExternalId f m.uid)
  unique : ∀ r ∈ persistedRows acc f ms cursor clearFirst db,
    ∀ r' ∈ persistedRows acc f ms cursor clearFirst db, r.key.isSome → r.key = r'.key → r = r'
  kept : ∀ r ∈ db.messages.rows, (clearFirst = true → r.folderId ≠ f) →
    ∃ r' ∈ persistedRows acc f ms cursor clearFirst db, KeepsLocal r r'

/-- The rows that a page starts from. -/
def startRows (rows : List MessageRow) : List MessageRow :=
  if clearFirst then rows.filter (fun r => !(r.folderId == f)) else rows

variable {acc f ms cursor clearFirst}

theorem persistedRows_eq (db : Db) : persistedRows acc f ms cursor clearFirst db =
    upsertRows acc f (startRows f clearFirst db.messages.rows) ms := by
  unfold persistedRows persistImapFolderBatch startRows
  cases clearFirst with
  | false => exact rows_upsertMessages acc f db ms
  | true => exact rows_upsertMessages acc f (clearFolderMessagesInTx db f) ms

/-- After a wipe, the same rows are inserted again. -/
theorem upsertRows_wiped (rows : List MessageRow) :
    upsertRows acc f (startRows f true (upsertRows acc f (startRows f true rows) ms)) ms =
      upsertRows acc f (startRows f true rows) ms := by
  let fill := filled (ms.map (ImapMessage.incoming acc f))
  let rest := startRows f true rows
  have hids : rest.map MessageRow.id = (rest.map fill).map MessageRow.id := by
    rw [List.map_map]
    exact List.map_congr_left fun r _ => (filled_id _ r).symm
  have hkeys : rest.map MessageRow.key = (rest.map fill).map MessageRow.key := by
    rw [List.map_map]
    exact List.map_congr_left fun r _ => (filled_key _ r).symm
  obtain ⟨new, hrows, hrows', hnew⟩ :=
    upsertRows_append (f := f) acc ms [] hids hkeys fun _ h => nomatch h
  rw [List.append_nil] at hrows hrows'
  have hfilled : (rest.map fill).map fill = rest.map fill := by
    rw [List.map_map]
    exact List.map_congr_left fun r _ => filled_filled _ r
  have hkept : startRows f true (rest.map fill ++ new) = rest.map fill := by
    unfold startRows
    rw [if_pos rfl, List.filter_append]
    have hrest : (rest.map fill).filter (fun r => !(r.folderId == f)) = rest.map fill := by
      refine List.filter_eq_self.mpr fun r hr => ?_
      obtain ⟨x, hx, rfl⟩ := List.mem_map.mp hr
      have hfolder : (fill x).folderId = x.folderId := filled_folderId _ x
      rw [hfolder]
      exact (List.mem_filter.mp hx).2
    have hwiped : new.filter (fun r => !(r.folderId == f)) = [] := by
      refine List.filter_eq_nil_iff.mpr fun r hr => ?_
      rw [hnew r hr, beq_self_eq_true]
      exact Bool.false_ne_true
    rw [hrest, hwiped, List.append_nil]
  show upsertRows acc f (startRows f true (upsertRows acc f rest ms)) ms = upsertRows acc f rest ms
  rw [hrows, hkept]
  exact hrows'.trans (congrArg (· ++ new) hfilled)

theorem persistedRows_again (db : Db) :
    persistedRows acc f ms cursor clearFirst
        (persistImapFolderBatch db acc f ms cursor clearFirst).2 =
      persistedRows acc f ms cursor clearFirst db := by
  have hrows : (persistImapFolderBatch db acc f ms cursor clearFirst).2.messages.rows =
      upsertRows acc f (startRows f clearFirst db.messages.rows) ms := persistedRows_eq db
  rw [persistedRows_eq, persistedRows_eq, hrows]
  cases clearFirst with
  | false => exact upsertRows_upsertRows
  | true => exact upsertRows_wiped db.messages.rows

theorem exists_keepsLocal {rows : List MessageRow} {r : MessageRow} (hr : r ∈ rows) :
    ∃ r' ∈ upsertRows acc f rows ms, KeepsLocal r r' := by
  obtain ⟨new, hrows, -, -⟩ := @upsertRows_append f rows acc ms rows [] rfl rfl fun _ h => nomatch h
  rw [List.append_nil] at hrows
  refine ⟨_, ?_, keepsLocal_filled (ms.map (ImapMessage.incoming acc f)) r⟩
  rw [hrows]
  exact List.mem_append_left _ (List.mem_map_of_mem hr)

theorem batch_replays (db : Db) : ReplaySafe acc f ms cursor clearFirst db where
  again _ := persistedRows_again db
  wiped := by rw [persistedRows_again]
  oneRow m hm := by
    have hkeys : (m.incoming acc f).key ∈
        (persistedRows acc f ms cursor clearFirst db).map MessageRow.key := by
      rw [persistedRows_eq]
      exact incoming_mem_upsertRows hm
    obtain ⟨r, hr, hkey⟩ := List.mem_map.mp hkeys
    refine ⟨r, ⟨hr, hkey⟩, fun r' h => ?_⟩
    exact (persistImapFolderBatch db acc f ms cursor clearFirst).2.messages.eq_of_key h.1 hr h.2 hkey
  unique r hr r' hr' hsome hkey := by
    obtain ⟨k, hk⟩ := Option.isSome_iff_exists.mp hsome
    exact (persistImapFolderBatch db acc f ms cursor clearFirst).2.messages.eq_of_key hr hr' hk
      (hkey ▸ hk)
  kept r hr hfolder := by
    rw [persistedRows_eq]
    apply exists_keepsLocal
    unfold startRows
    split
    · rename_i hclear
      refine List.mem_filter.mpr ⟨hr, ?_⟩
      rw [Bool.not_eq_true', beq_eq_false_iff_ne]
      exact hfolder hclear
    · exact hr

end Page

end Lyra
