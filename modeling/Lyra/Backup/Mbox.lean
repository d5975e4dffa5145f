import Lyra.Store.Codec

/-!
# Mailbox archives

An archive keeps the messages of a folder in one mbox file, with a sidecar of one line
per message in the same order.  The writer puts a `From <addr> <epoch>` line before each
message, escapes the lines of the message by a leading `>` and ends it by CR LF
(`backup/format.rs`, `backup/export.rs`); the reader cuts the file at the lines that begin
with `From `, takes the CR LF off and unescapes (`backup/import.rs`).

* `archive_round_trip`: the reader gives back every message byte for byte, and an
  exported folder is merged without a count or a hash mismatch.
-/

namespace Lyra

abbrev Bytes := List UInt8

/-! ## Bytes and lines -/

def lineFeed : UInt8 := 10
def carriageReturn : UInt8 := 13
def angle : UInt8 := 62

def crlf : Bytes := [carriageReturn, lineFeed]

/-- The bytes of `From `. -/
def fromMark : Bytes := [70, 114, 111, 109, 32]

/-- A text as Rust stores it. -/
def utf8 (t : Text) : Bytes := t.flatMap String.utf8EncodeChar

def stripSuffix (suffix s : Bytes) : Bytes :=
  if suffix.isSuffixOf s then s.take (s.length - suffix.length) else s

/-! ## Writing -/

/-- Lines that begin with `From ` or with `>` get one more `>`. -/
def escapeMboxLine (line : Bytes) : Bytes :=
  if fromMark.isPrefixOf line || [angle].isPrefixOf line then angle :: line else line

def separatorLine (fromAddr : Text) (epoch : Int) : Bytes :=
  utf8 ("From ".toList ++ fromAddr ++ ' ' :: signedDecimal epoch)

/-- `write_mbox_message`. -/
def writeMboxMessage (fromAddr : Text) (epoch : Int) (raw : Bytes) : Bytes :=
  separatorLine fromAddr epoch ++ crlf ++
    [lineFeed].intercalate ((raw.splitOn lineFeed).map escapeMboxLine) ++ crlf

/-- The separator's address: the first entry's email, when it fits on a line. -/
def mboxFromAddr (entries : List (Option Text × Option Text)) : Text :=
  ((entries.head?.bind Prod.snd).filter fun e =>
    e.contains '@' && !(e.contains '\r' || e.contains '\n')).getD "unknown@localhost".toList

/-! ## Reading -/

/-- `unescape_mbox_line`. -/
def unescapeMboxLine : Bytes → Bytes
  | [] => []
  | b :: line => if b = angle then line else b :: line

def isSeparator (line : Bytes) : Bool := fromMark.isPrefixOf (stripSuffix [carriageReturn] line)

/-- The loop of `split_mbox`: `body` holds what has been read since the last separator,
if there was one. -/
def splitMboxFrom (rest : Bytes) (body : Option Bytes) : List Bytes :=
  if rest = [] then body.toList
  else
    let line := rest.takeWhile (· ≠ lineFeed)
    let next := rest.drop (line.length + 1)
    if isSeparator line then body.toList ++ splitMboxFrom next (some [])
    else splitMboxFrom next (body.map (· ++ rest.take (line.length + 1)))
termination_by rest.length
decreasing_by
  all_goals
    have : 0 < rest.length := List.length_pos_of_ne_nil ‹_›
    simp only [List.length_drop]
    omega

def splitMbox (mbox : Bytes) : List Bytes := splitMboxFrom mbox none

/-- `recover_raw`. -/
def recoverRaw (chunk : Bytes) : Bytes :=
  [lineFeed].intercalate (((stripSuffix crlf chunk).splitOn lineFeed).map unescapeMboxLine)

/-! ## Lines of a message -/

theorem unescape_escape (line : Bytes) : unescapeMboxLine (escapeMboxLine line) = line := by
  unfold escapeMboxLine
  split
  case isTrue => simp [unescapeMboxLine]
  case isFalse h =>
    cases line with
    | nil => rfl
    | cons b line =>
      have hb : b ≠ angle := by
        rintro rfl
        exact h (by simp)
      exact if_neg hb

theorem lineFeed_not_mem_escape {line : Bytes} (h : lineFeed ∉ line) :
    lineFeed ∉ escapeMboxLine line := by
  unfold escapeMboxLine
  split
  case isTrue =>
    intro hm
    rcases List.mem_cons.mp hm with e | hm
    · exact absurd e (by decide)
    · exact h hm
  case isFalse => exact h

theorem stripSuffix_initial (suffix s : Bytes) : stripSuffix suffix s <+: s := by
  unfold stripSuffix
  split
  · exact List.take_prefix _ _
  · exact List.prefix_rfl

@[simp] theorem stripSuffix_append (s suffix : Bytes) : stripSuffix suffix (s ++ suffix) = s := by
  unfold stripSuffix
  rw [if_pos (by simp), List.length_append, Nat.add_sub_cancel, List.take_left]

theorem not_mark_escape (line : Bytes) : ¬ fromMark <+: escapeMboxLine line := by
  unfold escapeMboxLine
  split
  case isTrue =>
    intro h
    exact absurd (List.cons_prefix_cons.mp h).1 (by decide)
  case isFalse h =>
    intro hp
    exact h (by simp [hp])

theorem not_separator_escape (line : Bytes) : isSeparator (escapeMboxLine line) = false := by
  rw [← Bool.not_eq_true]
  intro h
  exact not_mark_escape line ((List.isPrefixOf_iff_prefix.mp h).trans (stripSuffix_initial _ _))

theorem not_separator_last (line : Bytes) :
    isSeparator (escapeMboxLine line ++ [carriageReturn]) = false := by
  rw [← Bool.not_eq_true]
  intro h
  exact not_mark_escape line (by simpa [isSeparator] using h)

/-! ## Reading line by line -/

theorem takeWhile_line {line : Bytes} (h : lineFeed ∉ line) (rest : Bytes) :
    (line ++ lineFeed :: rest).takeWhile (· ≠ lineFeed) = line := by
  have hall : ∀ b ∈ line, decide (b ≠ lineFeed) = true := by
    intro b hb
    exact decide_eq_true fun e => h (e ▸ hb)
  rw [List.takeWhile_append_of_pos hall]
  simp

theorem splitMboxFrom_line {line : Bytes} (h : lineFeed ∉ line) (rest : Bytes)
    (body : Option Bytes) :
    splitMboxFrom (line ++ lineFeed :: rest) body =
      if isSeparator line then body.toList ++ splitMboxFrom rest (some [])
      else splitMboxFrom rest (body.map (· ++ (line ++ [lineFeed]))) := by
  have hsplit : line ++ lineFeed :: rest = (line ++ [lineFeed]) ++ rest := by simp
  have hlen : line.length + 1 = (line ++ [lineFeed]).length := by simp
  rw [splitMboxFrom, if_neg (by simp)]
  dsimp only
  rw [takeWhile_line h rest, hsplit, hlen, List.drop_left, List.take_left]

/-- The text of lines, each with its LF. -/
def unlines (ls : List Bytes) : Bytes := ls.flatMap (· ++ [lineFeed])

/-- Lines that are no separators become part of the body. -/
theorem splitMboxFrom_body {ls : List Bytes} (hls : ∀ l ∈ ls, lineFeed ∉ l ∧ isSeparator l = false)
    (rest acc : Bytes) :
    splitMboxFrom (unlines ls ++ rest) (some acc) = splitMboxFrom rest (some (acc ++ unlines ls)) := by
  induction ls generalizing acc with
  | nil => simp [unlines]
  | cons l ls ih =>
    obtain ⟨hlf, hsep⟩ := hls l List.mem_cons_self
    have htext : unlines (l :: ls) ++ rest = l ++ lineFeed :: (unlines ls ++ rest) := by
      simp [unlines]
    rw [htext, splitMboxFrom_line hlf, hsep]
    simp only [Bool.false_eq_true, ↓reduceIte, Option.map_some]
    rw [ih fun l' hl' => hls l' (List.mem_cons_of_mem _ hl')]
    simp [unlines]

/-! ## A message as lines -/

/-- The lines of the written message, the last one with the CR of the closing CR LF. -/
def writtenLines : List Bytes → List Bytes
  | [] => []
  | [line] => [escapeMboxLine line ++ [carriageReturn]]
  | line :: lines => escapeMboxLine line :: writtenLines lines

theorem unlines_writtenLines {lines : List Bytes} (h : lines ≠ []) :
    [lineFeed].intercalate (lines.map escapeMboxLine) ++ crlf = unlines (writtenLines lines) := by
  induction lines with
  | nil => exact absurd rfl h
  | cons line lines ih =>
    cases lines with
    | nil => simp [writtenLines, unlines, crlf, List.intercalate]
    | cons line' lines =>
      have ih := ih (by simp)
      rw [List.map_cons, List.map_cons, List.intercalate_cons_cons]
      rw [List.map_cons] at ih
      simp only [writtenLines, unlines, List.flatMap_cons, List.append_assoc]
      rw [ih]
      rfl

theorem writtenLines_spec {lines : List Bytes} (h : ∀ l ∈ lines, lineFeed ∉ l) :
    ∀ l ∈ writtenLines lines, lineFeed ∉ l ∧ isSeparator l = false := by
  induction lines with
  | nil => simp [writtenLines]
  | cons line lines ih =>
    have hline := lineFeed_not_mem_escape (h line List.mem_cons_self)
    have hrest := ih fun l hl => h l (List.mem_cons_of_mem _ hl)
    cases lines with
    | nil =>
      intro l hl
      obtain rfl := List.mem_singleton.mp hl
      refine ⟨?_, not_separator_last line⟩
      intro hm
      rcases List.mem_append.mp hm with hm | hm
      · exact hline hm
      · exact absurd (List.mem_singleton.mp hm) (by decide)
    | cons line' lines =>
      intro l hl
      rcases List.mem_cons.mp hl with rfl | hl
      · exact ⟨hline, not_separator_escape line⟩
      · exact hrest l hl

theorem lineFeed_not_mem_splitOn (raw : Bytes) : ∀ l ∈ raw.splitOn lineFeed, lineFeed ∉ l := by
  induction raw with
  | nil => simp [List.splitOn_nil]
  | cons b raw ih =>
    rw [List.splitOn_cons_eq_if_modifyHead]
    split
    · intro l hl
      rcases List.mem_cons.mp hl with rfl | hl
      · exact List.not_mem_nil
      · exact ih l hl
    · rename_i hb
      cases hraw : raw.splitOn lineFeed with
      | nil => exact absurd hraw (List.splitOn_ne_nil _ _)
      | cons first others =>
        rw [hraw] at ih
        intro l hl
        rcases List.mem_cons.mp hl with rfl | hl
        · intro hm
          rcases List.mem_cons.mp hm with rfl | hm
          · exact hb (by simp)
          · exact ih first List.mem_cons_self hm
        · exact ih l (List.mem_cons_of_mem _ hl)

/-- What the reader makes of the body of a written message. -/
theorem recoverRaw_written (raw : Bytes) :
    recoverRaw (unlines (writtenLines (raw.splitOn lineFeed))) = raw := by
  have hne : raw.splitOn lineFeed ≠ [] := List.splitOn_ne_nil _ _
  have hlines := lineFeed_not_mem_splitOn raw
  rw [recoverRaw, ← unlines_writtenLines hne, stripSuffix_append, List.splitOn_intercalate,
    List.map_map]
  · have hid : unescapeMboxLine ∘ escapeMboxLine = id := funext unescape_escape
    rw [hid, List.map_id, List.intercalate_splitOn]
  · intro l hl
    obtain ⟨line, hline, rfl⟩ := List.mem_map.mp hl
    exact lineFeed_not_mem_escape (hlines line hline)
  · simp

/-! ## The separator -/

/-- A byte of the ASCII range only comes from its own character. -/
theorem eq_of_mem_utf8EncodeChar {c : Char} {b : UInt8} (hb : b ∈ String.utf8EncodeChar c)
    (hascii : b.toNat < 128) : c.val.toNat = b.toNat := by
  unfold String.utf8EncodeChar at hb
  dsimp only at hb
  split at hb
  case isTrue hv =>
    obtain rfl := List.mem_singleton.mp hb
    simp only [UInt8.toNat_ofNat']
    omega
  case isFalse =>
    -- the bytes of a longer encoding are all at least 128
    exfalso
    split at hb
    case isTrue =>
      simp only [List.mem_cons, List.not_mem_nil, or_false] at hb
      rcases hb with rfl | rfl
      all_goals simp only [UInt8.toNat_ofNat'] at hascii; omega
    case isFalse =>
      split at hb
      case isTrue =>
        simp only [List.mem_cons, List.not_mem_nil, or_false] at hb
        rcases hb with rfl | rfl | rfl
        all_goals simp only [UInt8.toNat_ofNat'] at hascii; omega
      case isFalse =>
        simp only [List.mem_cons, List.not_mem_nil, or_false] at hb
        rcases hb with rfl | rfl | rfl | rfl
        all_goals simp only [UInt8.toNat_ofNat'] at hascii; omega

theorem lineFeed_not_mem_utf8 {t : Text} (h : '\n' ∉ t) : lineFeed ∉ utf8 t := by
  intro hm
  obtain ⟨c, hc, hm⟩ := List.mem_flatMap.mp hm
  have hval := eq_of_mem_utf8EncodeChar hm (by decide)
  have hc' : c = '\n' := Char.ext (UInt32.toNat_inj.mp hval)
  exact h (hc' ▸ hc)

theorem newline_not_mem_signedDecimal (n : Int) : '\n' ∉ signedDecimal n := by
  cases n with
  | ofNat n => exact not_mem_decimal (by decide)
  | negSucc n =>
    intro hm
    rcases List.mem_cons.mp hm with e | hm
    · exact absurd e (by decide)
    · exact not_mem_decimal (by decide) hm

theorem newline_not_mem_mboxFromAddr (entries : List (Option Text × Option Text)) :
    '\n' ∉ mboxFromAddr entries := by
  unfold mboxFromAddr
  cases hf : (entries.head?.bind Prod.snd).filter fun e =>
      e.contains '@' && !(e.contains '\r' || e.contains '\n') with
  | none => decide
  | some e =>
    obtain ⟨-, he⟩ := Option.filter_eq_some_iff.mp hf
    simp at he
    exact he.2.2

theorem lineFeed_not_mem_separatorLine (entries : List (Option Text × Option Text)) (epoch : Int) :
    lineFeed ∉ separatorLine (mboxFromAddr entries) epoch := by
  apply lineFeed_not_mem_utf8
  intro hm
  rcases List.mem_append.mp hm with hm | hm
  · rcases List.mem_append.mp hm with hm | hm
    · exact absurd hm (by decide)
    · exact newline_not_mem_mboxFromAddr entries hm
  · rcases List.mem_cons.mp hm with e | hm
    · exact absurd e (by decide)
    · exact newline_not_mem_signedDecimal epoch hm

theorem separator_separatorLine (fromAddr : Text) (epoch : Int) :
    isSeparator (separatorLine fromAddr epoch ++ [carriageReturn]) = true := by
  have hmark : utf8 "From ".toList = fromMark := by decide
  rw [isSeparator, stripSuffix_append, separatorLine, utf8, List.flatMap_append,
    List.flatMap_append]
  change (List.isPrefixOf fromMark (utf8 "From ".toList ++ _ ++ _)) = true
  rw [hmark, List.append_assoc]
  simp

/-! ## Whole files -/

/-- A message with what its separator shows. -/
structure MboxMessage where
  fromEntries : List (Option Text × Option Text)
  epoch : Int
  raw : Bytes

def MboxMessage.write (m : MboxMessage) : Bytes :=
  writeMboxMessage (mboxFromAddr m.fromEntries) m.epoch m.raw

/-- The part of the file between two separators. -/
def MboxMessage.body (m : MboxMessage) : Bytes := unlines (writtenLines (m.raw.splitOn lineFeed))

theorem MboxMessage.write_eq (m : MboxMessage) :
    m.write = (separatorLine (mboxFromAddr m.fromEntries) m.epoch ++ [carriageReturn]) ++
      lineFeed :: m.body := by
  rw [write, writeMboxMessage, List.append_assoc, List.append_assoc]
  rw [unlines_writtenLines (List.splitOn_ne_nil _ _)]
  simp [crlf, body]

/-- A written message closes the body before it and opens its own. -/
theorem splitMboxFrom_write (m : MboxMessage) (rest : Bytes) (body : Option Bytes) :
    splitMboxFrom (m.write ++ rest) body = body.toList ++ splitMboxFrom rest (some m.body) := by
  have hline : lineFeed ∉ separatorLine (mboxFromAddr m.fromEntries) m.epoch ++ [carriageReturn] := by
    intro hm
    rcases List.mem_append.mp hm with hm | hm
    · exact lineFeed_not_mem_separatorLine _ _ hm
    · exact absurd (List.mem_singleton.mp hm) (by decide)
  rw [m.write_eq, List.append_assoc, List.cons_append, splitMboxFrom_line hline,
    separator_separatorLine, if_pos rfl, MboxMessage.body]
  rw [splitMboxFrom_body (writtenLines_spec (lineFeed_not_mem_splitOn m.raw)), List.nil_append]

theorem splitMboxFrom_messages (messages : List MboxMessage) (body : Option Bytes) :
    splitMboxFrom (messages.flatMap MboxMessage.write) body =
      body.toList ++ messages.map MboxMessage.body := by
  induction messages generalizing body with
  | nil => rw [List.flatMap_nil, splitMboxFrom, if_pos rfl, List.map_nil, List.append_nil]
  | cons m messages ih =>
    rw [List.flatMap_cons, splitMboxFrom_write, ih]
    rfl

theorem splitMbox_messages (messages : List MboxMessage) :
    splitMbox (messages.flatMap MboxMessage.write) = messages.map MboxMessage.body :=
  splitMboxFrom_messages messages none

theorem recover_splitMbox (messages : List MboxMessage) :
    (splitMbox (messages.flatMap MboxMessage.write)).map recoverRaw = messages.map MboxMessage.raw := by
  rw [splitMbox_messages, List.map_map]
  apply List.map_congr_left
  intro m _
  exact recoverRaw_written m.raw

/-! ## Exporting a folder -/

/-- A message row as `load_folder_messages` reads it; `date` and `receivedAt` as
`parse_ts` reads them. -/
structure MailRow where
  id : Text
  messageIdHeader : Option Text
  subject : Option Text
  fromEntries : List (Option Text × Option Text)
  toEntries : List (Option Text × Option Text)
  ccEntries : List (Option Text × Option Text)
  date : Option Int
  receivedAt : Option Int
  isRead : Bool
  isStarred : Bool
  bodyText : Option Text
  bodyHtml : Option Text
  deriving DecidableEq

/-- The separator's epoch. -/
def MailRow.epoch (r : MailRow) : Int := (r.date.or r.receivedAt).getD 0

inductive MailFlag
  | seen
  | flagged
  /-- A flag that the writer does not know. -/
  | other (name : Text)
  deriving DecidableEq, Repr

/-- One sidecar line. -/
structure MetaLine where
  messageId : Option Text
  flags : List MailFlag
  date : Option Int
  sha256 : Text
  reconstructed : Bool
  deriving DecidableEq

/-- The files of a folder. -/
structure FolderArchive where
  mbox : Bytes := []
  sidecar : List MetaLine := []
  written : Nat := 0

def serverFetchBatch : Nat := 50

/-- Where the bytes of a message come from, and the hash of the blob store. -/
structure RawSources where
  sha256Hex : Bytes → Text
  /-- The stored raw blob, when it can be read. -/
  stored : MailRow → Option Bytes
  /-- What the server gives for a batch of rows. -/
  fetchBatch : List MailRow → MailRow → Option Bytes
  /-- `reconstruct_message`. -/
  reconstruct : MailRow → Bytes

namespace RawSources

variable (src : RawSources)

def metaLine (row : MailRow) (raw : Bytes) (reconstructed : Bool) : MetaLine where
  messageId := row.messageIdHeader
  flags := (if row.isRead then [.seen] else []) ++ (if row.isStarred then [.flagged] else [])
  date := row.date
  sha256 := src.sha256Hex raw
  reconstructed := reconstructed

/-- A message as it is written. -/
structure Entry where
  row : MailRow
  raw : Bytes
  reconstructed : Bool

def Entry.line (e : Entry) : MetaLine := src.metaLine e.row e.raw e.reconstructed

/-- `write_entry`. -/
def writeEntry (w : FolderArchive) (e : Entry) : FolderArchive where
  mbox := w.mbox ++ writeMboxMessage (mboxFromAddr e.row.fromEntries) e.row.epoch e.raw
  sidecar := w.sidecar ++ [e.line src]
  written := w.written + 1

/-- A pending row of a batch: fetched from the server, or else reconstructed. -/
def pendingEntry (batch : List MailRow) (row : MailRow) : Entry :=
  match src.fetchBatch batch row with
  | some raw => ⟨row, raw, false⟩
  | none => ⟨row, src.reconstruct row, true⟩

/-- `flush_pending`. -/
def flushPending (w : FolderArchive) (pending : List MailRow) : FolderArchive :=
  pending.foldl (fun w row => src.writeEntry w (src.pendingEntry pending row)) w

/-- The loop of `export_folder`. -/
def exportRows : FolderArchive → List MailRow → List MailRow → FolderArchive
  | w, pending, [] => src.flushPending w pending
  | w, pending, row :: rows =>
    match src.stored row with
    | some raw => exportRows (src.writeEntry w ⟨row, raw, false⟩) pending rows
    | none =>
      if serverFetchBatch ≤ (pending ++ [row]).length then
        exportRows (src.flushPending w (pending ++ [row])) [] rows
      else exportRows w (pending ++ [row]) rows

def exportFolder (rows : List MailRow) : FolderArchive := src.exportRows {} [] rows

/-! ### Entries -/

def Entry.message (e : Entry) : MboxMessage := ⟨e.row.fromEntries, e.row.epoch, e.raw⟩

/-- The files that hold these entries. -/
structure Holds (w : FolderArchive) (entries : List Entry) : Prop where
  mbox : w.mbox = (entries.map Entry.message).flatMap MboxMessage.write
  sidecar : w.sidecar = entries.map (Entry.line src)

variable {src}

theorem Holds.writeEntry {w : FolderArchive} {entries : List Entry} (h : src.Holds w entries)
    (e : Entry) : src.Holds (src.writeEntry w e) (entries ++ [e]) where
  mbox := by
    simp [RawSources.writeEntry, h.mbox, Entry.message, MboxMessage.write]
  sidecar := by
    simp [RawSources.writeEntry, h.sidecar]

theorem Holds.foldl {w : FolderArchive} {entries : List Entry} (h : src.Holds w entries)
    (resolve : MailRow → Entry) (rows : List MailRow) :
    src.Holds (rows.foldl (fun w row => src.writeEntry w (resolve row)) w)
      (entries ++ rows.map resolve) := by
  induction rows generalizing w entries with
  | nil => simpa using h
  | cons row rows ih =>
    rw [List.foldl_cons, List.map_cons, List.append_cons]
    exact ih (h.writeEntry (resolve row))

theorem Holds.flushPending {w : FolderArchive} {entries : List Entry} (h : src.Holds w entries)
    (pending : List MailRow) :
    src.Holds (src.flushPending w pending) (entries ++ pending.map (src.pendingEntry pending)) :=
  h.foldl (src.pendingEntry pending) pending

/-- The files of an exported folder hold the same messages in the same order. -/
theorem holds_exportRows {w : FolderArchive} {entries : List Entry} (h : src.Holds w entries)
    (pending rows : List MailRow) : ∃ entries', src.Holds (src.exportRows w pending rows) entries' := by
  induction rows generalizing w entries pending with
  | nil => exact ⟨_, h.flushPending pending⟩
  | cons row rows ih =>
    rw [RawSources.exportRows]
    split
    · exact ih (h.writeEntry _) pending
    · split
      · exact ih (h.flushPending _) []
      · exact ih h _

theorem holds_exportFolder (src : RawSources) (rows : List MailRow) :
    ∃ entries, src.Holds (src.exportFolder rows) entries := by
  have hempty : src.Holds {} [] := ⟨rfl, rfl⟩
  exact holds_exportRows hempty [] rows

end RawSources

/-! ## Merging a folder -/

inductive MailError
  | countMismatch (messages lines : Nat)
  | badMetaLine
  | hashMismatch
  deriving DecidableEq, Repr

section Merge

variable {σ : Type} (sha256Hex : Bytes → Text) (importOne : σ → Bytes → MetaLine → σ)

/-- One pair of a chunk and a sidecar line; a line that does not parse is `none`. -/
def mergeOne (s : σ) (chunk : Bytes) : Option MetaLine → σ × List MailError
  | none => (s, [.badMetaLine])
  | some line =>
    let raw := recoverRaw chunk
    if sha256Hex raw = line.sha256 then (importOne s raw line, []) else (s, [.hashMismatch])

def mergePairs : σ → List (Bytes × Option MetaLine) → σ × List MailError
  | s, [] => (s, [])
  | s, (chunk, line) :: pairs =>
    let (s', errors) := mergeOne sha256Hex importOne s chunk line
    let (t, more) := mergePairs s' pairs
    (t, errors ++ more)

/-- `merge_folder_mail`. -/
def mergeFolderMail (s : σ) (mbox : Bytes) (lines : List (Option MetaLine)) : σ × List MailError :=
  let chunks := splitMbox mbox
  let (t, errors) := mergePairs sha256Hex importOne s (chunks.zip lines)
  (t, (if chunks.length = lines.length then [] else
    [.countMismatch chunks.length lines.length]) ++ errors)

/-- Entries whose hash agrees are merged one after the other. -/
theorem mergePairs_agree (s : σ) (entries : List (Bytes × MetaLine))
    (h : ∀ e ∈ entries, sha256Hex (recoverRaw e.1) = e.2.sha256) :
    mergePairs sha256Hex importOne s (entries.map fun e => (e.1, some e.2)) =
      (entries.foldl (fun s e => importOne s (recoverRaw e.1) e.2) s, []) := by
  induction entries generalizing s with
  | nil => rfl
  | cons e entries ih =>
    have hagree : mergeOne sha256Hex importOne s e.1 (some e.2) =
        (importOne s (recoverRaw e.1) e.2, []) := if_pos (h e List.mem_cons_self)
    rw [List.map_cons, mergePairs, hagree]
    dsimp only
    rw [ih _ fun e' he' => h e' (List.mem_cons_of_mem _ he')]
    rfl

end Merge

/-- A folder's files are merged message by message, without a mismatch. -/
theorem merge_of_holds {src : RawSources} {w : FolderArchive} {entries : List RawSources.Entry}
    (h : src.Holds w entries) {σ : Type} (importOne : σ → Bytes → MetaLine → σ) (s : σ) :
    mergeFolderMail src.sha256Hex importOne s w.mbox (w.sidecar.map some) =
      (entries.foldl (fun s e => importOne s e.raw (e.line src)) s, []) := by
  have hchunks : splitMbox w.mbox = entries.map fun e => e.message.body := by
    rw [h.mbox, splitMbox_messages, List.map_map]
    rfl
  have hpairs : (splitMbox w.mbox).zip (w.sidecar.map some) =
      (entries.map fun e => (e.message.body, e.line src)).map fun e => (e.1, some e.2) := by
    rw [hchunks, h.sidecar, List.map_map, List.map_map, List.zip_map']
    rfl
  have hlength : (splitMbox w.mbox).length = (w.sidecar.map some).length := by
    rw [hchunks, h.sidecar]
    simp
  have hagree : ∀ p ∈ entries.map fun e => (e.message.body, e.line src),
      src.sha256Hex (recoverRaw p.1) = p.2.sha256 := by
    intro p hp
    obtain ⟨e, -, rfl⟩ := List.mem_map.mp hp
    exact congrArg src.sha256Hex (recoverRaw_written e.raw)
  rw [mergeFolderMail]
  dsimp only
  rw [hpairs, mergePairs_agree _ _ _ _ hagree, if_pos hlength, List.foldl_map]
  simp only [List.append_nil, Prod.mk.injEq, and_true]
  congr 1
  funext s e
  rw [show recoverRaw e.message.body = e.raw from recoverRaw_written e.raw]

/-- The reader gives back every message as it was, in order, whatever its bytes; and the
files of an exported folder are merged entry by entry without a count or a hash mismatch,
whatever merging one message does. -/
theorem archive_round_trip :
    (∀ messages : List MboxMessage,
      (splitMbox (messages.flatMap MboxMessage.write)).map recoverRaw =
        messages.map MboxMessage.raw) ∧
    (∀ (src : RawSources) (rows : List MailRow), ∃ entries : List RawSources.Entry,
      (src.exportFolder rows).mbox =
          (entries.map RawSources.Entry.message).flatMap MboxMessage.write ∧
        (src.exportFolder rows).sidecar = entries.map (RawSources.Entry.line src) ∧
        ∀ (σ : Type) (importOne : σ → Bytes → MetaLine → σ) (s : σ),
          mergeFolderMail src.sha256Hex importOne s (src.exportFolder rows).mbox
              ((src.exportFolder rows).sidecar.map some) =
            (entries.foldl (fun s e => importOne s e.raw (e.line src)) s, [])) := by
  refine ⟨recover_splitMbox, ?_⟩
  intro src rows
  obtain ⟨entries, h⟩ := RawSources.holds_exportFolder src rows
  exact ⟨entries, h.mbox, h.sidecar, fun σ importOne s => merge_of_holds h importOne s⟩

end Lyra
