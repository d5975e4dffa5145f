import Lyra.Backup.HeaderText
import Lyra.Dav.Xml
import Lyra.Lib.HeaderBlock
import Lyra.Store.JsonText

/-!
# Messages from columns

A message of which no source is kept is put together from its row (`reconstruct_message` of
`backup/export.rs`).  The JSON reader and the text of a date are parameters.

* `readsAsMeant_iff`: a reader finds the fields that are meant, and the body where it was put, exactly
  if no address behind a name has a line break before anything but white space;
* `bcc_injected`: an address with a line break adds a field.
-/

namespace Lyra.Backup

open Lyra.Lib

/-! ## Addresses -/

/-- `str::rsplit_once`. -/
def rsplitOnce (c : Char) (s : Text) : Option (Text × Text) :=
  (splitOnce c s.reverse).map fun (after, before) => (before.reverse, after.reverse)

def trimStartMatches (c : Char) (s : Text) : Text := s.dropWhile (· = c)

def trimEndMatches (c : Char) (s : Text) : Text := (trimStartMatches c s.reverse).reverse

def nonEmpty (s : Text) : Option Text := if s = [] then none else some s

/-- `Name <email>`, an email or a name. -/
def splitAddress (raw : Text) : Option Text × Option Text :=
  let raw := trimText raw
  match rsplitOnce '<' raw with
  | some (name, rest) =>
    (nonEmpty (trimEndMatches '"' (trimStartMatches '"' (trimText name))),
      nonEmpty (trimText (trimEndMatches '>' rest)))
  | none =>
    if '@' ∈ raw then (none, some raw)
    else (nonEmpty raw, none)

def entryOf : Json → Option Text × Option Text
  | .string s => splitAddress s
  | entry =>
    (nonEmpty (((entry.get "name").bind Json.asStr).getD []),
      nonEmpty (((entry.get "email").bind Json.asStr).getD []))

/-- Names and emails of an address column. -/
def addressEntries (parseJson : Text → Option Json) (jsonText : Option Text) :
    List (Option Text × Option Text) :=
  let raw := trimText (jsonText.getD [])
  if raw = [] then []
  else
    match parseJson raw with
    | some (.array entries) =>
      (entries.map entryOf).filter fun e => e.1.isSome || e.2.isSome
    | some (.object fields) =>
      (((Json.object fields).get "raw").bind Json.asStr).elim [] fun s => [splitAddress s]
    | some (.string s) => [splitAddress s]
    | _ => [splitAddress raw]

def specials : Text := [',', ';', '"', '<', '>', '@', '\\']

def formatDisplayName (name : Text) : Text :=
  let clean := sanitizeHeader name
  if clean = [] then []
  else if !isAscii clean then encodeHeaderValue clean
  else if clean.any (· ∈ specials) then
    '"' :: replaceChar '"' ['\\', '"'] (replaceChar '\\' ['\\', '\\'] clean) ++ ['"']
  else clean

def formatMailbox : Option Text × Option Text → Text
  | (some n, some e) =>
    let display := formatDisplayName n
    if display = [] then sanitizeHeader e else display ++ [' ', '<'] ++ e ++ ['>']
  | (none, some e) => sanitizeHeader e
  | (some n, none) => formatDisplayName n
  | (none, none) => []

/-! ## Messages -/

/-- The columns that the message is made of. -/
structure MailRow where
  messageIdHeader : Option Text
  subject : Option Text
  fromAddress : Option Text
  toAddresses : Option Text
  ccAddresses : Option Text
  date : Option Text
  bodyText : Option Text
  bodyHtml : Option Text
  deriving DecidableEq, Repr

/-- A text on one line. -/
abbrev LineText := { t : Text // ∀ c ∈ t, isBreak c = false }

section Message

variable (parseJson : Text → Option Json) (dateText : Text → Option LineText)

def headerAddressList (jsonText : Option Text) : Option Text :=
  nonEmpty ([',', ' '].intercalate
    (((addressEntries parseJson jsonText).map formatMailbox).filter (· ≠ [])))

def headerFrom (fromJson : Option Text) : Text :=
  (headerAddressList parseJson fromJson).getD "unknown@localhost".toList

/-- The fields in their order; `dateText` is `parse_ts` and then `to_rfc2822`. -/
def rowFields (row : MailRow) : List (Text × Text) :=
  ("From".toList, headerFrom parseJson row.fromAddress) ::
    [("To".toList, headerAddressList parseJson row.toAddresses),
      ("Cc".toList, headerAddressList parseJson row.ccAddresses),
      ("Subject".toList, (row.subject.bind nonEmpty).map encodeHeaderValue),
      ("Date".toList, (row.date.bind dateText).map Subtype.val),
      ("Message-ID".toList, (row.messageIdHeader.bind nonEmpty).map sanitizeHeader)].filterMap
      fun (name, value) => value.map (name, ·)

def pushHeader (name value : Text) : Text := name ++ ": ".toList ++ value ++ "\r\n".toList

/-- The end of the head and the body: HTML wins over text. -/
def rowBody (row : MailRow) : Text × Text :=
  match row.bodyHtml.bind nonEmpty with
  | some html => ("text/html; charset=utf-8".toList, html)
  | none => ("text/plain; charset=utf-8".toList, row.bodyText.getD [])

def reconstructMessage (row : MailRow) : Text :=
  ((rowFields parseJson dateText row).map fun (name, value) => pushHeader name value).flatten ++
    "MIME-Version: 1.0\r\n".toList ++
    ("Content-Type: ".toList ++ (rowBody row).1 ++ "\r\n\r\n".toList ++ (rowBody row).2)

/-- The names of the fields that are meant. -/
def intendedNames (row : MailRow) : List Text :=
  (rowFields parseJson dateText row).map Prod.fst ++ ["MIME-Version".toList, "Content-Type".toList]

/-- What a reader finds: the fields that are meant, once each, and the body. -/
structure ReadsAsMeant (row : MailRow) : Prop where
  names : fieldNames (readBlock [] (reconstructMessage parseJson dateText row)).1 =
    intendedNames parseJson dateText row
  once : (fieldNames (readBlock [] (reconstructMessage parseJson dateText row)).1).Nodup
  body : (readBlock [] (reconstructMessage parseJson dateText row)).2 = (rowBody row).2

/-- No address behind a name has a line break before anything but white space. -/
def FoldedAddresses (row : MailRow) : Prop :=
  ∀ column ∈ [row.fromAddress, row.toAddresses, row.ccAddresses], ∀ n e : Text,
    (some n, some e) ∈ addressEntries parseJson column → n ≠ [] → Folded (e ++ ['>'])

end Message

/-! ## Values -/

theorem not_isBreak_sanitizeHeader {value : Text} {c : Char} (h : c ∈ sanitizeHeader value) :
    isBreak c = false := by
  obtain ⟨hcr, hlf⟩ := sanitizeHeader_breaks h
  simp [isBreak, hcr, hlf]

theorem folded_sanitizeHeader (value : Text) : Folded (sanitizeHeader value) :=
  folded_of_not fun _ => not_isBreak_sanitizeHeader

theorem folded_encodeHeaderValue (value : Text) : Folded (encodeHeaderValue value) := by
  cases hascii : isAscii (sanitizeHeader value) with
  | true =>
    rw [encodeHeaderValue_of_ascii hascii]
    exact folded_sanitizeHeader value
  | false =>
    rw [encodeHeaderValue_of_not_ascii hascii]
    apply folded_intercalate
    intro w hw c hc
    obtain ⟨chunk, -, rfl⟩ := List.mem_map.mp hw
    obtain ⟨-, -, hcr, hlf, -⟩ := encodeChunk_spec chunk
    have hcr' : c ≠ '\r' := fun h => hcr (h ▸ hc)
    have hlf' : c ≠ '\n' := fun h => hlf (h ▸ hc)
    simp [isBreak, hcr', hlf']

theorem folded_formatDisplayName (name : Text) : Folded (formatDisplayName name) := by
  unfold formatDisplayName
  simp only
  split
  · rfl
  · split
    · exact folded_encodeHeaderValue _
    · split
      · have hescapes : ∀ c ∈ ['"', '\\'], isBreak c = false := forall_mem_of_all (by decide)
        apply folded_of_not
        intro c hc
        rcases List.mem_append.mp hc with hc | hc
        · rcases List.mem_cons.mp hc with rfl | hc
          · rfl
          · rcases mem_replaceChar hc with hc | hc
            · exact hescapes c (by simpa [or_comm] using hc)
            · rcases mem_replaceChar hc with hc | hc
              · exact hescapes c (by simp_all)
              · exact not_isBreak_sanitizeHeader hc
        · rw [List.mem_singleton.mp hc]
          rfl
      · exact folded_sanitizeHeader name

theorem encodeHeaderValue_ne_nil {value : Text} (h : sanitizeHeader value ≠ []) :
    encodeHeaderValue value ≠ [] := by
  cases hascii : isAscii (sanitizeHeader value) with
  | true => rwa [encodeHeaderValue_of_ascii hascii]
  | false =>
    rw [encodeHeaderValue_of_not_ascii hascii]
    intro hnil
    have hread : decodeHeader (withUtf8 fun _ _ => none)
        (['\r', '\n', ' '].intercalate ((packChunks [] (sanitizeHeader value)).map encodeChunk)) =
        sanitizeHeader value := decodeHeader_chunks _
    rw [hnil] at hread
    exact h hread.symm

theorem formatDisplayName_eq_nil {name : Text} : formatDisplayName name = [] ↔ name = [] := by
  constructor
  · intro h
    by_contra hne
    have hclean : sanitizeHeader name ≠ [] := by simpa [sanitizeHeader] using hne
    unfold formatDisplayName at h
    simp only [if_neg hclean] at h
    split at h
    · refine encodeHeaderValue_ne_nil ?_ h
      simpa [sanitizeHeader] using hne
    · split at h
      · cases h
      · exact hclean h
  · rintro rfl
    rfl

/-- A mailbox stays in its field, unless an address behind a name does not. -/
theorem folded_formatMailbox (entry : Option Text × Option Text) :
    Folded (formatMailbox entry) ↔
      ∀ n e : Text, entry = (some n, some e) → n ≠ [] → Folded (e ++ ['>']) := by
  obtain ⟨n, e⟩ := entry
  cases n with
  | none =>
    refine iff_of_true ?_ nofun
    cases e with
    | none => rfl
    | some e => exact folded_sanitizeHeader e
  | some n =>
    cases e with
    | none => exact iff_of_true (folded_formatDisplayName n) nofun
    | some e =>
      simp only [formatMailbox, formatDisplayName_eq_nil]
      split
      · rename_i hn
        refine iff_of_true (folded_sanitizeHeader e) ?_
        rintro n' e' heq hne
        obtain ⟨rfl, -⟩ := by simpa using heq
        exact absurd hn hne
      · rename_i hn
        have hopen : ∀ c ∈ [' ', '<'], isBreak c = false := forall_mem_of_all (by decide)
        have hbreaks : openBreaks (formatDisplayName n ++ [' ', '<'] ++ e ++ ['>']) =
            openBreaks (e ++ ['>']) := by
          rw [List.append_assoc, List.append_assoc,
            openBreaks_append_of_folded (folded_formatDisplayName n),
            openBreaks_append_of_not hopen]
        unfold Folded
        rw [hbreaks]
        refine ⟨?_, fun h => h n e rfl hn⟩
        rintro h n' e' heq -
        obtain ⟨-, rfl⟩ := by simpa using heq
        exact h

/-! ## The message -/

section Read

variable {parseJson : Text → Option Json} {dateText : Text → Option LineText}

theorem nonEmpty_getD (s d : Text) : (nonEmpty s).getD d = if s = [] then d else s := by
  unfold nonEmpty
  split <;> rfl

/-- The mailboxes of a column. -/
theorem folded_mailboxes (column : Option Text) :
    Folded ([',', ' '].intercalate
        (((addressEntries parseJson column).map formatMailbox).filter (· ≠ []))) ↔
      ∀ n e : Text, (some n, some e) ∈ addressEntries parseJson column → n ≠ [] →
        Folded (e ++ ['>']) := by
  rw [folded_commas]
  constructor
  · intro h n e hentry hn
    have hmailbox : Folded (formatMailbox (some n, some e)) := by
      by_cases hnil : formatMailbox (some n, some e) = []
      · rw [hnil]
        rfl
      · exact h _ (List.mem_filter.mpr ⟨List.mem_map_of_mem hentry, decide_eq_true hnil⟩)
    exact (folded_formatMailbox _).mp hmailbox n e rfl hn
  · intro h v hv
    obtain ⟨entry, hentry, rfl⟩ := List.mem_map.mp (List.mem_filter.mp hv).1
    rw [folded_formatMailbox]
    rintro n e rfl hn
    exact h n e hentry hn

theorem folded_headerFrom (column : Option Text) :
    Folded (headerFrom parseJson column) ↔
      ∀ n e : Text, (some n, some e) ∈ addressEntries parseJson column → n ≠ [] →
        Folded (e ++ ['>']) := by
  have hunknown : Folded "unknown@localhost".toList := by decide
  rw [← folded_mailboxes]
  unfold headerFrom headerAddressList
  rw [nonEmpty_getD]
  split
  · rename_i hnil
    rw [hnil]
    exact iff_of_true hunknown rfl
  · exact Iff.rfl

theorem folded_headerAddressList (column : Option Text) :
    (∀ v, headerAddressList parseJson column = some v → Folded v) ↔
      ∀ n e : Text, (some n, some e) ∈ addressEntries parseJson column → n ≠ [] →
        Folded (e ++ ['>']) := by
  rw [← folded_mailboxes]
  unfold headerAddressList nonEmpty
  split
  · rename_i hnil
    rw [hnil]
    exact iff_of_true nofun rfl
  · simp

/-- All fields, up to the body. -/
def allFields (parseJson : Text → Option Json) (dateText : Text → Option LineText)
    (row : MailRow) : List (Text × Text) :=
  rowFields parseJson dateText row ++
    [("MIME-Version".toList, "1.0".toList), ("Content-Type".toList, (rowBody row).1)]

theorem pushHeader_eq (name value : Text) : pushHeader name value = writeField (name, value) := by
  simp [pushHeader, writeField]

theorem reconstructMessage_eq (row : MailRow) :
    reconstructMessage parseJson dateText row =
      writeBlock (allFields parseJson dateText row) (rowBody row).2 := by
  have hmime : "MIME-Version: 1.0\r\n".toList =
      writeField ("MIME-Version".toList, "1.0".toList) := by decide
  have htype : "Content-Type: ".toList ++ (rowBody row).1 ++ "\r\n\r\n".toList ++ (rowBody row).2 =
      writeField ("Content-Type".toList, (rowBody row).1) ++ '\r' :: '\n' :: (rowBody row).2 := by
    simp [writeField]
  unfold reconstructMessage writeBlock allFields
  rw [hmime, htype, List.flatMap_append, ← List.flatMap_def]
  simp [pushHeader_eq]

theorem intendedNames_eq (row : MailRow) :
    intendedNames parseJson dateText row = (allFields parseJson dateText row).map Prod.fst := by
  simp [intendedNames, allFields]

theorem sublist_names (fields : List (Text × Option Text)) :
    ((fields.filterMap fun (name, value) => value.map (name, ·)).map Prod.fst).Sublist
      (fields.map Prod.fst) := by
  induction fields with
  | nil => exact List.Sublist.slnil
  | cons f fields ih =>
    obtain ⟨name, value⟩ := f
    cases value with
    | none => exact ih.cons name
    | some v => exact ih.cons_cons name

theorem folded_optional (fields : List (Text × Option Text)) :
    (∀ f ∈ fields.filterMap fun (name, value) => value.map (name, ·), Folded f.2) ↔
      ∀ f ∈ fields, ∀ v, f.2 = some v → Folded v := by
  constructor
  · rintro h ⟨name, value⟩ hf v rfl
    exact h (name, v) (List.mem_filterMap.mpr ⟨_, hf, rfl⟩)
  · intro h f hf
    obtain ⟨⟨name, value⟩, hg, hvalue⟩ := List.mem_filterMap.mp hf
    obtain ⟨v, rfl, rfl⟩ := Option.map_eq_some_iff.mp hvalue
    exact h _ hg v rfl

/-- The names that a message can have. -/
def messageFields : List Text :=
  ["From".toList, "To".toList, "Cc".toList, "Subject".toList, "Date".toList, "Message-ID".toList,
    "MIME-Version".toList, "Content-Type".toList]

theorem sublist_messageFields (row : MailRow) :
    (intendedNames parseJson dateText row).Sublist messageFields :=
  ((sublist_names _).cons_cons _).append (List.Sublist.refl _)

theorem isFieldName_of_mem {name : Text} (h : name ∈ messageFields) : IsFieldName name := by
  have hall : ∀ name ∈ messageFields, name ≠ [] ∧
      name.all (fun c => c ≠ ':' && !isWsp c && !isBreak c) = true :=
    forall_mem_of_all (by decide +kernel)
  obtain ⟨hne, hspec⟩ := hall name h
  refine ⟨hne, fun c hc => ?_⟩
  simpa [and_assoc] using List.all_eq_true.mp hspec c hc

theorem allFields_names (row : MailRow) :
    ∀ f ∈ allFields parseJson dateText row, IsFieldName f.1 := by
  intro f hf
  apply isFieldName_of_mem
  apply (sublist_messageFields row).subset
  rw [intendedNames_eq]
  exact List.mem_map_of_mem hf

/-- Only the address columns can break out of their fields. -/
theorem allFields_folded (row : MailRow) :
    (∀ f ∈ allFields parseJson dateText row, Folded f.2) ↔ FoldedAddresses parseJson row := by
  have hmime : Folded "1.0".toList := by decide
  have htype : Folded (rowBody row).1 := by
    have hboth : ∀ t ∈ ["text/html; charset=utf-8".toList, "text/plain; charset=utf-8".toList],
        Folded t := forall_mem_of_all (by decide)
    unfold rowBody
    split
    · exact hboth _ (by simp)
    · exact hboth _ (by simp)
  have hsubject : ∀ v, (row.subject.bind nonEmpty).map encodeHeaderValue = some v → Folded v := by
    intro v hv
    obtain ⟨t, -, rfl⟩ := Option.map_eq_some_iff.mp hv
    exact folded_encodeHeaderValue t
  have hdate : ∀ v, (row.date.bind dateText).map Subtype.val = some v → Folded v := by
    intro v hv
    obtain ⟨t, -, rfl⟩ := Option.map_eq_some_iff.mp hv
    exact folded_of_not t.property
  have hid : ∀ v, (row.messageIdHeader.bind nonEmpty).map sanitizeHeader = some v → Folded v := by
    intro v hv
    obtain ⟨t, -, rfl⟩ := Option.map_eq_some_iff.mp hv
    exact folded_sanitizeHeader t
  unfold FoldedAddresses allFields rowFields
  rw [List.forall_mem_append, List.forall_mem_cons, folded_optional, folded_headerFrom]
  simp only [List.forall_mem_cons, folded_headerAddressList]
  constructor
  · rintro ⟨⟨hfrom, hto, hcc, -⟩, -⟩
    exact ⟨hfrom, hto, hcc, nofun⟩
  · rintro ⟨hfrom, hto, hcc, -⟩
    exact ⟨⟨hfrom, hto, hcc, hsubject, hdate, hid, nofun⟩, hmime, htype, nofun⟩

variable (parseJson dateText) in
theorem readBlock_iff_folded (row : MailRow) :
    (fieldNames (readBlock [] (reconstructMessage parseJson dateText row)).1 =
        intendedNames parseJson dateText row ∧
      (readBlock [] (reconstructMessage parseJson dateText row)).2 = (rowBody row).2) ↔
      FoldedAddresses parseJson row := by
  rw [intendedNames_eq, reconstructMessage_eq, ← allFields_folded,
    readBlock_iff (by simp [allFields]) (allFields_names row)]

end Read

/-- A reader finds what is meant exactly if the addresses are folded. -/
theorem readsAsMeant_iff (parseJson : Text → Option Json) (dateText : Text → Option LineText)
    (row : MailRow) :
    ReadsAsMeant parseJson dateText row ↔ FoldedAddresses parseJson row := by
  rw [← readBlock_iff_folded parseJson dateText]
  constructor
  · rintro ⟨hnames, -, hbody⟩
    exact ⟨hnames, hbody⟩
  · rintro ⟨hnames, hbody⟩
    refine ⟨hnames, ?_, hbody⟩
    rw [hnames]
    exact (sublist_messageFields row).nodup (by decide +kernel)

/-- The address behind the name has a line break. -/
def bccMailbox : Text := "A <a@b.c\r\nBcc: d@e.f>".toList

def bccRow : MailRow where
  messageIdHeader := none
  subject := none
  fromAddress := some (jsonRaw bccMailbox)
  toAddresses := none
  ccAddresses := none
  date := none
  bodyText := none
  bodyHtml := none

theorem addressEntries_bcc : addressEntries readJson bccRow.fromAddress =
    [(some ['A'], some "a@b.c\r\nBcc: d@e.f".toList)] := by
  have htrim : trimText (jsonRaw bccMailbox) = jsonRaw bccMailbox := by decide +kernel
  have hne : jsonRaw bccMailbox ≠ [] := List.cons_ne_nil _ _
  have hsplit : splitAddress bccMailbox = (some ['A'], some "a@b.c\r\nBcc: d@e.f".toList) := by
    decide +kernel
  unfold addressEntries bccRow
  simp only [Option.getD_some, htrim, if_neg hne, readJson_jsonRaw]
  simp [Json.get, Json.asStr, hsplit]

/-- Such an address adds a field. -/
theorem bcc_injected : ¬ ReadsAsMeant readJson (fun _ => none) bccRow := by
  rintro ⟨hnames, -, hbody⟩
  have hfolded := (readBlock_iff_folded readJson _ bccRow).mp ⟨hnames, hbody⟩
  have haddress := hfolded bccRow.fromAddress List.mem_cons_self ['A'] _
    (by rw [addressEntries_bcc]; exact List.mem_cons_self) (by decide)
  exact absurd haddress (by decide)

end Lyra.Backup
