import Mathlib.Data.Char
import Mathlib.Data.List.Lex
import Lyra.Backup.Credentials
import Lyra.Imap.Flags
import Lyra.Lib.SortedFields

/-!
# Fetch errors in the flags column

`mark_message_fetch_error` reads the flags of a row as a JSON object, puts the reason under
`fetch_error` and writes the object back.  An IMAP sync and an import write an array, a JMAP sync
an object, and `null` where there are no keywords.  The JSON library is a parameter.

* `StoredFlags.text`: the texts that the column can hold;
* `markMessageFetchError`: the write, and `mem_markMessageFetchError` what it leaves alone;
* `marksKeep_iff`: nothing readable is lost exactly if the text is no array with flags in it and
  no keyword is called `fetch_error`.
-/

namespace Lyra

open Lyra.Lib
open Lyra.Backup (JsonValue)

variable {η : Type}

/-! ## JSON -/

/-- An array of strings, or an object in the order of its keys whose values are `true` or a
string. -/
def Plain : JsonValue η → Prop
  | .null => True
  | .array items => ∀ v ∈ items, ∃ s, v = .string s
  | .object fields => Sorted fields ∧ ∀ f ∈ fields, f.2 = .bool true ∨ ∃ s, f.2 = .string s
  | _ => False

/-- `serde_json`. -/
structure JsonLib (η : Type) where
  fromStr : Text → Option (JsonValue η)
  toText : JsonValue η → Text
  reads : ∀ v, Plain v → fromStr (toText v) = some v

/-- What the readers of flags tell apart. -/
def outline : JsonValue η → Json
  | .object fields => .object (fields.map fun f => (f.1, .other))
  | .array items =>
    .array (items.map fun v =>
      match v with
      | .string s => .string s
      | _ => .other)
  | .string s => .string s
  | _ => .other

/-- `labels_from_flags_json`. -/
def flagsTextLabels (lib : JsonLib η) (flags : Text) : List Text :=
  labelsFromFlagsJson (fun s => (lib.fromStr s).map outline) flags

/-- The flag or keyword can be read from the text. -/
def Readable (lib : JsonLib η) (flags flag : Text) : Prop :=
  match lib.fromStr flags with
  | some (.array items) => .string flag ∈ items
  | some (.object fields) => fields.lookup flag = some (.bool true)
  | _ => False

/-! ## The write -/

def fetchErrorKey : Text := "fetch_error".toList

/-- The new text of the column. -/
def markedFlags (lib : JsonLib η) (existing : Option Text) (reason : Text) : Text :=
  let fields :=
    match existing.bind lib.fromStr with
    | some (.object fields) => fields
    | _ => []
  lib.toText (.object (putField fetchErrorKey (.string reason) fields))

def withMark (lib : JsonLib η) (reason : Text) (r : MessageRow) : MessageRow :=
  { r with flags := some (markedFlags lib r.flags reason) }

def markMessageFetchError (lib : JsonLib η) (db : Db) (id : Nat) (reason : Text) : Db :=
  { db with
    messages := db.messages.updateWhere (fun r => r.id == id) (withMark lib reason)
      (fun _ => rfl) (fun _ => rfl) }

/-- The other rows and the other columns stay. -/
theorem mem_markMessageFetchError (lib : JsonLib η) (db : Db) (id : Nat) (reason : Text)
    (row : MessageRow) :
    row ∈ (markMessageFetchError lib db id reason).messages.rows ↔
      ∃ r ∈ db.messages.rows, (if r.id == id then withMark lib reason r else r) = row :=
  KeyedTable.mem_updateWhere db.messages (fun r => r.id == id) (withMark lib reason) (fun _ => rfl)
    (fun _ => rfl) row

/-! ## What the column holds -/

inductive StoredFlags
  /-- The flags of a fetch. -/
  | imap (flags : List Text)
  | jmap (keywords : List Text)
  /-- The flags of a message in a backup. -/
  | imported (flags : List Text)
  | marked (before : StoredFlags) (reason : Text)

namespace StoredFlags

def stringArray (flags : List Text) : JsonValue η := .array (flags.map .string)

/-- The set keywords of an email, collected into a map. -/
def keywordObject (keywords : List Text) : JsonValue η :=
  .object (keywords.foldl (fun fields k => putField k (.bool true) fields) [])

def fieldsOf : JsonValue η → List (Text × JsonValue η)
  | .object fields => fields
  | _ => []

def value : StoredFlags → JsonValue η
  | imap flags => stringArray flags
  | jmap keywords => if keywords = [] then .null else keywordObject keywords
  | imported flags => stringArray flags
  | marked before reason =>
    .object (putField fetchErrorKey (.string reason) (fieldsOf before.value))

def text (lib : JsonLib η) : StoredFlags → Text
  | marked before reason => markedFlags lib (some (before.text lib)) reason
  | flags => lib.toText flags.value

/-! ## Reading it back -/

theorem plain_stringArray (flags : List Text) : Plain (stringArray flags : JsonValue η) := by
  intro v hv
  obtain ⟨s, -, rfl⟩ := List.mem_map.mp hv
  exact ⟨s, rfl⟩

theorem Plain.putField {fields : List (Text × JsonValue η)} (h : Plain (.object fields)) (k : Text)
    {v : JsonValue η} (hv : v = .bool true ∨ ∃ s, v = .string s) :
    Plain (.object (putField k v fields)) := by
  refine ⟨h.1.putField k v, fun f hf => ?_⟩
  rcases mem_putField hf with rfl | hf
  · exact hv
  · exact h.2 f hf

theorem plain_keywordObject (keywords : List Text) :
    Plain (keywordObject keywords : JsonValue η) := by
  suffices h : ∀ (fields : List (Text × JsonValue η)), Plain (.object fields) →
      Plain (.object (keywords.foldl (fun fields k => Lib.putField k (.bool true) fields) fields)) from
    h [] ⟨List.Pairwise.nil, fun _ hf => absurd hf List.not_mem_nil⟩
  induction keywords with
  | nil => exact fun _ h => h
  | cons k keywords ih => exact fun fields h => ih _ (Plain.putField h k (.inl rfl))

theorem plain_fieldsOf {v : JsonValue η} (h : Plain v) : Plain (.object (fieldsOf v)) := by
  cases v with
  | object fields => exact h
  | _ => exact ⟨List.Pairwise.nil, fun _ hf => absurd hf List.not_mem_nil⟩

theorem plain_value (flags : StoredFlags) : Plain (flags.value : JsonValue η) := by
  induction flags with
  | imap flags => exact plain_stringArray flags
  | imported flags => exact plain_stringArray flags
  | jmap keywords =>
    unfold value
    split
    · exact trivial
    · exact plain_keywordObject keywords
  | marked before reason ih => exact Plain.putField (plain_fieldsOf ih) _ (.inr ⟨reason, rfl⟩)

theorem markedFlags_of_reads {lib : JsonLib η} {text : Text} {v : JsonValue η}
    (h : lib.fromStr text = some v) (reason : Text) : markedFlags lib (some text) reason =
      lib.toText (.object (putField fetchErrorKey (.string reason) (fieldsOf v))) := by
  unfold markedFlags
  rw [Option.bind_some, h]
  cases v <;> rfl

theorem text_eq (lib : JsonLib η) (flags : StoredFlags) : flags.text lib = lib.toText flags.value := by
  induction flags with
  | marked before reason ih =>
    have hread : lib.fromStr (before.text lib) = some before.value := by
      rw [ih]
      exact lib.reads _ (plain_value before)
    exact markedFlags_of_reads hread reason
  | _ => rfl

theorem fromStr_text (lib : JsonLib η) (flags : StoredFlags) :
    lib.fromStr (flags.text lib) = some flags.value := by
  rw [text_eq]
  exact lib.reads _ (plain_value flags)

end StoredFlags

/-! ## What is kept -/

/-- Marking adds the marker, loses no flag, keyword or label, and does nothing the second time. -/
structure MarkKeeps (lib : JsonLib η) (flags reason : Text) : Prop where
  marker : ∃ fields, lib.fromStr (markedFlags lib (some flags) reason) = some (.object fields) ∧
    fields.lookup fetchErrorKey = some (.string reason)
  readable : ∀ flag,
    Readable lib (markedFlags lib (some flags) reason) flag ↔ Readable lib flags flag
  labels : flagsTextLabels lib (markedFlags lib (some flags) reason) = flagsTextLabels lib flags
  twice : markedFlags lib (some (markedFlags lib (some flags) reason)) reason =
    markedFlags lib (some flags) reason

/-- The text is no array with flags in it, and no keyword has the name of the marker. -/
def StoredFlags.Survives : StoredFlags → Prop
  | .imap flags => flags = []
  | .imported flags => flags = []
  | .jmap keywords => fetchErrorKey ∉ keywords
  | .marked _ _ => True

theorem labelsFromFlags_skip {flag : Text} (h : "label-".toList.isPrefixOf flag = false)
    (before after : List Text) :
    labelsFromFlags (before ++ flag :: after) = labelsFromFlags (before ++ after) := by
  unfold labelsFromFlags
  rw [List.foldl_append, List.foldl_cons, List.foldl_append]
  simp only [h]

theorem fetchErrorKey_no_label : "label-".toList.isPrefixOf fetchErrorKey = false := by decide

/-- The labels are those of the keys, whatever the marker is. -/
theorem labels_putField (v : JsonValue η) (fields : List (Text × JsonValue η)) :
    labelsFromFlags ((putField fetchErrorKey v fields).map Prod.fst) =
      labelsFromFlags (fields.map Prod.fst) := by
  obtain ⟨before, after, hput, hfields⟩ := putField_split fetchErrorKey v fields
  have hskip := labelsFromFlags_skip fetchErrorKey_no_label (before.map Prod.fst)
    (after.map Prod.fst)
  rw [hput, List.map_append, List.map_cons, hskip]
  rcases hfields with rfl | ⟨w, rfl⟩
  · rw [List.map_append]
  · rw [List.map_append, List.map_cons, hskip]

theorem flagsTextLabels_object {lib : JsonLib η} {text : Text} {fields : List (Text × JsonValue η)}
    (h : lib.fromStr text = some (.object fields)) :
    flagsTextLabels lib text = labelsFromFlags (fields.map Prod.fst) := by
  simp [flagsTextLabels, labelsFromFlagsJson, h, outline, Function.comp_def]

section Marking

variable {lib : JsonLib η} {text : Text} {v : JsonValue η} (reason : Text)

theorem fromStr_markedFlags (hplain : Plain v) (h : lib.fromStr text = some v) :
    lib.fromStr (markedFlags lib (some text) reason) =
      some (.object (putField fetchErrorKey (.string reason) (StoredFlags.fieldsOf v))) := by
  rw [StoredFlags.markedFlags_of_reads h]
  exact lib.reads _ (StoredFlags.Plain.putField (StoredFlags.plain_fieldsOf hplain) _ (.inr ⟨_, rfl⟩))

theorem readable_markedFlags (hplain : Plain v) (h : lib.fromStr text = some v) (flag : Text) :
    Readable lib (markedFlags lib (some text) reason) flag ↔
      flag ≠ fetchErrorKey ∧ (StoredFlags.fieldsOf v).lookup flag = some (.bool true) := by
  unfold Readable
  rw [fromStr_markedFlags reason hplain h]
  simp only [lookup_putField]
  by_cases hkey : flag = fetchErrorKey <;> simp [hkey]

/-- An object, `null` or an empty array loses nothing but a keyword with the marker's name. -/
theorem markKeeps_of_fields (hplain : Plain v) (h : lib.fromStr text = some v)
    (hreadable : ∀ flag, Readable lib text flag ↔
      flag ≠ fetchErrorKey ∧ (StoredFlags.fieldsOf v).lookup flag = some (.bool true))
    (hlabels : flagsTextLabels lib text =
      labelsFromFlags ((StoredFlags.fieldsOf v).map Prod.fst)) :
    MarkKeeps lib text reason := by
  have hmarked := fromStr_markedFlags reason hplain h
  refine ⟨⟨_, hmarked, ?_⟩, ?_, ?_, ?_⟩
  · rw [lookup_putField, if_pos rfl]
  · intro flag
    rw [readable_markedFlags reason hplain h, hreadable]
  · rw [flagsTextLabels_object hmarked, labels_putField, hlabels]
  · rw [StoredFlags.markedFlags_of_reads hmarked, StoredFlags.markedFlags_of_reads h]
    simp only [StoredFlags.fieldsOf, putField_putField]

end Marking

/-! ## The shapes -/

namespace StoredFlags

variable {lib : JsonLib η}

theorem lookup_keywordObject (keywords : List Text) (flag : Text) :
    (fieldsOf (keywordObject keywords : JsonValue η)).lookup flag = some (.bool true) ↔
      flag ∈ keywords := by
  suffices h : ∀ fields : List (Text × JsonValue η),
      (keywords.foldl (fun fields k => Lib.putField k (.bool true) fields) fields).lookup flag =
          some (.bool true) ↔ flag ∈ keywords ∨ fields.lookup flag = some (.bool true) by
    simpa [fieldsOf, keywordObject] using h []
  induction keywords with
  | nil => simp
  | cons k keywords ih =>
    intro fields
    rw [List.foldl_cons, ih, lookup_putField, List.mem_cons]
    by_cases hk : flag = k <;> simp [hk]

theorem readable_object {text : Text} {fields : List (Text × JsonValue η)}
    (h : lib.fromStr text = some (.object fields)) (flag : Text) :
    Readable lib text flag ↔ fields.lookup flag = some (.bool true) := by
  unfold Readable
  rw [h]

theorem readable_jmap (keywords : List Text) (flag : Text) :
    Readable lib ((jmap keywords).text lib) flag ↔ flag ∈ keywords := by
  have hread := fromStr_text lib (jmap keywords)
  by_cases hnil : keywords = []
  · subst hnil
    have hnull : lib.fromStr ((jmap []).text lib) = some .null := hread
    simp [Readable, hnull]
  · rw [value, if_neg hnil] at hread
    rw [readable_object hread]
    exact lookup_keywordObject keywords flag

theorem readable_array {text : Text} {flags : List Text}
    (h : lib.fromStr text = some (stringArray flags)) (flag : Text) :
    Readable lib text flag ↔ flag ∈ flags := by
  unfold Readable
  rw [h]
  simp [stringArray]

/-- Of an array the mark leaves nothing. -/
theorem markKeeps_array_iff {text reason : Text} {flags : List Text}
    (h : lib.fromStr text = some (stringArray flags)) :
    MarkKeeps lib text reason ↔ flags = [] := by
  constructor
  · intro hkeeps
    by_contra hne
    obtain ⟨flag, hflag⟩ := List.exists_mem_of_ne_nil flags hne
    have hread := (hkeeps.readable flag).mpr ((readable_array h flag).mpr hflag)
    rw [readable_markedFlags reason (plain_stringArray flags) h] at hread
    cases hread.2
  · rintro rfl
    refine markKeeps_of_fields reason (plain_stringArray []) h (fun flag => ?_) ?_
    · rw [readable_array h]
      simp [fieldsOf, stringArray]
    · simp [flagsTextLabels, labelsFromFlagsJson, h, stringArray, outline, fieldsOf]

theorem markKeeps_jmap_iff (keywords : List Text) (reason : Text) :
    MarkKeeps lib ((jmap keywords).text lib) reason ↔ fetchErrorKey ∉ keywords := by
  have hread := fromStr_text lib (jmap keywords)
  have hplain : Plain ((jmap keywords).value : JsonValue η) := plain_value _
  have hfields : ∀ flag, (fieldsOf ((jmap keywords).value : JsonValue η)).lookup flag =
      some (.bool true) ↔ flag ∈ keywords := by
    intro flag
    unfold value
    split
    case isTrue hnil => simp [fieldsOf, hnil]
    case isFalse => exact lookup_keywordObject keywords flag
  constructor
  · intro hkeeps hmem
    have hkey := (hkeeps.readable fetchErrorKey).mpr ((readable_jmap keywords _).mpr hmem)
    rw [readable_markedFlags reason hplain hread] at hkey
    exact hkey.1 rfl
  · intro hkey
    refine markKeeps_of_fields reason hplain hread (fun flag => ?_) ?_
    · rw [readable_jmap, hfields]
      exact ⟨fun h => ⟨fun e => hkey (e ▸ h), h⟩, And.right⟩
    · unfold value at hread ⊢
      split at hread
      case isTrue hnil =>
        rw [if_pos hnil]
        simp [flagsTextLabels, labelsFromFlagsJson, hread, outline, fieldsOf]
        rfl
      case isFalse hnil =>
        rw [if_neg hnil, flagsTextLabels_object hread]
        rfl

theorem markKeeps_marked (before : StoredFlags) (first reason : Text) :
    MarkKeeps lib ((marked before first).text lib) reason := by
  have hread := fromStr_text lib (marked before first)
  have hplain : Plain ((marked before first).value : JsonValue η) := plain_value _
  refine markKeeps_of_fields reason hplain hread (fun flag => ?_) (flagsTextLabels_object hread)
  rw [readable_object hread]
  simp only [fieldsOf, value, lookup_putField]
  by_cases hkey : flag = fetchErrorKey <;> simp [hkey]

end StoredFlags

/-- Marking keeps what is readable exactly if the text is no array with flags in it and no keyword
has the name of the marker. -/
theorem marksKeep_iff (lib : JsonLib η) (flags : StoredFlags) (reason : Text) :
    MarkKeeps lib (flags.text lib) reason ↔ flags.Survives := by
  cases flags with
  | imap flags => exact StoredFlags.markKeeps_array_iff (StoredFlags.fromStr_text lib (.imap flags))
  | imported flags =>
    exact StoredFlags.markKeeps_array_iff (StoredFlags.fromStr_text lib (.imported flags))
  | jmap keywords => exact StoredFlags.markKeeps_jmap_iff keywords reason
  | marked before first =>
    exact iff_of_true (StoredFlags.markKeeps_marked before first reason) trivial

/-! ## A library for these texts -/

def scalarOf : JsonValue Nat → Option Text
  | .string s => some s
  | _ => none

def writePlain : JsonValue Nat → Text
  | .array items => jsonArray (items.filterMap scalarOf)
  | .object fields => jsonObject (fields.map fun f => (f.1, scalarOf f.2))
  | _ => "null".toList

def fromScalar : Json → JsonValue Nat
  | .string s => .string s
  | _ => .bool true

def readPlain (s : Text) : Option (JsonValue Nat) :=
  match readJson s with
  | some (.array items) => some (.array (items.map fromScalar))
  | some (.object fields) => some (.object (fields.map fun f => (f.1, fromScalar f.2)))
  | _ => if s = "null".toList then some .null else none

theorem readPlain_writePlain (v : JsonValue Nat) (h : Plain v) :
    readPlain (writePlain v) = some v := by
  cases v with
  | null => rfl
  | array items =>
    have hitems : ((items.filterMap scalarOf).map Json.string).map fromScalar = items := by
      induction items with
      | nil => rfl
      | cons v items ih =>
        obtain ⟨s, rfl⟩ := h v List.mem_cons_self
        have hrest := ih fun w hw => h w (List.mem_cons_of_mem _ hw)
        simpa [scalarOf, fromScalar] using hrest
    rw [writePlain, readPlain, readJson_jsonArray]
    simp only [hitems]
  | object fields =>
    have hfields : ((fields.map fun f => (f.1, scalarOf f.2)).map fun f =>
        (f.1, scalarJson f.2)).map (fun f => (f.1, fromScalar f.2)) = fields := by
      rw [List.map_map, List.map_map]
      conv_rhs => rw [← List.map_id fields]
      refine List.map_congr_left fun f hf => ?_
      have hv := h.2 f hf
      obtain ⟨key, v⟩ := f
      rcases hv with rfl | ⟨s, rfl⟩ <;> rfl
    rw [writePlain, readPlain, readJson_jsonObject]
    simp only [hfields]
  | bool b => cases h
  | number n => cases h
  | string s => cases h

/-- What `serde_json` does with such values. -/
def plainJson : JsonLib Nat := ⟨readPlain, writePlain, readPlain_writePlain⟩

/-- The read mark of an IMAP message is gone from its flags. -/
theorem not_markKeeps_seen :
    (StoredFlags.imap ["Seen".toList]).text plainJson = "[\"Seen\"]".toList ∧
      markedFlags plainJson (some "[\"Seen\"]".toList) "too large".toList =
        Char.ofNat 0x7b :: "\"fetch_error\":\"too large\"".toList ++ [Char.ofNat 0x7d] ∧
      ¬MarkKeeps plainJson "[\"Seen\"]".toList "too large".toList := by
  have htext : (StoredFlags.imap ["Seen".toList]).text plainJson = "[\"Seen\"]".toList := by
    decide +kernel
  refine ⟨htext, by decide +kernel, fun h => ?_⟩
  rw [← htext] at h
  have hread := StoredFlags.fromStr_text plainJson (.imap ["Seen".toList])
  exact List.cons_ne_nil _ _ ((StoredFlags.markKeeps_array_iff hread).mp h)

end Lyra
