import Lyra.Backup.Reconstruct
import Lyra.Dav.Write
import Lyra.Lib.UrlPath
import Lyra.Spam.SenderAddress

/-!
# Four readers of a sender

The spam engine, the privacy settings, the export of a backup and the statistics each read the
address out of a stored `from_address`: from behind the first `<`, between the last brackets, from
behind the last `<`, and, in SQL, between the first brackets.

* `senders_agree_iff`: they find the same address exactly if the value is one header text whose
  first brackets and last brackets hold one address, with nothing else in front of the first or
  behind the last, or an object's text without brackets that is trimmed and has an `@`;
* `second_bracket_disagrees`: a display name with brackets.
-/

namespace Lyra.Senders

open Lyra.Lib Lyra.Backup Lyra.Pim

/-! ## Stored senders -/

/-- Lower case.  No letter becomes a bracket or a quote, or is one. -/
structure Lowering where
  lower : Text → Text
  marks : ∀ s, ∀ c ∈ ['<', '>', '"'], (lower s).count c = s.count c

/-- A database: its `LOWER`, and a JSON column as a text. -/
structure Database extends Lowering where
  columnText : Text → Text
  columnText_string : ∀ s, columnText (jsonString s) = jsonString s

/-- An entry of a list: a text, or a name and an email. -/
inductive StoredEntry
  | header (text : Text)
  | mailbox (name email : Text)

/-- How a header text is kept: in an object, or as a bare string. -/
inductive HeaderShape
  | object | bare
  deriving DecidableEq

inductive StoredSender
  | header (shape : HeaderShape) (text : Text)
  | mailbox (name email : Text)
  | list (entries : List StoredEntry)

def mailboxText (name email : Text) : Text :=
  jsonObject [("email".toList, some email), ("name".toList, some name)]

def StoredEntry.text : StoredEntry → Text
  | header s => jsonString s
  | mailbox name email => mailboxText name email

/-- The text of the column. -/
def StoredSender.text : StoredSender → Text
  | header .object s => jsonRaw s
  | header .bare s => jsonString s
  | mailbox name email => mailboxText name email
  | list entries => '[' :: [','].intercalate (entries.map StoredEntry.text) ++ [']']

/-! ## The readers -/

section Readers

variable (engine : Lowering) (db : Database)

/-- `from_json_email`, in lower case. -/
def engineSender (fromAddress : Option Text) : Option Text :=
  (fromJsonEmail ⟨engine.lower, isWhite, readJson⟩ fromAddress).map engine.lower

/-- `str::rfind` of a character. -/
def rfind (c : Char) : Text → Option Nat
  | [] => none
  | x :: s =>
    match rfind c s with
    | some n => some (n + 1)
    | none => if x = c then some 0 else none

/-- `trimmed[start + 1..end]`, where both brackets are there in this order. -/
def lastBrackets (trimmed : Text) : Option Text := do
  let start ← rfind '<' trimmed
  let stop ← rfind '>' trimmed
  if start < stop then some ((trimmed.take stop).drop (start + 1)) else none

/-- `extract_email` of `privacy.rs`. -/
def extractEmail (raw : Text) : Option Text :=
  let trimmed := trimText raw
  match lastBrackets trimmed with
  | some email => some (engine.lower (trimText email))
  | none => if '@' ∈ trimmed then some (engine.lower trimmed) else none

/-- `sender_email_from_json`. -/
def senderEmailFromJson (fromAddress : Option Text) : Option Text :=
  match fromAddress.bind readJson with
  | none => none
  | some parsed =>
    match (parsed.get "raw").bind Json.asStr with
    | some s => extractEmail engine s
    | none =>
      match (parsed.get "email").bind Json.asStr with
      | some s => some (engine.lower (trimText s))
      | none => parsed.asStr.bind (extractEmail engine)

/-- The address of the first entry, in lower case. -/
def exportedSender (fromAddress : Option Text) : Option Text :=
  ((addressEntries readJson fromAddress).head?.bind Prod.snd).map engine.lower

/-- `instr`: 0 where there is none. -/
def instr (s : Text) (c : Char) : Nat := if c ∈ s then s.idxOf c + 1 else 0

def substr (s : Text) (start length : Nat) : Text := (s.drop (start - 1)).take length

/-- The `COALESCE` of `query_top_senders`. -/
def senderColumn (fromAddress : Text) : Text :=
  match ((readJson fromAddress).bind (Json.get "raw")).bind Json.asStr with
  | some s => s
  | none =>
    match ((readJson fromAddress).bind (Json.get "email")).bind Json.asStr with
    | some s => s
    | none => db.columnText fromAddress

def emailExpr (s : Text) : Text :=
  db.lower (if 0 < instr s '<' ∧ instr s '<' < instr s '>' then
    substr s (instr s '<' + 1) (instr s '>' - instr s '<' - 1) else s)

/-- `sender_email` of `query_top_senders`. -/
def statsSender (fromAddress : Text) : Text := emailExpr db (senderColumn db fromAddress)

/-- All four find the address. -/
structure SendersAgree (fromAddress addr : Text) : Prop where
  spam : engineSender engine (some fromAddress) = some addr
  privacy : senderEmailFromJson engine (some fromAddress) = some addr
  exported : exportedSender engine (some fromAddress) = some addr
  stats : statsSender db fromAddress = addr

end Readers

/-! ## Where they agree -/

def Unbracketed (s : Text) : Prop := '<' ∉ s ∧ '>' ∉ s

/-- The text as SQL searches it, and a part of it there. -/
def HeaderShape.shown : HeaderShape → Text → Text
  | object, s => s
  | bare, s => jsonString s

def HeaderShape.escape : HeaderShape → Text → Text
  | object, s => s
  | bare, s => s.flatMap jsonEscape

/-- The first brackets hold `first` and the last ones `last`, with no bracket in front of the first
and only white space behind the last. -/
structure Bracketed (s first last : Text) : Prop where
  open_first : ∃ before after, s = before ++ '<' :: (first ++ '>' :: after) ∧ Unbracketed before
  open_last : ∃ before after, s = before ++ '<' :: (last ++ '>' :: after) ∧
    ∀ c ∈ after, isWhite c = true
  first_plain : Unbracketed first
  last_plain : Unbracketed last

/-- One address stands in the text. -/
def OneSender (engine : Lowering) (db : Database) : StoredSender → Prop
  | .header shape s =>
    ('<' ∉ s ∧ shape = .object ∧ '@' ∈ s ∧ db.lower s = engine.lower (trimText s)) ∨
      ∃ first last, Bracketed s first last ∧ trimText last ≠ [] ∧
        engine.lower (trimText last) = engine.lower first ∧
        db.lower (shape.escape first) = engine.lower first
  | .mailbox _ _ => False
  | .list _ => False

/-! ## Brackets -/

section Brackets

variable {a b p q s : Text} {c : Char}

theorem Lowering.mem (f : Lowering) (hc : c ∈ ['<', '>', '"']) : c ∈ f.lower s ↔ c ∈ s := by
  rw [← List.count_pos_iff, f.marks s c hc, List.count_pos_iff]

theorem rfind_eq_none : rfind c s = none ↔ c ∉ s := by
  induction s with
  | nil => simp [rfind]
  | cons x s ih =>
    rw [rfind, List.mem_cons, not_or, ← ih]
    cases rfind c s with
    | none =>
      dsimp only
      split
      · rename_i hx
        simp [hx]
      · rename_i hx
        simp [Ne.symm hx]
    | some n => simp

theorem rfind_append (hb : c ∉ b) : rfind c (a ++ c :: b) = some a.length := by
  induction a with
  | nil =>
    rw [List.nil_append, rfind, rfind_eq_none.mpr hb]
    simp
  | cons x a ih =>
    rw [List.cons_append, rfind, ih]
    rfl

theorem instr_append (ha : c ∉ a) : instr (a ++ c :: b) c = a.length + 1 := by
  unfold instr
  rw [if_pos (List.mem_append_right a List.mem_cons_self), List.idxOf_append_of_notMem ha,
    List.idxOf_cons_self, Nat.add_zero]

theorem instr_of_not (hs : c ∉ s) : instr s c = 0 := if_neg hs

theorem exists_last (h : c ∈ s) : ∃ a b, s = a ++ c :: b ∧ c ∉ b := by
  obtain ⟨b, a, hsplit, hb⟩ := List.eq_append_cons_of_mem (List.mem_reverse.mpr h)
  refine ⟨a.reverse, b.reverse, ?_, fun hmem => hb (List.mem_reverse.mp hmem)⟩
  rw [← List.reverse_reverse s, hsplit]
  simp

theorem drop_open (p b : Text) (c : Char) : (p ++ c :: b).drop (p.length + 1) = b := by
  rw [← List.drop_drop, List.drop_left]
  rfl

/-- SQL finds the first brackets, where they are a pair. -/
theorem emailExpr_pair (db : Database) (hp : Unbracketed p) (hb : '>' ∉ b) :
    emailExpr db (p ++ '<' :: (b ++ '>' :: q)) = db.lower b := by
  have hstart : instr (p ++ '<' :: (b ++ '>' :: q)) '<' = p.length + 1 := instr_append hp.1
  have hsplit : p ++ '<' :: (b ++ '>' :: q) = (p ++ '<' :: b) ++ '>' :: q := by simp
  have hopen : '>' ∉ p ++ '<' :: b := by
    simp [hp.2, hb]
  have hstop : instr (p ++ '<' :: (b ++ '>' :: q)) '>' = p.length + 1 + b.length + 1 := by
    rw [hsplit, instr_append hopen, List.length_append, List.length_cons]
    omega
  have hslice : substr (p ++ '<' :: (b ++ '>' :: q)) (p.length + 1 + 1)
      (p.length + 1 + b.length + 1 - (p.length + 1) - 1) = b := by
    have hlen : p.length + 1 + b.length + 1 - (p.length + 1) - 1 = b.length := by omega
    unfold substr
    rw [hlen, Nat.add_sub_cancel, drop_open, List.take_left' rfl]
  unfold emailExpr
  rw [hstart, hstop, if_pos ⟨by omega, by omega⟩, hslice]

/-- Otherwise it takes the whole text. -/
theorem emailExpr_whole (db : Database) (hp : '<' ∉ p) (h : '>' ∈ p ∨ '>' ∉ q) :
    emailExpr db (p ++ '<' :: q) = db.lower (p ++ '<' :: q) := by
  have hstart : instr (p ++ '<' :: q) '<' = p.length + 1 := instr_append hp
  have hstop : instr (p ++ '<' :: q) '>' ≤ p.length + 1 := by
    rcases Decidable.em ('>' ∈ p) with hclose | hclose
    · obtain ⟨a, b, rfl, ha⟩ := List.eq_append_cons_of_mem hclose
      rw [List.append_assoc, List.cons_append, instr_append ha, List.length_append]
      omega
    · have hnone : '>' ∉ p ++ '<' :: q := by
        simp [hclose, h.resolve_left hclose]
      rw [instr_of_not hnone]
      exact Nat.zero_le _
  unfold emailExpr
  rw [if_neg fun hlt => absurd hlt.2 (by rw [hstart]; omega)]

theorem emailExpr_plain (db : Database) (hs : '<' ∉ s) : emailExpr db s = db.lower s := by
  unfold emailExpr
  rw [if_neg fun hlt => absurd hlt.1 (by rw [instr_of_not hs]; omega)]

/-! ## The last brackets -/

theorem lastBrackets_pair (hb : '<' ∉ b) (hq : Unbracketed q) :
    lastBrackets (p ++ '<' :: (b ++ '>' :: q)) = some b := by
  have hopen : '<' ∉ b ++ '>' :: q := by
    simp [hb, hq.1]
  have hsplit : p ++ '<' :: (b ++ '>' :: q) = (p ++ '<' :: b) ++ '>' :: q := by simp
  have hstart : rfind '<' (p ++ '<' :: (b ++ '>' :: q)) = some p.length := rfind_append hopen
  have hstop : rfind '>' (p ++ '<' :: (b ++ '>' :: q)) = some (p.length + 1 + b.length) := by
    rw [hsplit, rfind_append hq.2, List.length_append, List.length_cons]
    congr 1
    omega
  have hslice : ((p ++ '<' :: (b ++ '>' :: q)).take (p.length + 1 + b.length)).drop (p.length + 1) =
      b := by
    have hlength : (p ++ '<' :: b).length = p.length + 1 + b.length := by
      rw [List.length_append, List.length_cons]
      omega
    rw [hsplit, List.take_left' hlength, drop_open]
  unfold lastBrackets
  rw [hstart, hstop]
  dsimp only [Option.bind_eq_bind, Option.bind_some]
  rw [if_pos (by omega), hslice]

theorem lastBrackets_none (hq : Unbracketed q) : lastBrackets (p ++ '<' :: q) = none := by
  have hstart : rfind '<' (p ++ '<' :: q) = some p.length := rfind_append hq.1
  unfold lastBrackets
  rw [hstart]
  dsimp only [Option.bind_eq_bind, Option.bind_some]
  rcases Decidable.em ('>' ∈ p) with hclose | hclose
  · obtain ⟨a, b, rfl, hb⟩ := exists_last hclose
    have hopen : '>' ∉ b ++ '<' :: q := by
      simp [hb, hq.2]
    rw [List.append_assoc, List.cons_append, rfind_append hopen, Option.bind_some, if_neg]
    rw [List.length_append]
    omega
  · have hnone : '>' ∉ p ++ '<' :: q := by
      simp [hclose, hq.2]
    rw [rfind_eq_none.mpr hnone]
    rfl

end Brackets

/-! ## Trimmed texts -/

section Trimmed

variable {a b p q s : Text} {c : Char}

theorem trimStart_split (s : Text) : ∃ l, s = l ++ trimStart s ∧ ∀ c ∈ l, isWhite c = true :=
  ⟨s.takeWhile isWhite, List.takeWhile_append_dropWhile.symm, fun _ hc => List.mem_takeWhile_imp hc⟩

theorem trimText_split (s : Text) :
    ∃ l r, s = l ++ (trimText s ++ r) ∧
      (∀ c ∈ l, isWhite c = true) ∧ ∀ c ∈ r, isWhite c = true := by
  obtain ⟨l, hl, hleft⟩ := trimStart_split s
  obtain ⟨r, hr, hright⟩ := trimStart_split (trimStart s).reverse
  refine ⟨l, r.reverse, ?_, hleft, fun c hc => hright c (List.mem_reverse.mp hc)⟩
  have hends : trimStart s = trimText s ++ r.reverse := by
    conv_lhs => rw [← List.reverse_reverse (trimStart s), hr, List.reverse_append]
    rfl
  rw [← hends]
  exact hl

theorem mem_trimText (hc : isWhite c = false) : c ∈ trimText s ↔ c ∈ s := by
  obtain ⟨l, r, hsplit, hl, hr⟩ := trimText_split s
  have hnotl : c ∉ l := fun h => Bool.false_ne_true (hc.symm.trans (hl c h))
  have hnotr : c ∉ r := fun h => Bool.false_ne_true (hc.symm.trans (hr c h))
  conv_rhs => rw [hsplit]
  simp [hnotl, hnotr]

theorem trimEnd_of_white (h : ∀ c ∈ s, isWhite c = true) : trimEnd s = [] := by
  unfold trimEnd trimStart
  rw [List.dropWhile_eq_nil_iff.mpr fun c hc => h c (List.mem_reverse.mp hc)]
  rfl

theorem trimText_pair (hq : ∀ c ∈ q, isWhite c = true) (p b : Text) :
    trimText (p ++ '<' :: (b ++ '>' :: q)) = trimStart p ++ '<' :: (b ++ ['>']) := by
  have hstart : trimStart (p ++ '<' :: (b ++ '>' :: q)) = (trimStart p ++ '<' :: b) ++ '>' :: q := by
    unfold trimStart
    rw [dropWhile_append_of_not (by decide), List.append_assoc, List.cons_append]
  rw [trimText_eq, hstart, trimEnd_append (by decide), trimEnd_of_white hq, List.append_assoc,
    List.cons_append]

theorem trimEndMatches_close (hb : '>' ∉ b) : trimEndMatches '>' (b ++ ['>']) = b := by
  unfold trimEndMatches trimStartMatches
  rw [List.reverse_append, List.reverse_singleton, List.singleton_append,
    List.dropWhile_cons_of_pos (by decide)]
  cases hrev : b.reverse with
  | nil => rw [List.reverse_eq_nil_iff.mp hrev]; rfl
  | cons c t =>
    have hc : c ≠ '>' := by
      rintro rfl
      exact hb (List.mem_reverse.mp (hrev ▸ List.mem_cons_self))
    rw [List.dropWhile_cons_of_neg (by simpa using hc), ← hrev, List.reverse_reverse]

theorem trimEndMatches_behind (hq : '>' ∉ q) (hne : q ≠ []) (b : Text) :
    trimEndMatches '>' (b ++ q) = b ++ q := by
  unfold trimEndMatches trimStartMatches
  cases hrev : q.reverse with
  | nil => exact absurd (List.reverse_eq_nil_iff.mp hrev) hne
  | cons c t =>
    have hc : c ≠ '>' := by
      rintro rfl
      exact hq (List.mem_reverse.mp (hrev ▸ List.mem_cons_self))
    rw [List.reverse_append, hrev, List.cons_append,
      List.dropWhile_cons_of_neg (by simpa using hc), ← List.cons_append, ← hrev,
      ← List.reverse_append, List.reverse_reverse]

/-! ## What each reader finds -/

theorem splitAddress_open (hs : trimText s = p ++ '<' :: q) (hq : '<' ∉ q) :
    (splitAddress s).2 = nonEmpty (trimText (trimEndMatches '>' q)) := by
  have hsplit : Backup.rsplitOnce '<' (trimText s) = some (p, q) := by
    unfold Backup.rsplitOnce
    have hrev : (trimText s).reverse = q.reverse ++ '<' :: p.reverse := by
      rw [hs]
      simp
    rw [hrev, splitOnce_append fun h => hq (List.mem_reverse.mp h), Option.map_some]
    dsimp only
    rw [List.reverse_reverse, List.reverse_reverse]
  unfold splitAddress
  dsimp only
  rw [hsplit]

theorem splitAddress_plain (hs : '<' ∉ s) :
    (splitAddress s).2 = if '@' ∈ trimText s then some (trimText s) else none := by
  have hnone : Backup.rsplitOnce '<' (trimText s) = none := by
    unfold Backup.rsplitOnce splitOnce
    rw [List.dropWhile_eq_nil_iff.mpr]
    · rfl
    · intro c hc
      rw [decide_eq_true_eq]
      rintro rfl
      exact hs ((mem_trimText (by decide)).mp (List.mem_reverse.mp hc))
  unfold splitAddress
  dsimp only
  rw [hnone]
  dsimp only
  split
  · rfl
  · rfl

theorem angled_plain (hs : '<' ∉ s) : angled s = none := by
  unfold angled
  rw [List.dropWhile_eq_nil_iff.mpr fun c hc => decide_eq_true (ne_of_mem_of_not_mem hc hs)]

theorem lastBrackets_plain (hs : '<' ∉ s) : lastBrackets s = none := by
  unfold lastBrackets
  rw [rfind_eq_none.mpr hs]
  rfl

end Trimmed

/-! ## Header texts -/

section Headers

variable {engine : Lowering} {db : Database} {shape : HeaderShape} {s addr : Text}

/-- The value of a header text. -/
def headerJson : HeaderShape → Text → Json
  | .object, s => .object [("raw".toList, .string s)]
  | .bare, s => .string s

theorem readJson_jsonString (s : Text) : readJson (jsonString s) = some (.string s) := by
  have hvalue := @readString_jsonString (jsonString s).length s []
  rw [List.append_nil] at hvalue
  unfold readJson
  rw [hvalue]
  rfl

theorem readJson_header (shape : HeaderShape) (s : Text) :
    readJson (StoredSender.header shape s).text = some (headerJson shape s) := by
  cases shape with
  | object => exact readJson_jsonRaw s
  | bare => exact readJson_jsonString s

/-- What the spam engine reads of a header text. -/
theorem extractEmail_raw (f : Text → Text) (s : Text) :
    Lyra.extractEmail ⟨f, isWhite, readJson⟩ (.object [("raw".toList, .string s)]) =
      (angled s).or (if '@' ∈ s then some (trimText s) else none) := by
  have hraw : ((Json.object [("raw".toList, .string s)]).get "raw").bind Json.asStr = some s := rfl
  have hemail :
      ((Json.object [("raw".toList, .string s)]).get "email").bind Json.asStr = none := rfl
  unfold Lyra.extractEmail
  rw [hemail, hraw]
  dsimp only [Option.bind_some]
  cases angled s with
  | some a => rfl
  | none =>
    rw [Option.none_or]
    simp only [List.contains_iff_mem]
    rfl

theorem engineSender_header : engineSender engine (some (StoredSender.header shape s).text) =
    ((angled s).or (if '@' ∈ s then some (trimText s) else none)).map engine.lower := by
  have hread : (some (StoredSender.header shape s).text).bind readJson =
      some (headerJson shape s) := readJson_header shape s
  unfold engineSender fromJsonEmail
  rw [hread]
  cases shape with
  | object =>
    dsimp only [headerJson]
    rw [extractEmail_raw]
    have hraw : ((Json.object [("raw".toList, .string s)]).get "raw").bind Json.asStr = some s :=
      rfl
    rw [hraw, Option.bind_some]
    cases angled s with
    | some a => rfl
    | none => rw [Option.or_none]
  | bare =>
    dsimp only [headerJson]
    rw [extractEmail_raw]

theorem privacySender_header :
    senderEmailFromJson engine (some (StoredSender.header shape s).text) =
      extractEmail engine s := by
  unfold senderEmailFromJson
  rw [Option.bind_some, readJson_header]
  cases shape with
  | object => rfl
  | bare => rfl

theorem trimText_header (shape : HeaderShape) (s : Text) :
    trimText (StoredSender.header shape s).text = (StoredSender.header shape s).text := by
  cases shape with
  | object =>
    apply trimText_eq_self
    · intro c hc
      obtain rfl : Char.ofNat 0x7b = c := Option.some.inj hc
      decide
    · intro c hc
      have hlast : (StoredSender.header .object s).text.getLast? = some (Char.ofNat 0x7d) :=
        List.getLast?_concat
      rw [Option.mem_def, hlast] at hc
      obtain rfl := Option.some.inj hc
      decide
  | bare =>
    apply trimText_eq_self
    · intro c hc
      obtain rfl : '"' = c := Option.some.inj hc
      decide
    · intro c hc
      have hlast : (StoredSender.header .bare s).text.getLast? = some '"' := List.getLast?_concat
      rw [Option.mem_def, hlast] at hc
      obtain rfl := Option.some.inj hc
      decide

theorem exportedSender_header : exportedSender engine (some (StoredSender.header shape s).text) =
    (splitAddress s).2.map engine.lower := by
  have hne : (StoredSender.header shape s).text ≠ [] := by
    cases shape with
    | object => exact List.cons_ne_nil _ _
    | bare => exact List.cons_ne_nil _ _
  unfold exportedSender addressEntries
  dsimp only [Option.getD_some]
  rw [trimText_header, if_neg hne, readJson_header]
  cases shape with
  | object => rfl
  | bare => rfl

theorem senderColumn_header :
    senderColumn db (StoredSender.header shape s).text = shape.shown s := by
  unfold senderColumn
  rw [readJson_header]
  cases shape with
  | object => rfl
  | bare => exact db.columnText_string s

end Headers

/-! ## What SQL finds -/

section Stats

variable {db : Database} {shape : HeaderShape} {s p q b : Text} {m : Char}

theorem hexDigit_ne : ∀ m ∈ ['<', '>', '"'], ∀ d < 16, hexDigit d ≠ m :=
  forall_mem_of_all (by decide)

/-- Escaping makes no mark. -/
theorem mark_not_mem_jsonEscape (hm : m ∈ ['<', '>', '"']) {c : Char} (hc : c ≠ m) :
    m ∉ jsonEscape c := by
  have hplain : ∀ e ∈ "\\nrtbfu0".toList, m ≠ e := by
    simp only [List.mem_cons, List.not_mem_nil, or_false] at hm
    rcases hm with rfl | rfl | rfl
    · exact forall_mem_of_all (by decide)
    · exact forall_mem_of_all (by decide)
    · exact forall_mem_of_all (by decide)
  have hdigit : ∀ d < 16, m ≠ hexDigit d := fun d hd => (hexDigit_ne m hm d hd).symm
  have hback := hplain '\\' (by decide)
  unfold jsonEscape
  split_ifs with hquote
  · simpa [hback, hquote] using Ne.symm (hquote ▸ hc)
  · simp [hback]
  · simp [hback, hplain 'n' (by decide)]
  · simp [hback, hplain 'r' (by decide)]
  · simp [hback, hplain 't' (by decide)]
  · simp [hback, hplain 'b' (by decide)]
  · simp [hback, hplain 'f' (by decide)]
  · have hhigh := hdigit (c.toNat / 16) (by omega)
    have hlow := hdigit (c.toNat % 16) (Nat.mod_lt c.toNat (by decide))
    simp [hback, hplain 'u' (by decide), hplain '0' (by decide), hhigh, hlow]
  · simpa using Ne.symm hc

theorem count_jsonEscape (hm : m ∈ ['<', '>', '"']) (c : Char) :
    (jsonEscape c).count m = if c = m then 1 else 0 := by
  split
  · rename_i hc
    subst hc
    simp only [List.mem_cons, List.not_mem_nil, or_false] at hm
    rcases hm with rfl | rfl | rfl
    · rfl
    · rfl
    · rfl
  · rename_i hc
    exact List.count_eq_zero.mpr (mark_not_mem_jsonEscape hm hc)

theorem count_escape (hm : m ∈ ['<', '>', '"']) (shape : HeaderShape) (s : Text) :
    (shape.escape s).count m = s.count m := by
  cases shape with
  | object => rfl
  | bare =>
    show (s.flatMap jsonEscape).count m = s.count m
    induction s with
    | nil => rfl
    | cons c s ih =>
      rw [List.flatMap_cons, List.count_append, count_jsonEscape hm, ih, List.count_cons,
        Nat.add_comm]
      simp

theorem mem_escape (hm : m ∈ ['<', '>', '"']) : m ∈ shape.escape s ↔ m ∈ s := by
  rw [← List.count_pos_iff, count_escape hm, List.count_pos_iff]

def HeaderShape.quote : HeaderShape → Text
  | object => []
  | bare => ['"']

theorem shown_eq (shape : HeaderShape) (s : Text) :
    shape.shown s = shape.quote ++ (shape.escape s ++ shape.quote) := by
  cases shape with
  | object => exact (List.append_nil s).symm
  | bare => rfl

theorem bracket_not_mem_quote (hm : m = '<' ∨ m = '>') : m ∉ shape.quote := by
  cases shape with
  | object => exact List.not_mem_nil
  | bare =>
    rcases hm with rfl | rfl
    · decide
    · decide

theorem mem_escape_bracket (hm : m = '<' ∨ m = '>') : m ∈ shape.escape s ↔ m ∈ s := by
  apply mem_escape
  rcases hm with rfl | rfl
  · decide
  · decide

theorem shown_bracket (hm : m = '<' ∨ m = '>') : m ∈ shape.shown s ↔ m ∈ s := by
  rw [shown_eq, List.mem_append, List.mem_append, mem_escape_bracket hm]
  simp [bracket_not_mem_quote hm]

theorem before_bracket (hm : m = '<' ∨ m = '>') : m ∈ shape.quote ++ shape.escape s ↔ m ∈ s := by
  rw [List.mem_append, mem_escape_bracket hm]
  exact or_iff_right (bracket_not_mem_quote hm)

theorem escape_bracket (hm : m = '<' ∨ m = '>') (p q : Text) :
    shape.escape (p ++ m :: q) = shape.escape p ++ m :: shape.escape q := by
  cases shape with
  | object => rfl
  | bare =>
    show (p ++ m :: q).flatMap jsonEscape = p.flatMap jsonEscape ++ m :: q.flatMap jsonEscape
    rw [List.flatMap_append, List.flatMap_cons]
    rcases hm with rfl | rfl
    · rfl
    · rfl

theorem stats_pair (hp : Unbracketed p) (hb : '>' ∉ b) :
    emailExpr db (shape.shown (p ++ '<' :: (b ++ '>' :: q))) = db.lower (shape.escape b) := by
  have hquote : Unbracketed (shape.quote ++ shape.escape p) :=
    ⟨mt (before_bracket (.inl rfl)).mp hp.1, mt (before_bracket (.inr rfl)).mp hp.2⟩
  have hclose : '>' ∉ shape.escape b := mt (mem_escape_bracket (.inr rfl)).mp hb
  have hshown : shape.shown (p ++ '<' :: (b ++ '>' :: q)) =
      (shape.quote ++ shape.escape p) ++ '<' :: (shape.escape b ++ '>' ::
        (shape.escape q ++ shape.quote)) := by
    rw [shown_eq, escape_bracket (.inl rfl), escape_bracket (.inr rfl)]
    simp
  rw [hshown, emailExpr_pair db hquote hclose]

theorem stats_whole (hp : '<' ∉ p) (h : '>' ∈ p ∨ '>' ∉ q) :
    emailExpr db (shape.shown (p ++ '<' :: q)) = db.lower (shape.shown (p ++ '<' :: q)) := by
  have hshown : shape.shown (p ++ '<' :: q) =
      (shape.quote ++ shape.escape p) ++ '<' :: (shape.escape q ++ shape.quote) := by
    rw [shown_eq, escape_bracket (.inl rfl)]
    simp
  rw [hshown]
  apply emailExpr_whole db (mt (before_bracket (.inl rfl)).mp hp)
  refine h.imp (before_bracket (.inr rfl)).mpr fun hq hmem => ?_
  rcases List.mem_append.mp hmem with hmem | hmem
  · exact hq ((mem_escape_bracket (.inr rfl)).mp hmem)
  · exact bracket_not_mem_quote (.inr rfl) hmem

theorem stats_plain (hs : '<' ∉ s) : emailExpr db (shape.shown s) = db.lower (shape.shown s) :=
  emailExpr_plain db (mt (shown_bracket (.inl rfl)).mp hs)

end Stats

/-! ## One address -/

section Agreement

variable {engine : Lowering} {db : Database} {shape : HeaderShape} {s first last addr : Text}

theorem nonEmpty_of_ne (h : s ≠ []) : nonEmpty s = some s := if_neg h

theorem nonEmpty_nil : nonEmpty [] = none := rfl

/-- Without brackets a bare string keeps its quotes in SQL. -/
theorem agree_plain (hs : '<' ∉ s) :
    (∃ addr, SendersAgree engine db (StoredSender.header shape s).text addr) ↔
      shape = .object ∧ '@' ∈ s ∧ db.lower s = engine.lower (trimText s) := by
  have hat : '@' ∈ trimText s ↔ '@' ∈ s := mem_trimText (by decide)
  constructor
  · rintro ⟨addr, hspam, -, -, hstats⟩
    rw [engineSender_header, angled_plain hs, Option.none_or] at hspam
    rw [statsSender, senderColumn_header, stats_plain hs] at hstats
    obtain ⟨a, ha, rfl⟩ := Option.map_eq_some_iff.mp hspam
    split at ha
    case isFalse => cases ha
    case isTrue hmem =>
      cases ha
      cases shape with
      | object => exact ⟨rfl, hmem, hstats⟩
      | bare =>
        have hquotes : (db.lower (jsonString s)).count '"' = s.count '"' + 2 := by
          rw [db.marks _ _ (by decide)]
          have hescape := count_escape (by decide : '"' ∈ ['<', '>', '"']) .bare s
          have hinner : (s.flatMap jsonEscape).count '"' = s.count '"' := hescape
          unfold jsonString
          simp [hinner]
        have hfewer : (engine.lower (trimText s)).count '"' ≤ s.count '"' := by
          rw [engine.marks _ _ (by decide)]
          obtain ⟨l, r, hsplit, -⟩ := trimText_split s
          conv_rhs => rw [hsplit]
          simp only [List.count_append]
          omega
        have hsame : db.lower (jsonString s) = engine.lower (trimText s) := hstats
        rw [← hsame, hquotes] at hfewer
        omega
  · rintro ⟨rfl, hmem, hlower⟩
    have hopen : '<' ∉ trimText s := mt (mem_trimText (by decide)).mp hs
    refine ⟨engine.lower (trimText s), ?_, ?_, ?_, ?_⟩
    · rw [engineSender_header, angled_plain hs, Option.none_or, if_pos hmem]
      rfl
    · rw [privacySender_header]
      unfold extractEmail
      dsimp only
      rw [lastBrackets_plain hopen]
      exact if_pos (hat.mpr hmem)
    · rw [exportedSender_header, splitAddress_plain hs, if_pos (hat.mpr hmem)]
      rfl
    · rw [statsSender, senderColumn_header, stats_plain hs]
      exact hlower

theorem agree_of_bracketed (h : Bracketed s first last) (hne : trimText last ≠ [])
    (hlast : engine.lower (trimText last) = engine.lower first)
    (hfirst : db.lower (shape.escape first) = engine.lower first) :
    SendersAgree engine db (StoredSender.header shape s).text (engine.lower first) := by
  obtain ⟨⟨p, q, hs, hp⟩, ⟨u, w, hs', hw⟩, hplain, hplain'⟩ := h
  have htrim : trimText s = trimStart u ++ '<' :: (last ++ ['>']) := by
    rw [hs', trimText_pair hw]
  have hbrackets : lastBrackets (trimText s) = some last := by
    rw [htrim]
    exact lastBrackets_pair hplain'.1 ⟨List.not_mem_nil, List.not_mem_nil⟩
  have hangled : angled s = some first := by
    rw [hs]
    refine (angled_cons hp.1).mpr ⟨'>' :: q, rfl, fun x hx => ?_, fun x hx => ?_⟩
    · exact ⟨ne_of_mem_of_not_mem hx hplain.1, ne_of_mem_of_not_mem hx hplain.2⟩
    · exact .inr (Option.some.inj hx).symm
  constructor
  case spam =>
    rw [engineSender_header, hangled]
    rfl
  case privacy =>
    rw [privacySender_header]
    unfold extractEmail
    dsimp only
    rw [hbrackets, ← hlast]
  case exported =>
    have hopen : '<' ∉ last ++ ['>'] := by
      simp [hplain'.1]
    rw [exportedSender_header, splitAddress_open htrim hopen, trimEndMatches_close hplain'.2,
      nonEmpty_of_ne hne, Option.map_some, hlast]
  case stats =>
    rw [statsSender, senderColumn_header, hs, stats_pair hp hplain.2, hfirst]

theorem bracketed_of_agree (hs : '<' ∈ s)
    (h : SendersAgree engine db (StoredSender.header shape s).text addr) :
    ∃ first last, Bracketed s first last ∧ trimText last ≠ [] ∧
      engine.lower (trimText last) = engine.lower first ∧
      db.lower (shape.escape first) = engine.lower first := by
  obtain ⟨hspam, hprivacy, hexported, hstats⟩ := h
  rw [engineSender_header] at hspam
  rw [privacySender_header] at hprivacy
  rw [exportedSender_header] at hexported
  rw [statsSender, senderColumn_header] at hstats
  obtain ⟨p, r, hsplit, hp⟩ := List.eq_append_cons_of_mem hs
  -- the engine finds no bracket
  obtain ⟨a, ha⟩ : ∃ a, angled s = some a := by
    unfold angled
    rw [hsplit, dropWhile_append_cons hp]
    exact ⟨_, rfl⟩
  rw [ha, Option.some_or, Option.map_some, Option.some.injEq] at hspam
  have haddr : Unbracketed addr := by
    rw [hsplit] at ha
    obtain ⟨_, -, hclean, -⟩ := (angled_cons hp).mp ha
    rw [← hspam]
    exact ⟨mt (engine.mem (by decide)).mp fun h => (hclean _ h).1 rfl,
      mt (engine.mem (by decide)).mp fun h => (hclean _ h).2 rfl⟩
  -- so SQL finds a pair
  have hpair : '>' ∉ p ∧ '>' ∈ r := by
    by_contra hnot
    have hwhole : '>' ∈ p ∨ '>' ∉ r := by
      rcases Decidable.em ('>' ∈ p) with hclose | hclose
      · exact .inl hclose
      · exact .inr fun hr => hnot ⟨hclose, hr⟩
    have hopen : '<' ∈ db.lower (shape.shown s) :=
      (db.mem (by decide)).mpr ((shown_bracket (.inl rfl)).mpr hs)
    rw [hsplit, stats_whole hp hwhole, ← hsplit] at hstats
    exact haddr.1 (hstats ▸ hopen)
  obtain ⟨b, q, rfl, hb⟩ := List.eq_append_cons_of_mem hpair.2
  rw [hsplit, stats_pair ⟨hp, hpair.1⟩ hb] at hstats
  have hb' : '<' ∉ b := by
    intro hmem
    have hopen := (db.mem (by decide)).mpr ((@mem_escape_bracket shape b _ (.inl rfl)).mpr hmem)
    exact haddr.1 (hstats ▸ hopen)
  have hangled : angled s = some b := by
    rw [hsplit]
    refine (angled_cons hp).mpr ⟨'>' :: q, rfl, fun x hx => ?_, fun x hx => ?_⟩
    · exact ⟨ne_of_mem_of_not_mem hx hb', ne_of_mem_of_not_mem hx hb⟩
    · exact .inr (Option.some.inj hx).symm
  obtain rfl : a = b := Option.some.inj (ha.symm.trans hangled)
  -- the last brackets
  obtain ⟨u, v, ht, hv⟩ := exists_last ((mem_trimText (by decide)).mpr hs)
  unfold extractEmail at hprivacy
  dsimp only at hprivacy
  have hclose : '>' ∈ v := by
    by_contra hnot
    rw [ht, lastBrackets_none ⟨hv, hnot⟩, ← ht] at hprivacy
    dsimp only at hprivacy
    split at hprivacy
    case isFalse => cases hprivacy
    case isTrue =>
      have hopen := (engine.mem (by decide)).mpr ((@mem_trimText s _ (by decide)).mpr hs)
      exact haddr.1 (Option.some.inj hprivacy ▸ hopen)
  obtain ⟨c, w, rfl, hw⟩ := exists_last hclose
  have hc : '<' ∉ c := fun h => hv (List.mem_append_left _ h)
  have hw' : '<' ∉ w := fun h => hv (List.mem_append_right _ (List.mem_cons_of_mem _ h))
  rw [ht, lastBrackets_pair hc ⟨hw', hw⟩] at hprivacy
  have hlast : engine.lower (trimText c) = addr := Option.some.inj hprivacy
  have hc' : '>' ∉ c := by
    intro hmem
    have hstop := (engine.mem (by decide)).mpr ((@mem_trimText c _ (by decide)).mpr hmem)
    exact haddr.2 (hlast ▸ hstop)
  -- nothing is behind them for the export
  rw [splitAddress_open ht hv] at hexported
  obtain rfl : w = [] := by
    by_contra hne
    have hkept : trimEndMatches '>' (c ++ '>' :: w) = c ++ '>' :: w := by
      have hbehind := trimEndMatches_behind hw hne (c ++ ['>'])
      rwa [List.append_assoc, List.singleton_append] at hbehind
    have hstop : '>' ∈ trimText (c ++ '>' :: w) := (mem_trimText (by decide)).mpr (by simp)
    rw [hkept, nonEmpty_of_ne (List.ne_nil_of_mem hstop), Option.map_some,
      Option.some.injEq] at hexported
    exact haddr.2 (hexported ▸ (engine.mem (by decide)).mpr hstop)
  rw [trimEndMatches_close hc'] at hexported
  have hne : trimText c ≠ [] := by
    intro hnil
    rw [hnil, nonEmpty_nil] at hexported
    cases hexported
  refine ⟨a, c, ⟨⟨p, q, hsplit, hp, hpair.1⟩, ?_, ⟨hb', hb⟩, hc, hc'⟩, hne,
    hlast.trans hspam.symm, hstats.trans hspam.symm⟩
  obtain ⟨l, r, hends, -, hr⟩ := trimText_split s
  refine ⟨l ++ u, r, ?_, hr⟩
  rw [hends, ht]
  simp

/-- The export reads no object but that of a header. -/
theorem exportedSender_mailbox (name email : Text) :
    exportedSender engine (some (mailboxText name email)) = none := by
  have htrim : trimText (mailboxText name email) = mailboxText name email := by
    apply trimText_eq_self
    · intro c hc
      obtain rfl : Char.ofNat 0x7b = c := Option.some.inj hc
      decide
    · intro c hc
      have hlast : (mailboxText name email).getLast? = some (Char.ofNat 0x7d) :=
        List.getLast?_concat
      rw [Option.mem_def, hlast] at hc
      obtain rfl := Option.some.inj hc
      decide
  have hread : readJson (mailboxText name email) =
      some (.object [("email".toList, .string email), ("name".toList, .string name)]) :=
    readJson_jsonObject _
  have hne : mailboxText name email ≠ [] := List.cons_ne_nil _ _
  unfold exportedSender addressEntries
  dsimp only [Option.getD_some]
  rw [htrim, if_neg hne, hread]
  rfl

/-- What begins with a square bracket is a list. -/
theorem readJson_list {t : Text} {v : Json} (h : readJson ('[' :: t) = some v) :
    ∃ items, v = .array items := by
  have hvalue : ∀ x, readValue (t.length + 1 + 1) ('[' :: t) = some x →
      ∃ items, x.1 = .array items := by
    intro x hx
    rw [readValue, skipSpace_of_not (by decide)] at hx
    simp only at hx
    rw [if_neg (by decide), if_pos trivial] at hx
    split at hx
    · exact ⟨[], congrArg Prod.fst (Option.some.inj hx).symm⟩
    · obtain ⟨y, -, rfl⟩ := Option.map_eq_some_iff.mp hx
      exact ⟨y.1, rfl⟩
  unfold readJson at h
  split at h
  case h_2 => cases h
  case h_1 w rest hread =>
    obtain ⟨items, hitems⟩ := hvalue _ hread
    split at h
    · exact ⟨items, (Option.some.inj h).symm.trans hitems⟩
    · cases h

theorem privacySender_list (t : Text) : senderEmailFromJson engine (some ('[' :: t)) = none := by
  unfold senderEmailFromJson
  rw [Option.bind_some]
  cases h : readJson ('[' :: t) with
  | none => rfl
  | some v =>
    obtain ⟨items, rfl⟩ := readJson_list h
    rfl

/-- The four readers find one address exactly if one stands in the value. -/
theorem senders_agree_iff (engine : Lowering) (db : Database) (x : StoredSender) :
    (∃ addr, SendersAgree engine db x.text addr) ↔ OneSender engine db x := by
  cases x with
  | header shape s =>
    rcases Decidable.em ('<' ∈ s) with hs | hs
    · constructor
      · rintro ⟨addr, h⟩
        exact .inr (bracketed_of_agree hs h)
      · rintro (⟨hnot, -⟩ | ⟨first, last, h, hne, hlast, hfirst⟩)
        · exact absurd hs hnot
        · exact ⟨_, agree_of_bracketed h hne hlast hfirst⟩
    · rw [agree_plain hs]
      constructor
      · exact fun h => .inl ⟨hs, h⟩
      · rintro (⟨-, h⟩ | ⟨first, last, h, -⟩)
        · exact h
        · obtain ⟨p, q, rfl, -⟩ := h.open_first
          exact absurd (List.mem_append_right p List.mem_cons_self) hs
  | mailbox name email =>
    refine iff_of_false ?_ id
    rintro ⟨addr, -, -, hexported, -⟩
    rw [StoredSender.text, exportedSender_mailbox] at hexported
    cases hexported
  | list entries =>
    refine iff_of_false ?_ id
    rintro ⟨addr, -, hprivacy, -, -⟩
    rw [StoredSender.text, List.cons_append, privacySender_list] at hprivacy
    cases hprivacy

end Agreement

/-! ## A name with brackets -/

theorem count_toLower {m : Char} (hm : m ∈ ['<', '>', '"']) (s : Text) :
    (s.map Char.toLower).count m = s.count m := by
  have hmark : m.toNat < 128 ∧ m.toUpper = m ∧ m.toLower = m := by
    simp only [List.mem_cons, List.not_mem_nil, or_false] at hm
    rcases hm with rfl | rfl | rfl
    · decide
    · decide
    · decide
  induction s with
  | nil => rfl
  | cons c s ih =>
    have hsame : c.toLower = m ↔ c = m := by
      constructor
      · intro h
        exact (toLower_cases hmark.1 h).elim id fun hupper => hupper.trans hmark.2.1
      · rintro rfl
        exact hmark.2.2
    rw [List.map_cons, List.count_cons, List.count_cons, ih]
    simp only [beq_iff_eq, hsame]

/-- SQLite's `LOWER`, and JSON columns that are texts. -/
def sqlite : Database where
  lower s := s.map Char.toLower
  marks s _ hc := count_toLower hc s
  columnText s := s
  columnText_string _ := rfl

/-- A display name with an address in brackets: the spam engine and SQL read the name's, the
privacy settings and the export the sender's. -/
theorem second_bracket_disagrees :
    ¬∃ addr, SendersAgree sqlite.toLowering sqlite
      (StoredSender.header .object "Boss <boss@corp.example> <eve@evil.example>".toList).text
        addr := by
  rintro ⟨addr, h⟩
  have hspam : engineSender sqlite.toLowering (some
      (StoredSender.header .object "Boss <boss@corp.example> <eve@evil.example>".toList).text) =
        some "boss@corp.example".toList := by
    decide +kernel
  have hprivacy : senderEmailFromJson sqlite.toLowering (some
      (StoredSender.header .object "Boss <boss@corp.example> <eve@evil.example>".toList).text) =
        some "eve@evil.example".toList := by
    decide +kernel
  have hsame := Option.some.inj (h.spam.symm.trans hspam)
  rw [hsame] at h
  exact absurd (h.privacy.symm.trans hprivacy) (by decide +kernel)

end Lyra.Senders
