import Lyra.Dav.Xml
import Lyra.Lib.Lines
import Lyra.Opengpg.Coverage

/-!
# Raw messages

A raw message that is not JSON is split three times: the body starts behind the first LF LF of
the text, else behind the first CRLF CRLF, and the recipients and the subject are looked for in
the lines before the first empty one.

* `lines_headerText_append`: the lines of a header block are those it was written with;
* `bodyFromRaw_iff`, `splits_iff`: the body is what follows the blank line exactly where that line
  ends with LF, or the line before it ends with CRLF and no LF LF follows its carriage return.
-/

namespace Lyra.Opengpg

open Lyra.Lib

/-! ## Reading -/

section Reading

variable (parseJson : Text → Except String OutboundMessage) (decodeMimeHeader : Text → Text)

/-- The loop over the lines: the value of the first header of a name. -/
def headerNamed (key : Text) : List Text → Option Text
  | [] => none
  | line :: rest =>
    if line = [] then none
    else
      match splitOnce ':' line with
      | some (name, value) =>
        if eqIgnoreAsciiCase name key then some value else headerNamed key rest
      | none => headerNamed key rest

def bodyFromRaw (raw : Text) : Text :=
  match findText ['\n', '\n'] raw with
  | some idx => raw.drop (idx + 2)
  | none =>
    match findText ['\r', '\n', '\r', '\n'] raw with
    | some idx => raw.drop (idx + 4)
    | none => raw

def recipientsFromRaw (raw : Text) : List (Option Text × Text) :=
  match headerNamed "to".toList (lines raw) with
  | some value =>
    (((value.splitOn ',').map trimText).filter fun s => s ≠ []).map fun s => (none, s)
  | none => []

def subjectFromRaw (raw : Text) : Option Text :=
  (headerNamed "subject".toList (lines raw)).map fun value => decodeMimeHeader (trimText value)

def startsJson (raw : Text) : Bool := ['{'].isPrefixOf (trimStart raw)

def noRecipients : SendFailure := .invalidInput "No recipients specified"

/-- The message of `outbound_from_raw`, without the fields it leaves empty for the transport. -/
def plainMessage (fromEmail : Text) (recipients : List (Option Text × Text)) (subject : Option Text)
    (body : Text) : Except SendFailure OutboundMessage :=
  if recipients = [] then .error noRecipients
  else
    .ok {
      fromEmail := fromEmail
      recipients := recipients
      cc := []
      bcc := []
      subject := subject.getD []
      bodyText := some body
      bodyHtml := none
      inReplyTo := none
      references := none
      mimeContentType := none
      mimeBody := none
      attachments := [] }

def outboundFromRaw (fromEmail raw : Text) : Except SendFailure OutboundMessage :=
  if startsJson raw then
    match parseJson (trimStart raw) with
    | .error e => .error (.invalidInput ("invalid outbound JSON: " ++ e))
    | .ok outbound =>
      if outbound.recipients = [] then .error noRecipients
      else .ok { outbound with fromEmail := fromEmail }
  else
    plainMessage fromEmail (recipientsFromRaw raw) (subjectFromRaw decodeMimeHeader raw)
      (bodyFromRaw raw)

end Reading

/-! ## Written messages -/

inductive LineEnd
  | lf
  | crlf
  deriving DecidableEq, Repr

def LineEnd.text : LineEnd → Text
  | .lf => ['\n']
  | .crlf => ['\r', '\n']

/-- A line that is not blank; a carriage return before its line feed belongs to its end. -/
structure HeaderLine where
  text : Text
  eol : LineEnd
  nonempty : text ≠ []
  single : '\n' ∉ text
  whole : eol = .lf → text.getLast? ≠ some '\r'

def headerText (header : List HeaderLine) : Text := header.flatMap fun l => l.text ++ l.eol.text

/-- A header block, the blank line and the body. -/
def rawText (header : List HeaderLine) (blank : LineEnd) (body : Text) : Text :=
  headerText header ++ blank.text ++ body

/-- The body is found, and the rest is what the header block says. -/
structure Splits (parseJson : Text → Except String OutboundMessage) (decodeMimeHeader : Text → Text)
    (header : List HeaderLine) (blank : LineEnd) (body : Text) : Prop where
  bodyFound : bodyFromRaw (rawText header blank body) = body
  recipients : recipientsFromRaw (rawText header blank body) = recipientsFromRaw (headerText header)
  subject : subjectFromRaw decodeMimeHeader (rawText header blank body) =
    subjectFromRaw decodeMimeHeader (headerText header)
  outbound : ∀ fromEmail, startsJson (rawText header blank body) = false →
    outboundFromRaw parseJson decodeMimeHeader fromEmail (rawText header blank body) =
      plainMessage fromEmail (recipientsFromRaw (headerText header))
        (subjectFromRaw decodeMimeHeader (headerText header)) body

/-- The first boundary that is looked for is the one before the body. -/
def FirstBoundary (header : List HeaderLine) (body : Text) : LineEnd → Prop
  | .lf => header ≠ []
  | .crlf => header.getLast?.map HeaderLine.eol = some .crlf ∧ ¬ ['\n', '\n'] <:+: '\n' :: body

/-! ## The lines of a header block -/

section Lines

variable {header : List HeaderLine} {blank : LineEnd} {body : Text} {key : Text}

theorem lines_nil : lines [] = [] := rfl

theorem lines_headerText_append (header : List HeaderLine) (s : Text) :
    lines (headerText header ++ s) = header.map HeaderLine.text ++ lines s := by
  induction header with
  | nil => rfl
  | cons l header ih =>
    have hcons :
        headerText (l :: header) ++ s = l.text ++ l.eol.text ++ (headerText header ++ s) := by
      simp [headerText]
    rw [hcons, List.map_cons, List.cons_append, ← ih]
    cases heol : l.eol with
    | lf => exact lines_append_lineFeed l.single (l.whole heol) _
    | crlf => exact lines_append l.single _

theorem lines_headerText (header : List HeaderLine) :
    lines (headerText header) = header.map HeaderLine.text := by
  have h := lines_headerText_append header []
  rwa [List.append_nil, lines_nil, List.append_nil] at h

theorem lines_blank (blank : LineEnd) (s : Text) : lines (blank.text ++ s) = [] :: lines s := by
  cases blank with
  | lf => exact lines_append_lineFeed (l := []) (by simp) (by simp) s
  | crlf => exact lines_append (l := []) (by simp) s

theorem lines_rawText (header : List HeaderLine) (blank : LineEnd) (body : Text) :
    lines (rawText header blank body) = header.map HeaderLine.text ++ [] :: lines body := by
  unfold rawText
  rw [List.append_assoc, lines_headerText_append, lines_blank]

theorem headerNamed_append (key : Text) (ls rest : List Text) :
    headerNamed key (ls ++ [] :: rest) = headerNamed key ls := by
  induction ls with
  | nil => simp [headerNamed]
  | cons l ls ih =>
    rw [List.cons_append, headerNamed, headerNamed, ih]

theorem headerNamed_rawText (key : Text) (header : List HeaderLine) (blank : LineEnd)
    (body : Text) :
    headerNamed key (lines (rawText header blank body)) =
      headerNamed key (lines (headerText header)) := by
  rw [lines_rawText, headerNamed_append, lines_headerText]

theorem recipientsFromRaw_rawText (header : List HeaderLine) (blank : LineEnd) (body : Text) :
    recipientsFromRaw (rawText header blank body) = recipientsFromRaw (headerText header) := by
  unfold recipientsFromRaw
  rw [headerNamed_rawText]

theorem subjectFromRaw_rawText (decodeMimeHeader : Text → Text) (header : List HeaderLine)
    (blank : LineEnd) (body : Text) :
    subjectFromRaw decodeMimeHeader (rawText header blank body) =
      subjectFromRaw decodeMimeHeader (headerText header) := by
  unfold subjectFromRaw
  rw [headerNamed_rawText]

/-! ## Boundaries -/

theorem nil_not_mem_lines (header : List HeaderLine) : [] ∉ lines (headerText header) := by
  rw [lines_headerText]
  intro h
  obtain ⟨l, -, hl⟩ := List.mem_map.mp h
  exact l.nonempty hl

theorem no_blank_lineFeed (header : List HeaderLine) (blank : LineEnd) :
    ¬ '\n' :: blank.text <:+: headerText header := by
  rintro ⟨a, b, h⟩
  refine nil_not_mem_lines header ?_
  rw [← h, List.append_assoc, List.cons_append]
  refine mem_lines_append a ?_
  rw [lines_blank]
  exact List.mem_cons_self

theorem infix_of_infix_concat {pat s : Text} {c : Char} (hpat : pat ≠ [])
    (hlast : pat.getLast? ≠ some c) (h : pat <:+: s ++ [c]) : pat <:+: s := by
  rcases List.infix_concat_iff.mp h with ⟨t, ht⟩ | h
  · have hc := congrArg List.getLast? ht
    rw [List.getLast?_append_of_ne_nil _ hpat, List.getLast?_concat] at hc
    exact absurd hc hlast
  · exact h

theorem headerText_concat (init : List HeaderLine) (l : HeaderLine) :
    headerText (init ++ [l]) = headerText init ++ l.text ++ l.eol.text := by
  simp [headerText]

theorem headerText_lineFeed (h : header ≠ []) : ∃ a, headerText header = a ++ ['\n'] := by
  rcases List.eq_nil_or_concat' header with rfl | ⟨init, l, rfl⟩
  · exact absurd rfl h
  · rw [headerText_concat]
    cases l.eol with
    | lf => exact ⟨_, rfl⟩
    | crlf => exact ⟨headerText init ++ l.text ++ ['\r'], by simp [LineEnd.text]⟩

theorem headerText_crlf_iff :
    (∃ a, headerText header = a ++ ['\r', '\n']) ↔
      header.getLast?.map HeaderLine.eol = some .crlf := by
  rcases List.eq_nil_or_concat' header with rfl | ⟨init, l, rfl⟩
  · simp [headerText]
  · rw [headerText_concat, List.getLast?_concat, Option.map_some, Option.some_inj]
    constructor
    · rintro ⟨a, ha⟩
      cases heol : l.eol with
      | crlf => rfl
      | lf =>
        -- the last character of the line would be a carriage return
        rw [heol] at ha
        have hfeed : headerText init ++ l.text ++ ['\n'] = a ++ ['\r'] ++ ['\n'] := by
          simpa [LineEnd.text] using ha
        have hlast := congrArg List.getLast? (List.append_cancel_right hfeed)
        rw [List.getLast?_append_of_ne_nil _ l.nonempty, List.getLast?_concat] at hlast
        exact absurd hlast (l.whole heol)
    · intro heol
      rw [heol]
      exact ⟨_, rfl⟩

/-- Two line feeds in a message whose blank line ends with CRLF. -/
theorem lineFeeds_infix_iff (header : List HeaderLine) (body : Text) :
    ['\n', '\n'] <:+: rawText header .crlf body ↔ ['\n', '\n'] <:+: '\n' :: body := by
  have hraw : rawText header .crlf body = headerText header ++ '\r' :: '\n' :: body := by
    simp [rawText, LineEnd.text]
  rw [hraw]
  constructor
  · rintro ⟨a, b, h⟩
    rw [List.append_assoc] at h
    rcases List.append_eq_append_iff.mp h with ⟨t, ht, hb⟩ | ⟨t, ha, hb⟩
    · match t, hb with
      | [], hb => simp at hb
      | [_], hb => simp at hb
      | x :: y :: t, hb =>
        obtain ⟨rfl, rfl, -⟩ : '\n' = x ∧ '\n' = y ∧ b = t ++ '\r' :: '\n' :: body := by
          simpa using hb
        exact absurd ⟨a, t, by rw [ht]; simp [LineEnd.text]⟩ (no_blank_lineFeed header .lf)
    · match t, hb with
      | [], hb => simp at hb
      | x :: t, hb =>
        obtain ⟨-, hb⟩ := List.cons_eq_cons.mp hb
        refine ⟨t, b, ?_⟩
        rw [List.append_assoc]
        exact hb.symm
  · intro h
    exact h.trans ⟨headerText header ++ ['\r'], [], by simp⟩

/-! ## The body -/

/-- The body starts behind the first boundary found, or there is none. -/
theorem bodyFromRaw_cases (raw : Text) :
    (∃ a, raw = a ++ ['\n', '\n'] ++ bodyFromRaw raw) ∨
      (¬ ['\n', '\n'] <:+: raw ∧ ∃ a, raw = a ++ ['\r', '\n', '\r', '\n'] ++ bodyFromRaw raw) ∨
      bodyFromRaw raw = raw := by
  unfold bodyFromRaw
  cases hlf : findText ['\n', '\n'] raw with
  | some idx =>
    left
    exact ⟨raw.take idx, by rw [List.append_assoc]; exact findText_eq_some hlf⟩
  | none =>
    right
    cases hcrlf : findText ['\r', '\n', '\r', '\n'] raw with
    | some idx =>
      left
      refine ⟨not_infix_of_findText_none hlf, raw.take idx, ?_⟩
      rw [List.append_assoc]
      exact findText_eq_some hcrlf
    | none => exact .inr rfl

theorem bodyFromRaw_lf {a body : Text} (h : ¬ ['\n', '\n'] <:+: a ++ ['\n']) :
    bodyFromRaw (a ++ ['\n', '\n'] ++ body) = body := by
  unfold bodyFromRaw
  rw [@findText_first ['\n', '\n'] a h]
  simp

theorem bodyFromRaw_crlf {a body : Text}
    (hlf : ¬ ['\n', '\n'] <:+: a ++ ['\r', '\n', '\r', '\n'] ++ body)
    (h : ¬ ['\r', '\n', '\r', '\n'] <:+: a ++ ['\r', '\n', '\r']) :
    bodyFromRaw (a ++ ['\r', '\n', '\r', '\n'] ++ body) = body := by
  unfold bodyFromRaw
  rw [findText_none hlf, @findText_first ['\r', '\n', '\r', '\n'] a h]
  simp

/-- Exactly the body is found where the boundary is the first one looked for. -/
theorem bodyFromRaw_iff (header : List HeaderLine) (blank : LineEnd) (body : Text) :
    bodyFromRaw (rawText header blank body) = body ↔ FirstBoundary header body blank := by
  constructor
  · intro hbody
    have hcases := bodyFromRaw_cases (rawText header blank body)
    rw [hbody] at hcases
    have hcut {a pat : Text} (h : rawText header blank body = a ++ pat ++ body) :
        headerText header ++ blank.text = a ++ pat := List.append_cancel_right h
    rcases hcases with ⟨a, ha⟩ | ⟨hlf, a, ha⟩ | hall
    · have hends := hcut ha
      cases blank with
      | lf =>
        rintro rfl
        simpa [headerText, LineEnd.text] using congrArg List.length hends
      | crlf =>
        -- the blank line has a carriage return before its line feed
        have hlast := congrArg (fun s => s.reverse.take 2) hends
        simp [LineEnd.text] at hlast
    · have hends := hcut ha
      cases blank with
      | lf =>
        rintro rfl
        simpa [headerText, LineEnd.text] using congrArg List.length hends
      | crlf =>
        have hblank : headerText header ++ ['\r', '\n'] = a ++ ['\r', '\n'] ++ ['\r', '\n'] := by
          simpa [LineEnd.text] using hends
        exact ⟨headerText_crlf_iff.mp ⟨a, List.append_cancel_right hblank⟩,
          fun h => hlf ((lineFeeds_infix_iff header body).mpr h)⟩
    · have hlen := congrArg List.length hall
      have hblank : 0 < blank.text.length := by cases blank <;> decide
      unfold rawText at hlen
      rw [List.length_append, List.length_append] at hlen
      omega
  · intro hfirst
    cases blank with
    | lf =>
      obtain ⟨a, ha⟩ := headerText_lineFeed hfirst
      have hraw : rawText header .lf body = a ++ ['\n', '\n'] ++ body := by
        simp [rawText, ha, LineEnd.text]
      rw [hraw]
      exact bodyFromRaw_lf (ha ▸ no_blank_lineFeed header .lf)
    | crlf =>
      obtain ⟨hlast, hbody⟩ := hfirst
      obtain ⟨a, ha⟩ := headerText_crlf_iff.mpr hlast
      have hraw : rawText header .crlf body = a ++ ['\r', '\n', '\r', '\n'] ++ body := by
        simp [rawText, ha, LineEnd.text]
      have hlf := (lineFeeds_infix_iff header body).not.mpr hbody
      rw [hraw] at hlf ⊢
      refine bodyFromRaw_crlf hlf ?_
      intro hcrlf
      have hblock : ['\r', '\n', '\r', '\n'] <:+: headerText header ++ ['\r'] := by
        simpa [ha] using hcrlf
      have hin := infix_of_infix_concat (by simp) (by simp) hblock
      exact no_blank_lineFeed header .crlf ((List.suffix_cons '\r' _).isInfix.trans hin)

end Lines

/-- A raw message is split at its blank line exactly where that is the first boundary the search
for the body finds; the recipients and the subject never come from behind it. -/
theorem splits_iff (parseJson : Text → Except String OutboundMessage)
    (decodeMimeHeader : Text → Text) (header : List HeaderLine) (blank : LineEnd) (body : Text) :
    Splits parseJson decodeMimeHeader header blank body ↔ FirstBoundary header body blank := by
  constructor
  · intro h
    exact (bodyFromRaw_iff header blank body).mp h.bodyFound
  · intro h
    have hbody := (bodyFromRaw_iff header blank body).mpr h
    have hrecipients := recipientsFromRaw_rawText header blank body
    have hsubject := subjectFromRaw_rawText decodeMimeHeader header blank body
    refine ⟨hbody, hrecipients, hsubject, ?_⟩
    intro fromEmail hplain
    unfold outboundFromRaw
    rw [hplain, if_neg Bool.false_ne_true, hbody, hrecipients, hsubject]

/-! ## A body with a blank line -/

def toLine : HeaderLine where
  text := "To: a@example.org".toList
  eol := .crlf
  nonempty := by decide
  single := by decide
  whole := by decide

def twoParagraphs : Text := "Hi\n\nBye".toList

/-- CRLF lines before a body with LF lines: the first paragraph is lost. -/
theorem first_paragraph_lost :
    bodyFromRaw (rawText [toLine] .crlf twoParagraphs) = "Bye".toList ∧
      ∀ parseJson decodeMimeHeader,
        ¬Splits parseJson decodeMimeHeader [toLine] .crlf twoParagraphs := by
  refine ⟨by decide, ?_⟩
  intro parseJson decodeMimeHeader h
  have hlost : bodyFromRaw (rawText [toLine] .crlf twoParagraphs) = "Bye".toList := by decide
  rw [h.bodyFound] at hlost
  exact absurd hlost (by decide)

end Lyra.Opengpg
