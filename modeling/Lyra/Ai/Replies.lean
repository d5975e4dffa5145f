import Lyra.Lib.ByteSlices
import Lyra.Backup.Credentials
import Lyra.Dav.Write
import Lyra.Spam.Judge

/-!
# Texts of the assistant

The open message goes to the model cut to a limit, a provider's error is shown cut to another one,
and from a reply the object between its braces is read.  All three cut texts at byte offsets: at
constants, or at braces that are looked for from both ends.

* `bracedText_object`: an object between chatter is found;
* `bracedText_eq_none`: looking for it panics where the braces are swapped;
* `handled_iff`: when none of the four functions panics.
-/

namespace Lyra.Ai

open Lyra.Lib
open Lyra.Backup (JsonValue)
open Lyra.Pim (TextLib)

/-! ## Cutting -/

/-- `CONTEXT_BODY_CAP`. -/
def contextBodyCap : Nat := 8 * 1024

def truncatedMark : Text := "\n…(truncated)".toList

/-- The limit for the texts of provider errors. -/
def errorBodyCap : Nat := 300

structure AiMessageContext where
  fromAddress : Option Text
  subject : Option Text
  bodyText : Option Text
  deriving DecidableEq, Repr

/-- What the open message is shown as, from its sender and the body to show. -/
def contextText (ops : TextOps) (row : AiMessageContext) (body : Text) : Text :=
  "From: ".toList ++ (fromJsonEmail ops row.fromAddress).getD "unknown sender".toList ++
    "\nSubject: ".toList ++ row.subject.getD "(no subject)".toList ++ "\n\n".toList ++ body

/-- `context_block`; the outer option is none where it panics, the inner one without a message. -/
def contextBlock (ops : TextOps) (row : Option AiMessageContext) : OptionT Option Text := do
  let row ← OptionT.mk (some row)
  let body ← OptionT.lift (cutAt contextBodyCap truncatedMark (row.bodyText.getD []))
  return contextText ops row body

/-- `truncate`. -/
def truncate (s : Text) (max : Nat) : Option Text := cutAt max ['…'] s

/-! ## Replies -/

def openBrace : Char := Char.ofNat 0x7b

def closeBrace : Char := Char.ofNat 0x7d

/-- The text from the first opening brace to the last closing one. -/
def bracedText (reply : Text) : OptionT Option Text := between openBrace closeBrace reply

/-- The library of JSON, over the numbers `η`. -/
structure JsonReader (η : Type) where
  fromStr : Text → Option (JsonValue η)
  asI64 : η → Option Int

section Fields

variable {η : Type}

/-- `Value::get`. -/
def field (key : String) : JsonValue η → Option (JsonValue η)
  | .object fields => fields.lookup key.toList
  | _ => none

def asStr : JsonValue η → Option Text
  | .string s => some s
  | _ => none

def asBool : JsonValue η → Option Bool
  | .bool b => some b
  | _ => none

def JsonReader.asInt (json : JsonReader η) : JsonValue η → Option Int
  | .number n => json.asI64 n
  | _ => none

end Fields

structure SpamVerdict where
  isSpam : Bool
  confidence : Nat
  reason : Text
  deriving DecidableEq, Repr

structure EventSuggestion where
  summary : Text
  dtstart : Text
  dtend : Option Text
  isAllDay : Bool
  location : Option Text
  description : Option Text
  deriving DecidableEq, Repr

section Parsing

variable {η : Type} (json : JsonReader η) (lib : TextLib)

/-- `clamp(0, 100)`. -/
def clampPercent (n : Int) : Nat := (max 0 (min n 100)).toNat

/-- The verdict that an object says. -/
def verdictOf (v : JsonValue η) : Option SpamVerdict := do
  let isSpam ← (field "is_spam" v).bind asBool
  let confidence := clampPercent (((field "confidence" v).bind json.asInt).getD 50)
  let reason := ((field "reason" v).bind asStr).getD []
  return ⟨isSpam, confidence, reason⟩

/-- `normalize_dt`; the second part is there for a time and absent for a date. -/
def normalizeDt (raw : Text) : Option (Text × Option Text) :=
  let raw := trimText raw
  if (utf8 raw).length = 10 then
    if (lib.parseYmd raw).isSome then some (raw, none) else none
  else if (lib.parseRfc3339 raw).isSome then some (raw, some raw)
  else if (lib.parseRfc3339 (raw ++ ['Z'])).isSome then some (raw ++ ['Z'], some (raw ++ ['Z']))
  else none

/-- The end, kept where it has the form of the start; none of the outer option rejects. -/
def endOf (timedStart : Bool) : Option Text → Option (Option Text)
  | none => some none
  | some rawEnd => (normalizeDt lib rawEnd).map fun (endNorm, timedEnd) =>
    if timedEnd.isSome = timedStart then some endNorm else none

/-- The event that an object says. -/
def eventOf (v : JsonValue η) : Option EventSuggestion := do
  let summary ← (field "summary" v).bind asStr
  let summary := trimText summary
  if summary.isEmpty then none
  else
    let rawStart ← (field "start" v).bind asStr
    let (dtstart, timedStart) ← normalizeDt lib rawStart
    let isAllDay := timedStart.isNone || ((field "allDay" v).bind asBool).getD false
    let dtend ← endOf lib timedStart.isSome ((field "end" v).bind asStr)
    return ⟨summary, dtstart, dtend, isAllDay, (field "location" v).bind asStr,
      (field "description" v).bind asStr⟩

/-- `parse_spam_verdict`; the outer option is none where it panics. -/
def parseSpamVerdict (reply : Text) : OptionT Option SpamVerdict := do
  let text ← bracedText reply
  OptionT.mk (some ((json.fromStr text).bind (verdictOf json)))

/-- `parse_event_suggestion`. -/
def parseEventSuggestion (reply : Text) : OptionT Option EventSuggestion := do
  let text ← bracedText reply
  OptionT.mk (some ((json.fromStr text).bind (eventOf lib)))

end Parsing

/-! ## What the functions should do -/

/-- Free of braces. -/
def Chatter (s : Text) : Prop := openBrace ∉ s ∧ closeBrace ∉ s

/-- The text of an object has a brace at both ends. -/
def ObjectText (s : Text) : Prop := ∃ m, s = openBrace :: m ++ [closeBrace]

/-- What is left of a text is a beginning of it, with or without a mark. -/
def Beginning (mark s left : Text) : Prop :=
  ∃ u v, s = u ++ v ∧ (left = u ∧ v = [] ∨ left = u ++ mark)

section Handled

variable {η : Type} (ops : TextOps) (json : JsonReader η) (lib : TextLib)

/-- The four functions return for a message, an error and a reply, and do what they should. -/
structure Handled (row : AiMessageContext) (errorBody reply : Text) : Prop where
  context : ∃ shown, (contextBlock ops (some row)).run = some (some (contextText ops row shown)) ∧
    Beginning truncatedMark (row.bodyText.getD []) shown
  error : ∃ shown, truncate errorBody errorBodyCap = some shown ∧ Beginning ['…'] errorBody shown
  verdict : (parseSpamVerdict json reply).run ≠ none
  event : (parseEventSuggestion json lib reply).run ≠ none
  object : ∀ pre obj post, reply = pre ++ obj ++ post → Chatter pre → Chatter post →
    ObjectText obj →
    (parseSpamVerdict json reply).run = some ((json.fromStr obj).bind (verdictOf json)) ∧
      (parseEventSuggestion json lib reply).run = some ((json.fromStr obj).bind (eventOf lib))

end Handled

/-! ## Where they do -/

section Handling

variable {η : Type} {ops : TextOps} {json : JsonReader η} {lib : TextLib}
  {reply pre obj post mark s left : Text} {k : Nat}

theorem braces_ne : openBrace ≠ closeBrace := by decide

theorem bracedText_eq_none : (bracedText reply).run = none ↔ Swapped openBrace closeBrace reply :=
  between_eq_none (by decide) braces_ne

/-- An object between chatter is found. -/
theorem bracedText_object (hpre : Chatter pre) (hpost : Chatter post) (hobj : ObjectText obj) :
    (bracedText (pre ++ obj ++ post)).run = some (some obj) := by
  obtain ⟨m, rfl⟩ := hobj
  have hs : pre ++ (openBrace :: m ++ [closeBrace]) ++ post =
      pre ++ openBrace :: m ++ closeBrace :: post := by simp
  rw [hs]
  exact run_between_ordered (by decide) hpre.1 hpost.2

theorem run_parseSpamVerdict : (parseSpamVerdict json reply).run =
    (bracedText reply).run.map
      fun text => text.bind fun t => (json.fromStr t).bind (verdictOf json) := by
  unfold parseSpamVerdict
  rw [OptionT.run_bind]
  rcases (bracedText reply).run with - | - | t <;> rfl

theorem run_parseEventSuggestion : (parseEventSuggestion json lib reply).run =
    (bracedText reply).run.map
      fun text => text.bind fun t => (json.fromStr t).bind (eventOf lib) := by
  unfold parseEventSuggestion
  rw [OptionT.run_bind]
  rcases (bracedText reply).run with - | - | t <;> rfl

theorem run_contextBlock (row : AiMessageContext) : (contextBlock ops (some row)).run =
    (cutAt contextBodyCap truncatedMark (row.bodyText.getD [])).map
      fun body => some (contextText ops row body) := by
  rw [Option.map_eq_bind]
  unfold contextBlock
  simp only [OptionT.run_bind, OptionT.run_mk, OptionT.run_lift, Option.elimM]
  exact Option.bind_assoc _ _ _

theorem beginning_of_cutAt (h : cutAt k mark s = some left) : Beginning mark s left := by
  rcases cutAt_eq_some h with ⟨rfl, -⟩ | ⟨u, v, rfl, -, rfl⟩
  · exact ⟨left, [], (List.append_nil left).symm, .inl ⟨rfl, rfl⟩⟩
  · exact ⟨u, v, rfl, .inr rfl⟩

end Handling

/-- The four functions do what they should exactly where no limit falls inside a character and the
braces of the reply are not swapped. -/
theorem handled_iff {η : Type} (ops : TextOps) (json : JsonReader η) (lib : TextLib)
    (row : AiMessageContext) (errorBody reply : Text) :
    Handled ops json lib row errorBody reply ↔
      FitsAt contextBodyCap (row.bodyText.getD []) ∧ FitsAt errorBodyCap errorBody ∧
        ¬Swapped openBrace closeBrace reply := by
  constructor
  · intro h
    obtain ⟨shown, hcontext, -⟩ := h.context
    obtain ⟨shown', herror, -⟩ := h.error
    refine ⟨?_, ?_, fun hswapped => h.verdict ?_⟩
    · rw [run_contextBlock, Option.map_eq_some_iff] at hcontext
      obtain ⟨body, hbody, -⟩ := hcontext
      rw [← cutAt_isSome, hbody]
      rfl
    · rw [← cutAt_isSome _ ['…'], ← truncate, herror]
      rfl
    · rw [run_parseSpamVerdict, bracedText_eq_none.mpr hswapped]
      rfl
  · rintro ⟨hcontext, herror, hreply⟩
    have hbraced := mt bracedText_eq_none.mp hreply
    obtain ⟨body, hbody⟩ :=
      Option.isSome_iff_exists.mp ((cutAt_isSome _ truncatedMark _).mpr hcontext)
    obtain ⟨shown, hshown⟩ := Option.isSome_iff_exists.mp ((cutAt_isSome _ ['…'] _).mpr herror)
    refine ⟨⟨body, ?_, beginning_of_cutAt hbody⟩, ⟨shown, hshown, beginning_of_cutAt hshown⟩,
      ?_, ?_, ?_⟩
    · rw [run_contextBlock, hbody]
      rfl
    · rw [run_parseSpamVerdict, Ne, Option.map_eq_none_iff]
      exact hbraced
    · rw [run_parseEventSuggestion, Ne, Option.map_eq_none_iff]
      exact hbraced
    · rintro pre obj post rfl hpre hpost hobj
      rw [run_parseSpamVerdict, run_parseEventSuggestion, bracedText_object hpre hpost hobj]
      exact ⟨rfl, rfl⟩

/-- A reply whose braces are swapped, and an error with a character across the limit. -/
theorem swapped_and_cut_panic :
    (∀ json : JsonReader Unit, (parseSpamVerdict json "\x7d \x7b".toList).run = none) ∧
      truncate (List.replicate 299 'a' ++ ['é']) errorBodyCap = none := by
  constructor
  · intro json
    have hswapped : Swapped openBrace closeBrace "\x7d \x7b".toList :=
      ⟨[], [' '], [], by decide, by decide, by decide, by decide⟩
    rw [run_parseSpamVerdict, bracedText_eq_none.mpr hswapped]
    rfl
  · have hlen : byteLength (List.replicate 299 'a') = 299 := by
      rw [byteLength_ascii fun c hc => (List.eq_of_mem_replicate hc) ▸ (by decide),
        List.length_replicate]
    have hcut : ¬FitsAt errorBodyCap (List.replicate 299 'a' ++ ['é']) := by
      apply not_fitsAt
      · rw [hlen]
        decide
      · rw [hlen]
        decide
    rw [← cutAt_isSome _ ['…'], Option.not_isSome_iff_eq_none] at hcut
    exact hcut

end Lyra.Ai
