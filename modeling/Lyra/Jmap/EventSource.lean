import Mathlib.Data.List.Induction
import Mathlib.Data.List.TakeWhile
import Lyra.Lib.Framing
import Lyra.Lib.Lines
import Lyra.Store.Schema

/-!
# The event source of JMAP

`wait_for_state_change` reads server-sent events: it buffers the bytes that arrive, cuts a frame
at every empty line and looks for data in it.  Beside it stands the standard's reading of the
same bytes; lines and fields are told apart by ASCII characters, so that both work on the bytes.

* `readerEvents_eq`: the events do not depend on the chunks;
* `right_iff`: when the events are those of the standard, at every moment of a stream;
* `waitForStateChange_chunks`: what the loop makes of the events.
-/

namespace Lyra.EventSource

open Lyra.Lib

abbrev Bytes := List UInt8

/-- The bytes of a text of ASCII characters. -/
def ascii (s : String) : Bytes := s.toList.map fun c => UInt8.ofNat c.toNat

def lf : UInt8 := 10

def cr : UInt8 := 13

def afterPrefix (start s : Bytes) : Option Bytes :=
  if start.isPrefixOf s then some (s.drop start.length) else none

/-! ## The reader -/

/-- `changed` of a `StateChange`: the states of the types of each account. -/
abbrev StateChange := List (Text × List (Text × Text))

def mailTypes : List Text := ["Email", "Mailbox", "Thread", "EmailSubmission"].map String.toList

def pushImpliesSync (change : StateChange) : Bool :=
  change.any fun account => account.2.any fun type => mailTypes.contains type.1

/-- Two line feeds in a row. -/
def findSseFrameEnd : Bytes → Option Nat
  | a :: b :: s => if a = lf ∧ b = lf then some 2 else (findSseFrameEnd (b :: s)).map (· + 1)
  | _ => none

def withoutCr (line : Bytes) : Bytes := if line.getLast? = some cr then line.dropLast else line

/-- The value of a `data:` line, without one space before it. -/
def dataValue (line : Bytes) : Option Bytes :=
  (afterPrefix (ascii "data:") line).map fun value => (afterPrefix (ascii " ") value).getD value

structure FrameRead where
  data : Bytes := []
  isPing : Bool := false

def appendData (data value : Bytes) : Bytes :=
  (if data.isEmpty then data else data ++ [lf]) ++ value

def FrameRead.read (f : FrameRead) (raw : Bytes) : FrameRead :=
  let line := withoutCr raw
  if line.isEmpty || (ascii ":").isPrefixOf line then f
  else
    match dataValue line with
    | some value => { f with data := appendData f.data value }
    | none => if line = ascii "event: ping" then { f with isPing := true } else f

/-- What `parse_sse_frame` reads as JSON. -/
def frameData (frame : Bytes) : Option Bytes :=
  let f := (frame.splitOn lf).foldl FrameRead.read {}
  if f.isPing || f.data.isEmpty then none else some f.data

theorem findSseFrameEnd_cons_cons (a b : UInt8) (s : Bytes) :
    findSseFrameEnd (a :: b :: s) =
      if a = lf ∧ b = lf then some 2 else (findSseFrameEnd (b :: s)).map (· + 1) := by
  rw [findSseFrameEnd]

theorem findSseFrameEnd_pos (s : Bytes) (n : Nat) (h : findSseFrameEnd s = some n) :
    0 < n ∧ n ≤ s.length := by
  induction s generalizing n with
  | nil => cases h
  | cons a s ih =>
    cases s with
    | nil => cases h
    | cons b s =>
      rw [findSseFrameEnd_cons_cons] at h
      split at h
      · cases h
        simp
      · obtain ⟨m, hm, rfl⟩ := Option.map_eq_some_iff.mp h
        have hle := (ih m hm).2
        simp only [List.length_cons] at hle ⊢
        omega

theorem findSseFrameEnd_append (s t : Bytes) (n : Nat) (h : findSseFrameEnd s = some n) :
    findSseFrameEnd (s ++ t) = some n := by
  induction s generalizing n with
  | nil => cases h
  | cons a s ih =>
    cases s with
    | nil => cases h
    | cons b s =>
      rw [findSseFrameEnd_cons_cons] at h
      rw [List.cons_append, List.cons_append, findSseFrameEnd_cons_cons]
      split at h
      · rename_i hlf
        rw [if_pos hlf, h]
      · rename_i hlf
        obtain ⟨m, hm, rfl⟩ := Option.map_eq_some_iff.mp h
        rw [if_neg hlf, ← List.cons_append, ih m hm]
        rfl

/-- A byte completes a frame where it is a line feed behind a line feed. -/
theorem findSseFrameEnd_snoc {s : Bytes} (b : UInt8) (h : findSseFrameEnd s = none) :
    findSseFrameEnd (s ++ [b]) =
      if s.getLast? = some lf ∧ b = lf then some (s.length + 1) else none := by
  induction s with
  | nil => rfl
  | cons a s ih =>
    cases s with
    | nil =>
      rw [List.singleton_append, findSseFrameEnd_cons_cons]
      simp [findSseFrameEnd]
    | cons c s =>
      rw [findSseFrameEnd_cons_cons] at h
      split at h
      · cases h
      · rename_i hlf
        have ih := ih (Option.map_eq_none_iff.mp h)
        rw [List.cons_append, List.cons_append, findSseFrameEnd_cons_cons, if_neg hlf,
          ← List.cons_append, ih, List.getLast?_cons_cons]
        split
        · simp
        · rfl

/-- The frames of the event stream. -/
def sse : Framer UInt8 where
  cut := findSseFrameEnd
  cut_pos := findSseFrameEnd_pos
  cut_append := findSseFrameEnd_append
  cut_snoc := by
    intro s b n hnone hsome
    rw [findSseFrameEnd_snoc b hnone] at hsome
    split at hsome
    · exact (Option.some.inj hsome).symm
    · cases hsome

section Reader

-- `serde_json::from_slice`
variable (fromSlice : Bytes → Option StateChange)

def parseSseFrame (frame : Bytes) : Option StateChange := (frameData frame).bind fromSlice

inductive EventSourceOutcome where
  | stateChanged
  | streamEnded
  deriving DecidableEq, Repr

/-- The loop of `wait_for_state_change`, over the chunks that come before the stream ends or falls
silent. -/
def waitForStateChange : Bytes → List Bytes → EventSourceOutcome
  | _, [] => .streamEnded
  | buf, chunk :: chunks =>
    let (frames, rest) := sse.drain (buf ++ chunk)
    if frames.any fun frame => (parseSseFrame fromSlice frame).any pushImpliesSync then .stateChanged
    else waitForStateChange rest chunks

end Reader

/-- The events of a stream, as the data that is read of each. -/
def readerEvents (chunks : List Bytes) : List Bytes :=
  (sse.receive [] chunks).1.filterMap frameData

/-! ## The standard -/

/-- What is known of an event before it is dispatched. -/
structure Block where
  data : List Bytes := []
  eventType : Bytes := []

/-- `id` and `retry` say nothing about the event. -/
def Block.process (block : Block) (field value : Bytes) : Block :=
  if field = ascii "event" then { block with eventType := value }
  else if field = ascii "data" then { block with data := block.data ++ [value] }
  else block

def colon : UInt8 := 58

/-- A line that is not empty. -/
def Block.read (block : Block) (line : Bytes) : Block :=
  if line.head? = some colon then block
  else
    match line.dropWhile (· ≠ colon) with
    | [] => block.process line []
    | _ :: value =>
      block.process (line.takeWhile (· ≠ colon)) ((afterPrefix (ascii " ") value).getD value)

/-- What is dispatched at an empty line, where it is no ping. -/
def Block.event (block : Block) : Option Bytes :=
  if block.data = [] ∨ block.eventType = ascii "ping" then none
  else some ([lf].intercalate block.data)

structure Decoder where
  line : Bytes := []
  afterCr : Bool := false
  block : Block := {}

/-- A line ends with a carriage return, a line feed or both. -/
def Decoder.step (d : Decoder) (b : UInt8) : Decoder × Option Bytes :=
  if b = lf ∧ d.afterCr = true then ({ d with afterCr := false }, none)
  else if b = lf ∨ b = cr then
    if d.line = [] then ({ afterCr := decide (b = cr) }, d.block.event)
    else ({ afterCr := decide (b = cr), block := d.block.read d.line }, none)
  else ({ d with line := d.line ++ [b], afterCr := false }, none)

/-- The decoder after some bytes, and the events so far. -/
def decode (s : Bytes) : Decoder × List Bytes :=
  s.foldl (fun (d, events) b => ((d.step b).1, events ++ (d.step b).2.toList)) ({}, [])

def byteOrderMark : Bytes := [0xEF, 0xBB, 0xBF]

def withoutMark (s : Bytes) : Bytes := if s.take 3 = byteOrderMark then s.drop 3 else s

def standardEvents (s : Bytes) : List Bytes := (decode (withoutMark s)).2

/-- However the bytes come, the events so far are those of the standard. -/
def Right (s : Bytes) : Prop :=
  ∀ p, p <+: s → ∀ chunks : List Bytes, chunks.flatten = p →
    readerEvents chunks = standardEvents p

/-! ## Where it holds -/

/-- What the reader has buffered. -/
def buffered (p : Bytes) : Bytes := (sse.drain p).2

/-- Where the decoder of the standard is. -/
def stateAt (p : Bytes) : Decoder := (decode (withoutMark p)).1

def frameLines (frame : Bytes) : List Bytes := (frame.splitOn lf).map withoutCr

/-- The values of the data lines of a frame. -/
def frameValues (frame : Bytes) : List Bytes := (frameLines frame).filterMap dataValue

/-- The byte ends an empty line, by the standard. -/
def EndsEmptyLine (d : Decoder) (b : UInt8) : Prop :=
  (b = lf ∧ d.afterCr = false ∨ b = cr) ∧ d.line = []

/-- The byte ends a frame of the reader. -/
def EndsFrame (buf : Bytes) (b : UInt8) : Prop := buf.getLast? = some lf ∧ b = lf

/-- Where the standard has an event, a frame of the reader ends that is no ping and has the values of
the block behind empty ones; no other frame has a value that is not empty, if it is no ping. -/
def Matches (p : Bytes) (b : UInt8) : Prop :=
  (EndsEmptyLine (stateAt p) b ∧ (stateAt p).block.data ≠ [] ∧
      (stateAt p).block.eventType ≠ ascii "ping" →
    EndsFrame (buffered p) b ∧ ascii "event: ping" ∉ frameLines (buffered p ++ [b]) ∧
      (frameValues (buffered p ++ [b])).dropWhile List.isEmpty = (stateAt p).block.data) ∧
  (¬(EndsEmptyLine (stateAt p) b ∧ (stateAt p).block.data ≠ [] ∧
      (stateAt p).block.eventType ≠ ascii "ping") →
    EndsFrame (buffered p) b → ascii "event: ping" ∈ frameLines (buffered p ++ [b]) ∨
      ∀ value ∈ frameValues (buffered p ++ [b]), value = [])

/-! ## The reader, byte by byte -/

section Bytewise

variable {p s t : Bytes} {b : UInt8} {chunks : List Bytes} {lines values : List Bytes}

theorem readerEvents_eq (chunks : List Bytes) :
    readerEvents chunks = (sse.drain chunks.flatten).1.filterMap frameData := by
  unfold readerEvents
  rw [Framer.receive_eq rfl, List.nil_append]

theorem isSome_cut_snoc (p : Bytes) (b : UInt8) :
    (sse.cut (buffered p ++ [b])).isSome = true ↔ EndsFrame (buffered p) b := by
  have hsnoc := findSseFrameEnd_snoc b (Framer.cut_drain (F := sse) p)
  show (findSseFrameEnd ((sse.drain p).2 ++ [b])).isSome = true ↔ _
  rw [hsnoc]
  unfold EndsFrame buffered
  split
  · rename_i h
    exact iff_of_true rfl h
  · rename_i h
    exact iff_of_false (by simp) h

instance (buf : Bytes) (b : UInt8) : Decidable (EndsFrame buf b) :=
  inferInstanceAs (Decidable (_ ∧ _))

instance (d : Decoder) (b : UInt8) : Decidable (EndsEmptyLine d b) :=
  inferInstanceAs (Decidable (_ ∧ _))

/-- The event that the reader has at a byte, if any. -/
def readerEvent (p : Bytes) (b : UInt8) : Option Bytes :=
  if EndsFrame (buffered p) b then frameData (buffered p ++ [b]) else none

/-- The event that the standard has at a byte, if any. -/
def standardEvent (p : Bytes) (b : UInt8) : Option Bytes :=
  if EndsEmptyLine (stateAt p) b then (stateAt p).block.event else none

theorem frames_snoc (p : Bytes) (b : UInt8) :
    (sse.drain (p ++ [b])).1.filterMap frameData =
      (sse.drain p).1.filterMap frameData ++ (readerEvent p b).toList := by
  have hcut := isSome_cut_snoc p b
  rw [Framer.drain_snoc]
  unfold readerEvent
  unfold buffered at hcut ⊢
  split
  · rename_i h
    rw [if_pos (hcut.mp h), List.filterMap_append]
    cases hdata : frameData ((sse.drain p).2 ++ [b]) <;> simp [hdata]
  · rename_i h
    rw [if_neg fun hend => h (hcut.mpr hend)]
    simp

/-! ## The standard, byte by byte -/

theorem decode_snoc (s : Bytes) (b : UInt8) :
    decode (s ++ [b]) =
      (((decode s).1.step b).1, (decode s).2 ++ ((decode s).1.step b).2.toList) := by
  unfold decode
  rw [List.foldl_append]
  rfl

theorem step_event (d : Decoder) (b : UInt8) :
    (d.step b).2 = if EndsEmptyLine d b then d.block.event else none := by
  obtain ⟨line, afterCr, block⟩ := d
  unfold Decoder.step EndsEmptyLine
  by_cases hlf : b = lf
  · subst hlf
    cases afterCr with
    | true => simp [lf, cr]
    | false =>
      by_cases hline : line = []
      · simp [hline]
      · simp [hline]
  · by_cases hcr : b = cr
    · subst hcr
      by_cases hline : line = []
      · simp [hline, lf, cr]
      · simp [hline, lf, cr]
    · simp [hlf, hcr]

/-- The mark is one of the bytes that no line ends with. -/
theorem withoutMark_snoc (p : Bytes) (b : UInt8) :
    withoutMark (p ++ [b]) = withoutMark p ++ [b] ∨ (p = [0xEF, 0xBB] ∧ b = 0xBF) := by
  unfold withoutMark byteOrderMark
  rcases p with _ | ⟨x, _ | ⟨y, _ | ⟨z, p⟩⟩⟩
  · left
    simp
  · left
    simp
  · by_cases h : x = 0xEF ∧ y = 0xBB ∧ b = 0xBF
    · obtain ⟨rfl, rfl, rfl⟩ := h
      exact Or.inr ⟨rfl, rfl⟩
    · left
      simp [h]
  · left
    simp only [List.cons_append, List.take_succ_cons, List.take_zero, List.drop_succ_cons,
      List.drop_zero]
    split <;> rfl

theorem standardEvents_snoc (p : Bytes) (b : UInt8) :
    standardEvents (p ++ [b]) = standardEvents p ++ (standardEvent p b).toList := by
  unfold standardEvents standardEvent stateAt
  rcases withoutMark_snoc p b with h | ⟨rfl, rfl⟩
  · rw [h, decode_snoc, step_event]
  · decide

theorem right_iff_steps (s : Bytes) :
    Right s ↔ ∀ p b, p ++ [b] <+: s → readerEvent p b = standardEvent p b := by
  constructor
  · intro h p b hp
    have hbefore := h p ((List.prefix_append p [b]).trans hp) [p] (by simp)
    have hafter := h (p ++ [b]) hp [p ++ [b]] (by simp)
    rw [readerEvents_eq, List.flatten_singleton] at hbefore hafter
    rw [frames_snoc, standardEvents_snoc, hbefore, List.append_cancel_left_eq] at hafter
    revert hafter
    cases readerEvent p b <;> cases standardEvent p b <;> simp
  · intro h p hp chunks hchunks
    rw [readerEvents_eq, hchunks]
    clear hchunks
    induction p using List.reverseRecOn with
    | nil =>
      rw [Framer.drain_none (F := sse) rfl]
      rfl
    | append_singleton p b ih =>
      rw [frames_snoc, standardEvents_snoc, ih ((List.prefix_append p [b]).trans hp), h p b hp]

/-! ## One frame and one block -/

theorem dataValue_eq_none (h : ¬(ascii "data:").isPrefixOf p = true) : dataValue p = none := by
  unfold dataValue afterPrefix
  rw [if_neg h]
  rfl

/-- What one line does. -/
theorem read_eq (f : FrameRead) (raw : Bytes) :
    f.read raw = ⟨(dataValue (withoutCr raw)).elim f.data (appendData f.data),
      f.isPing || decide (withoutCr raw = ascii "event: ping")⟩ := by
  unfold FrameRead.read
  generalize withoutCr raw = line
  by_cases hskip : (line.isEmpty || (ascii ":").isPrefixOf line) = true
  · have hnone : dataValue line = none ∧ line ≠ ascii "event: ping" := by
      cases line with
      | nil => exact ⟨rfl, by decide⟩
      | cons x line =>
        have hcolon : (58 == x && true) = true := hskip
        obtain rfl : 58 = x := by simpa using hcolon
        refine ⟨dataValue_eq_none (by simp [ascii, List.isPrefixOf]), fun h => ?_⟩
        have hhead : some (58 : UInt8) = some 101 := congrArg List.head? h
        exact absurd hhead (by decide)
    simp [hskip, hnone.1, hnone.2]
  · simp only [hskip, Bool.false_eq_true, if_false]
    cases hvalue : dataValue line with
    | none =>
      by_cases hping : line = ascii "event: ping"
      · rw [decide_eq_true hping, Bool.or_true]
        exact if_pos hping
      · rw [decide_eq_false hping, Bool.or_false]
        exact if_neg hping
    | some value =>
      have hping : line ≠ ascii "event: ping" := by
        rintro rfl
        rw [dataValue_eq_none (by decide)] at hvalue
        cases hvalue
      simp [hping]

theorem foldl_read (f : FrameRead) (lines : List Bytes) :
    lines.foldl FrameRead.read f =
      ⟨((lines.map withoutCr).filterMap dataValue).foldl appendData f.data,
        f.isPing || decide (ascii "event: ping" ∈ lines.map withoutCr)⟩ := by
  induction lines generalizing f with
  | nil => simp
  | cons raw lines ih =>
    rw [List.foldl_cons, ih, read_eq, List.map_cons, List.filterMap_cons]
    have hping : decide (ascii "event: ping" ∈ withoutCr raw :: lines.map withoutCr) =
        (decide (withoutCr raw = ascii "event: ping") ||
          decide (ascii "event: ping" ∈ lines.map withoutCr)) := by
      simp [List.mem_cons, eq_comm]
    rw [hping, ← Bool.or_assoc]
    cases dataValue (withoutCr raw) <;> rfl

theorem foldl_appendData (data : Bytes) (hdata : data ≠ []) (values : List Bytes) :
    values.foldl appendData data = data ++ values.flatMap fun value => lf :: value := by
  induction values generalizing data with
  | nil => simp
  | cons value values ih =>
    have hne : (data.isEmpty) = false := by simpa using hdata
    rw [List.foldl_cons, ih _ (by simp [appendData, hne]), List.flatMap_cons]
    simp [appendData, hne]

theorem intercalate_cons (value : Bytes) (values : List Bytes) :
    [lf].intercalate (value :: values) = value ++ values.flatMap fun value => lf :: value := by
  induction values generalizing value with
  | nil => simp
  | cons next values ih =>
    rw [List.intercalate_cons_cons, ih, List.flatMap_cons]
    simp

theorem foldl_appendData_nil (values : List Bytes) :
    values.foldl appendData [] = [lf].intercalate (values.dropWhile List.isEmpty) := by
  induction values with
  | nil => rfl
  | cons value values ih =>
    cases value with
    | nil =>
      rw [List.foldl_cons]
      exact ih
    | cons x value =>
      have hfirst : appendData [] (x :: value) = x :: value := rfl
      rw [List.foldl_cons, hfirst, foldl_appendData _ (by simp), List.dropWhile_cons_of_neg (by simp),
        intercalate_cons]

theorem intercalate_eq_nil (hfirst : ∀ value ∈ values.head?, value ≠ []) :
    [lf].intercalate values = [] ↔ values = [] := by
  cases values with
  | nil => simp
  | cons value values =>
    have hvalue := hfirst value rfl
    rw [intercalate_cons]
    simp [hvalue]

theorem head_dropWhile_isEmpty (values : List Bytes) :
    ∀ value ∈ (values.dropWhile List.isEmpty).head?, value ≠ [] := by
  intro value hvalue
  have hhead := List.head?_dropWhile_not List.isEmpty values
  rw [Option.mem_def.mp hvalue] at hhead
  simpa using hhead

/-- What is read of a frame: its values behind empty ones, where it is no ping. -/
theorem frameData_eq (frame : Bytes) :
    frameData frame = if ascii "event: ping" ∈ frameLines frame ∨
        (frameValues frame).dropWhile List.isEmpty = [] then none
      else some ([lf].intercalate ((frameValues frame).dropWhile List.isEmpty)) := by
  have hdata := foldl_appendData_nil (frameValues frame)
  have hnil := intercalate_eq_nil (head_dropWhile_isEmpty (frameValues frame))
  unfold frameData
  rw [foldl_read]
  show (if (false || decide (ascii "event: ping" ∈ frameLines frame) ||
      ((frameValues frame).foldl appendData []).isEmpty) = true then none
    else some ((frameValues frame).foldl appendData [])) = _
  rw [hdata]
  by_cases hping : ascii "event: ping" ∈ frameLines frame
  · simp [hping]
  · by_cases hempty : (frameValues frame).dropWhile List.isEmpty = []
    · simp [hempty]
    · simp [hping, hempty, hnil]

theorem dropWhile_isEmpty_eq_nil : values.dropWhile List.isEmpty = [] ↔ ∀ v ∈ values, v = [] := by
  rw [List.dropWhile_eq_nil_iff]
  simp

/-! ## No line feed is inside a value -/

theorem lf_not_mem_afterPrefix {start v : Bytes} (h : afterPrefix start s = some v)
    (hs : lf ∉ s) : lf ∉ v := by
  unfold afterPrefix at h
  split at h
  · cases h
    exact fun hmem => hs (List.mem_of_mem_drop hmem)
  · cases h

theorem lf_not_mem_getD (hs : lf ∉ s) : lf ∉ (afterPrefix (ascii " ") s).getD s := by
  cases h : afterPrefix (ascii " ") s with
  | none => exact hs
  | some v => exact lf_not_mem_afterPrefix h hs

theorem lf_not_mem_frameValues (frame : Bytes) : ∀ value ∈ frameValues frame, lf ∉ value := by
  intro value hvalue
  obtain ⟨line, hline, hread⟩ := List.mem_filterMap.mp hvalue
  obtain ⟨raw, hraw, rfl⟩ := List.mem_map.mp hline
  have hrawlf : lf ∉ raw := by
    intro hmem
    have := mem_splitOnP hraw lf hmem
    simp at this
  have hlinelf : lf ∉ withoutCr raw := by
    unfold withoutCr
    split
    · exact fun hmem => hrawlf (List.dropLast_subset _ hmem)
    · exact hrawlf
  obtain ⟨v, hv, rfl⟩ := Option.map_eq_some_iff.mp hread
  exact lf_not_mem_getD (lf_not_mem_afterPrefix hv hlinelf)

/-- The lines and the values of the standard have no line feeds. -/
structure Decoder.NoLineFeed (d : Decoder) : Prop where
  line : lf ∉ d.line
  data : ∀ value ∈ d.block.data, lf ∉ value

theorem noLineFeed_process {block : Block} {field v : Bytes}
    (hblock : ∀ value ∈ block.data, lf ∉ value) (hv : lf ∉ v) :
    ∀ value ∈ (block.process field v).data, lf ∉ value := by
  unfold Block.process
  split
  · exact hblock
  · split
    · intro value hvalue
      rcases List.mem_append.mp hvalue with h | h
      · exact hblock value h
      · rwa [List.mem_singleton.mp h]
    · exact hblock

theorem noLineFeed_read {block : Block} {line : Bytes} (hline : lf ∉ line)
    (hblock : ∀ value ∈ block.data, lf ∉ value) : ∀ value ∈ (block.read line).data, lf ∉ value := by
  unfold Block.read
  split
  · exact hblock
  · split
    · exact noLineFeed_process hblock (by simp)
    · rename_i x value hrest
      refine noLineFeed_process hblock (lf_not_mem_getD fun hmem => hline ?_)
      have : lf ∈ line.dropWhile (· ≠ colon) := by
        rw [hrest]
        exact List.mem_cons_of_mem _ hmem
      exact (List.dropWhile_sublist _).subset this

theorem noLineFeed_step {d : Decoder} (h : d.NoLineFeed) (b : UInt8) : (d.step b).1.NoLineFeed := by
  unfold Decoder.step
  split
  · exact ⟨h.line, h.data⟩
  · split
    · split
      · exact ⟨by simp, by simp⟩
      · exact ⟨by simp, noLineFeed_read h.line h.data⟩
    · rename_i hend
      refine ⟨fun hmem => ?_, h.data⟩
      rcases List.mem_append.mp hmem with hmem | hmem
      · exact h.line hmem
      · exact hend (Or.inl (List.mem_singleton.mp hmem).symm)

theorem noLineFeed_decode (s : Bytes) : (decode s).1.NoLineFeed := by
  induction s using List.reverseRecOn with
  | nil => exact ⟨by simp [decode], by simp [decode]⟩
  | append_singleton s b ih =>
    rw [decode_snoc]
    exact noLineFeed_step ih b

/-! ## When the events are right -/

theorem intercalate_inj {ws : List Bytes} (hvalues : ∀ v ∈ values, lf ∉ v) (hws : ∀ w ∈ ws, lf ∉ w)
    (hne : values ≠ []) (hne' : ws ≠ []) (h : [lf].intercalate values = [lf].intercalate ws) :
    values = ws := by
  have := congrArg (List.splitOn lf) h
  rwa [List.splitOn_intercalate _ hvalues hne, List.splitOn_intercalate _ hws hne'] at this

/-- The events at a byte are the same exactly where the frame and the block match. -/
theorem matches_iff (p : Bytes) (b : UInt8) :
    Matches p b ↔ readerEvent p b = standardEvent p b := by
  have hblock := (noLineFeed_decode (withoutMark p)).data
  have hframe : ∀ v ∈ (frameValues (buffered p ++ [b])).dropWhile List.isEmpty, lf ∉ v :=
    fun v hv => lf_not_mem_frameValues _ v ((List.dropWhile_sublist _).subset hv)
  unfold Matches
  by_cases hevent : EndsEmptyLine (stateAt p) b ∧ (stateAt p).block.data ≠ [] ∧
    (stateAt p).block.eventType ≠ ascii "ping"
  · -- the standard has an event
    have hstandard : standardEvent p b = some ([lf].intercalate (stateAt p).block.data) := by
      unfold standardEvent Block.event
      rw [if_pos hevent.1, if_neg (by simp [hevent.2])]
    rw [hstandard]
    simp only [hevent, true_implies, not_true, false_implies, and_true, ne_eq, not_false_eq_true]
    unfold readerEvent
    rw [frameData_eq]
    constructor
    · rintro ⟨hend, hping, hvalues⟩
      rw [if_pos hend, if_neg (by simp [hping, hvalues, hevent.2.1]), hvalues]
    · intro h
      split at h
      · rename_i hend
        split at h
        · cases h
        · rename_i hdata
          simp only [not_or] at hdata
          exact ⟨hend, hdata.1, intercalate_inj hframe hblock hdata.2 hevent.2.1
            (Option.some.inj h)⟩
      · cases h
  · -- it has none
    have hstandard : standardEvent p b = none := by
      unfold standardEvent Block.event
      split
      · rename_i hend
        rw [if_pos]
        by_contra hcon
        simp only [not_or] at hcon
        exact hevent ⟨hend, hcon⟩
      · rfl
    rw [hstandard]
    simp only [hevent, false_implies, not_false_eq_true, true_implies, true_and]
    unfold readerEvent
    rw [frameData_eq]
    simp only [dropWhile_isEmpty_eq_nil]
    constructor
    · intro h
      split
      · rename_i hend
        rw [if_pos (h hend)]
      · rfl
    · intro h hend
      rw [if_pos hend] at h
      split at h
      · assumption
      · cases h

end Bytewise

/-- At every moment of a stream the events are those of the standard exactly where, at every byte, the
reader's frame and the standard's block match. -/
theorem right_iff (s : Bytes) : Right s ↔ ∀ p b, p ++ [b] <+: s → Matches p b := by
  rw [right_iff_steps]
  exact forall_congr' fun p => forall_congr' fun b => imp_congr_right fun _ =>
    (matches_iff p b).symm

/-- An event with carriage returns at its line ends is not noticed. -/
theorem not_right_crlf : ¬Right (ascii "data: x\r\n\r\n") := by
  intro h
  have hevents := h _ (List.prefix_refl _) [ascii "data: x\r\n\r\n"] (by decide)
  rw [readerEvents_eq, Framer.drain_none (by decide)] at hevents
  revert hevents
  decide

/-! ## The loop -/

theorem any_parseSseFrame (fromSlice : Bytes → Option StateChange) (frames : List Bytes) :
    (frames.any fun frame => (parseSseFrame fromSlice frame).any pushImpliesSync) =
      (frames.filterMap frameData).any fun data => (fromSlice data).any pushImpliesSync := by
  induction frames with
  | nil => rfl
  | cons frame frames ih =>
    rw [List.any_cons, ih, List.filterMap_cons]
    unfold parseSseFrame
    cases frameData frame with
    | none => rfl
    | some data => rfl

/-- The loop ends with a change where one of the events is a change of the mail. -/
theorem waitForStateChange_eq (fromSlice : Bytes → Option StateChange) (buf : Bytes)
    (chunks : List Bytes) :
    waitForStateChange fromSlice buf chunks =
      if ((sse.receive buf chunks).1.filterMap frameData).any fun data =>
        (fromSlice data).any pushImpliesSync then .stateChanged else .streamEnded := by
  induction chunks generalizing buf with
  | nil => rfl
  | cons chunk chunks ih =>
    rw [waitForStateChange, Framer.receive]
    rcases hdrain : sse.drain (buf ++ chunk) with ⟨frames, rest⟩
    rcases hlater : sse.receive rest chunks with ⟨later, last⟩
    simp only [any_parseSseFrame, ih, hlater, List.filterMap_append, List.any_append]
    cases (frames.filterMap frameData).any fun data => (fromSlice data).any pushImpliesSync with
    | false => simp
    | true => simp

/-- However a stream is cut into chunks, the loop ends with a change where one of its frames has
got one. -/
theorem waitForStateChange_chunks (fromSlice : Bytes → Option StateChange) (chunks : List Bytes) :
    waitForStateChange fromSlice [] chunks =
      if ((sse.drain chunks.flatten).1.filterMap frameData).any fun data =>
        (fromSlice data).any pushImpliesSync then .stateChanged else .streamEnded := by
  rw [waitForStateChange_eq, Framer.receive_eq rfl, List.nil_append]

end Lyra.EventSource
