import Mathlib.Data.List.Destutter
import Lyra.Imap.FolderPass
import Lyra.Lib.Fallible

/-!
# Fetching metadata in chunks

`fetch_metadata` asks for the UIDs chunk by chunk; when an attempt fails it reconnects and asks
for the same chunk again.

* `fetchMetadata`: the function, over any connection;
* `Link.logged`: a connection that notes what was exchanged;
* `mem_formatUidSet`: the set sent for a chunk is the chunk;
* `fetchMetadata_chunked`: what is exchanged and returned, for every connection.
-/

namespace Lyra

open Lyra.Lib

/-! ## The UID set of a request -/

/-- The loop of `format_uid_set`: the range being built, and the UIDs to come. -/
def uidRanges : Nat → Nat → List Nat → List (Nat × Nat)
  | start, stop, [] => [(start, stop)]
  | start, stop, uid :: rest =>
    if uid = stop + 1 then uidRanges start uid rest
    else (start, stop) :: uidRanges uid uid rest

/-- `format_uid_set`, with its parts as ranges. -/
def formatUidSet (uids : List Uid) : List (Uid × Uid) :=
  match (uids.mergeSort (fun a b => decide (a ≤ b))).destutter (· ≠ ·) with
  | [] => []
  | uid :: rest => uidRanges uid uid rest

/-! ## The client -/

/-- A connection in a state of type `σ`: an error of a fetch leaves no messages. -/
structure Link (σ ε μ : Type) where
  uidFetch : List (Uid × Uid) → Fallible σ ε (List μ)
  /-- Log in again and select the mailbox. -/
  reconnect : Fallible σ ε Unit

variable {σ ε μ : Type}

def fetchMetadataOnce (link : Link σ ε μ) (uids : List Uid) : Fallible σ ε (List μ) :=
  if uids.isEmpty then pure [] else link.uidFetch (formatUidSet uids)

def maxRetriesPerChunk : Nat := 3

/-- The loop of `fetch_metadata`. -/
def fetchChunks (link : Link σ ε μ) (chunks : List (List Uid)) (idx retries : Nat) (out : List μ)
    (s : σ) : Except ε (List μ) × σ :=
  if h : idx < chunks.length then
    match (fetchMetadataOnce link chunks[idx]).outcome s with
    | (.ok msgs, s) => fetchChunks link chunks (idx + 1) 0 (out ++ msgs) s
    | (.error err, s) =>
      if maxRetriesPerChunk < retries + 1 then (.error err, s)
      else
        match link.reconnect.outcome s with
        | (.ok (), s) => fetchChunks link chunks idx (retries + 1) out s
        | (.error err, s) => (.error err, s)
  else (.ok out, s)
termination_by (chunks.length - idx, maxRetriesPerChunk + 1 - retries)
decreasing_by
  · exact Prod.Lex.left _ _ (by omega)
  · exact Prod.Lex.right _ (by omega)

def fetchMetadata (link : Link σ ε μ) (uids : List Uid) : Fallible σ ε (List μ) :=
  if uids.length ≤ metadataChunk then fetchMetadataOnce link uids
  else fetchChunks link (chunks metadataChunk uids) 0 0 []

/-! ## The set is the chunk -/

def InRanges (ranges : List (Uid × Uid)) (u : Uid) : Prop := ∃ r ∈ ranges, r.1 ≤ u ∧ u ≤ r.2

theorem inRanges_uidRanges {start stop : Nat} (hle : start ≤ stop) (rest : List Nat) (u : Nat) :
    InRanges (uidRanges start stop rest) u ↔ (start ≤ u ∧ u ≤ stop) ∨ u ∈ rest := by
  induction rest generalizing start stop with
  | nil => simp [uidRanges, InRanges]
  | cons uid rest ih =>
    unfold uidRanges
    split
    case isTrue hnext =>
      rw [ih (by omega)]
      simp only [List.mem_cons]
      constructor
      · rintro (h | h)
        · by_cases hu : u = uid
          · exact .inr (.inl hu)
          · exact .inl ⟨h.1, by omega⟩
        · exact .inr (.inr h)
      · rintro (h | rfl | h)
        · exact .inl ⟨h.1, by omega⟩
        · exact .inl ⟨by omega, Nat.le_refl _⟩
        · exact .inr h
    case isFalse =>
      have hih := ih (Nat.le_refl uid)
      simp only [InRanges, List.mem_cons, exists_eq_or_imp] at hih ⊢
      rw [hih]
      have huid : uid ≤ u ∧ u ≤ uid ↔ u = uid := by omega
      rw [huid]

theorem mem_destutter' (a : Uid) (l : List Uid) (u : Uid) :
    u ∈ l.destutter' (· ≠ ·) a ↔ u ∈ a :: l := by
  induction l generalizing a with
  | nil => rfl
  | cons b l ih =>
    unfold List.destutter'
    split
    case isTrue => rw [List.mem_cons, ih, List.mem_cons (a := u) (b := a)]
    case isFalse heq =>
      rw [ih]
      simp [not_not.mp heq]

/-- The set sent for a chunk names its UIDs and no others. -/
theorem mem_formatUidSet (uids : List Nat) (u : Nat) : InRanges (formatUidSet uids) u ↔ u ∈ uids := by
  have hsort : u ∈ uids.mergeSort (fun a b => decide (a ≤ b)) ↔ u ∈ uids := List.mem_mergeSort
  rw [← hsort]
  unfold formatUidSet
  cases (uids.mergeSort fun a b => decide (a ≤ b)) with
  | nil => simp [InRanges]
  | cons first sorted =>
    rw [← mem_destutter' first sorted]
    show InRanges (match sorted.destutter' (· ≠ ·) first with
      | [] => []
      | uid :: rest => uidRanges uid uid rest) u ↔ u ∈ sorted.destutter' (· ≠ ·) first
    cases sorted.destutter' (· ≠ ·) first with
    | nil => simp [InRanges]
    | cons uid rest =>
      rw [inRanges_uidRanges (Nat.le_refl _), List.mem_cons]
      have huid : uid ≤ u ∧ u ≤ uid ↔ u = uid := by omega
      rw [huid]

/-! ## What is exchanged -/

/-- An exchange with the server, and its answer. -/
inductive Exchange (ε μ : Type)
  | fetch (set : List (Uid × Uid)) (answer : Except ε (List μ))
  | reconnect (answer : Except ε Unit)

/-- The connection, noting its exchanges. -/
def Link.logged (link : Link σ ε μ) : Link (σ × List (Exchange ε μ)) ε μ where
  uidFetch set := fun (s, log) =>
    match link.uidFetch set |>.outcome s with
    | (answer, t) => (answer, t, log ++ [.fetch set answer])
  reconnect := fun (s, log) =>
    match link.reconnect.outcome s with
    | (answer, t) => (answer, t, log ++ [.reconnect answer])

/-- Attempts for a chunk that failed, after each of which a reconnect worked. -/
def failedAttempts (chunk : List Uid) (errors : List ε) : List (Exchange ε μ) :=
  errors.flatMap fun err => [.fetch (formatUidSet chunk) (.error err), .reconnect (.ok ())]

/-- The attempts for one chunk: the errors of the failed ones, and the messages of the last. -/
structure Round (ε μ : Type) where
  errors : List ε
  messages : List μ

/-- All that is exchanged for a chunk. -/
def Round.exchanges (r : Round ε μ) (chunk : List Uid) : List (Exchange ε μ) :=
  failedAttempts chunk r.errors ++ [.fetch (formatUidSet chunk) (.ok r.messages)]

/-- All that is exchanged for the chunks of the rounds. -/
def exchanges (chunks : List (List Uid)) (rounds : List (Round ε μ)) : List (Exchange ε μ) :=
  (List.zipWith (fun c r => Round.exchanges r c) chunks rounds).flatten

/-- The last exchanges of a call that gives up with `err`: a fetch, or a reconnect after it. -/
inductive GivesUp (chunk : List Uid) (err : ε) : List (Exchange ε μ) → Prop
  | fetch : GivesUp chunk err [.fetch (formatUidSet chunk) (.error err)]
  | reconnect (first : ε) :
    GivesUp chunk err [.fetch (formatUidSet chunk) (.error first), .reconnect (.error err)]

/-- What a call exchanges and returns, chunk by chunk. -/
inductive Chunked (chunks : List (List Uid)) :
    Except ε (List μ) → List (Exchange ε μ) → Prop
  /-- One successful fetch for each chunk. -/
  | ok (rounds : List (Round ε μ)) : rounds.length = chunks.length →
    (∀ r ∈ rounds, r.errors.length ≤ maxRetriesPerChunk) →
    Chunked chunks (.ok (rounds.map Round.messages).flatten) (exchanges chunks rounds)
  /-- The chunk after the rounds fails, and nothing is asked after it. -/
  | error (rounds : List (Round ε μ)) (chunk : List Uid) (errors : List ε) (err : ε)
    (last : List (Exchange ε μ)) : chunks[rounds.length]? = some chunk →
    (∀ r ∈ rounds, r.errors.length ≤ maxRetriesPerChunk) →
    errors.length ≤ maxRetriesPerChunk → GivesUp chunk err last →
    Chunked chunks (.error err) (exchanges chunks rounds ++ failedAttempts chunk errors ++ last)

theorem outcome_fetchMetadataOnce (link : Link σ ε μ) {chunk : List Uid} (hne : chunk ≠ [])
    {s t : σ × List (Exchange ε μ)} {answer : Except ε (List μ)}
    (h : (fetchMetadataOnce link.logged chunk).outcome s = (answer, t)) :
    t.2 = s.2 ++ [.fetch (formatUidSet chunk) answer] := by
  have hempty : chunk.isEmpty = false := List.isEmpty_eq_false_iff.mpr hne
  rw [fetchMetadataOnce, if_neg (by simp [hempty])] at h
  cases h
  rfl

theorem outcome_reconnect (link : Link σ ε μ) {s t : σ × List (Exchange ε μ)}
    {answer : Except ε Unit} (h : link.logged.reconnect.outcome s = (answer, t)) :
    t.2 = s.2 ++ [.reconnect answer] := by
  cases h
  rfl

theorem exchanges_concat {chunks : List (List Uid)} {rounds : List (Round ε μ)}
    (hlt : rounds.length < chunks.length) (r : Round ε μ) :
    exchanges chunks (rounds ++ [r]) =
      exchanges chunks rounds ++ r.exchanges chunks[rounds.length] := by
  induction rounds generalizing chunks with
  | nil =>
    cases chunks with
    | nil => simp at hlt
    | cons c chunks => simp [exchanges]
  | cons first rounds ih =>
    cases chunks with
    | nil => simp at hlt
    | cons c chunks =>
      have hih := ih (by simpa using hlt : rounds.length < chunks.length)
      simp only [exchanges] at hih ⊢
      simp [hih]

theorem failedAttempts_concat (chunk : List Uid) (errors : List ε) (err : ε) :
    failedAttempts (μ := μ) chunk (errors ++ [err]) = failedAttempts chunk errors ++
      [.fetch (formatUidSet chunk) (.error err), .reconnect (.ok ())] := by
  simp [failedAttempts]

/-- The invariant of the loop: what was exchanged since the call are the finished rounds, and the
failed attempts for the current chunk. -/
theorem fetchChunks_chunked (link : Link σ ε μ) {chunks : List (List Uid)}
    (hne : ∀ c ∈ chunks, c ≠ []) (before : List (Exchange ε μ)) (idx retries : Nat) (out : List μ)
    (s : σ × List (Exchange ε μ)) (rounds : List (Round ε μ)) (errors : List ε)
    (hidx : rounds.length = idx) (hretries : errors.length = retries)
    (hout : out = (rounds.map Round.messages).flatten)
    (hrounds : ∀ r ∈ rounds, r.errors.length ≤ maxRetriesPerChunk)
    (hle : retries ≤ maxRetriesPerChunk)
    (hend : idx ≤ chunks.length ∧ (chunks.length ≤ idx → errors = []))
    (hlog : s.2 = before ++ exchanges chunks rounds ++ failedAttempts (chunks.getD idx []) errors) :
    ∃ log, (fetchChunks link.logged chunks idx retries out s).2.2 = before ++ log ∧
      Chunked chunks (fetchChunks link.logged chunks idx retries out s).1 log := by
  fun_induction fetchChunks link.logged chunks idx retries out s generalizing rounds errors with
  | case1 idx retries out s hlt msgs t hfetch ih =>
    have hchunk : chunks.getD idx [] = chunks[idx] := by simp [hlt]
    rw [hchunk] at hlog
    have ht := outcome_fetchMetadataOnce link (hne _ (List.getElem_mem hlt)) hfetch
    subst hidx
    refine ih (rounds ++ [⟨errors, msgs⟩]) [] (by simp) rfl (by simp [hout]) ?_ (Nat.zero_le _)
      ⟨hlt, fun _ => rfl⟩ ?_
    · intro r hr
      rcases List.mem_append.mp hr with hr | hr
      · exact hrounds r hr
      · rw [List.mem_singleton.mp hr]
        exact hretries ▸ hle
    · rw [ht, hlog, exchanges_concat hlt]
      simp [Round.exchanges, failedAttempts]
  | case2 idx retries out s hlt err t hfetch hmax =>
    have hchunk : chunks.getD idx [] = chunks[idx] := by simp [hlt]
    rw [hchunk] at hlog
    have ht := outcome_fetchMetadataOnce link (hne _ (List.getElem_mem hlt)) hfetch
    refine ⟨exchanges chunks rounds ++ failedAttempts chunks[idx] errors ++
      [.fetch (formatUidSet chunks[idx]) (.error err)], by simp [ht, hlog], ?_⟩
    exact .error rounds chunks[idx] errors err _ (by simp [hidx, hlt]) hrounds (hretries ▸ hle)
      .fetch
  | case3 idx retries out s hlt err t hfetch hmax u hreconnect ih =>
    have hchunk : chunks.getD idx [] = chunks[idx] := by simp [hlt]
    rw [hchunk] at hlog
    have ht := outcome_fetchMetadataOnce link (hne _ (List.getElem_mem hlt)) hfetch
    have hu := outcome_reconnect link hreconnect
    refine ih rounds (errors ++ [err]) hidx (by simp [hretries]) hout hrounds (by omega)
      ⟨by omega, fun h => absurd hlt (by omega)⟩ ?_
    rw [hu, ht, hlog, hchunk, failedAttempts_concat]
    simp
  | case4 idx retries out s hlt err t hfetch hmax err' u hreconnect =>
    have hchunk : chunks.getD idx [] = chunks[idx] := by simp [hlt]
    rw [hchunk] at hlog
    have ht := outcome_fetchMetadataOnce link (hne _ (List.getElem_mem hlt)) hfetch
    have hu := outcome_reconnect link hreconnect
    refine ⟨exchanges chunks rounds ++ failedAttempts chunks[idx] errors ++
      [.fetch (formatUidSet chunks[idx]) (.error err), .reconnect (.error err')],
      by simp [hu, ht, hlog], ?_⟩
    exact .error rounds chunks[idx] errors err' _ (by simp [hidx, hlt]) hrounds (hretries ▸ hle)
      (.reconnect err)
  | case5 idx retries out s hge =>
    have herrors : errors = [] := hend.2 (by omega)
    refine ⟨exchanges chunks rounds, by simp [hlog, herrors, failedAttempts], ?_⟩
    rw [hout]
    exact .ok rounds (by omega) hrounds

/-- A call that needs one request at most makes one attempt. -/
theorem fetchMetadataOnce_chunked (link : Link σ ε μ) (uids : List Uid)
    (hle : uids.length ≤ metadataChunk) (s : σ × List (Exchange ε μ)) :
    ∃ log, ((fetchMetadataOnce link.logged uids).outcome s).2.2 = s.2 ++ log ∧
      Chunked (chunks metadataChunk uids) ((fetchMetadataOnce link.logged uids).outcome s).1 log := by
  by_cases hnil : uids = []
  · subst hnil
    refine ⟨[], by simp [fetchMetadataOnce], ?_⟩
    exact .ok [] rfl (by simp)
  · have hchunks : chunks metadataChunk uids = [uids] := by
      rw [chunks_eq_cons _ (by decide) _ hnil, List.take_of_length_le hle,
        List.drop_eq_nil_iff.mpr hle, chunks_nil]
    rcases hcall : (fetchMetadataOnce link.logged uids).outcome s with ⟨answer, t⟩
    refine ⟨[.fetch (formatUidSet uids) answer], outcome_fetchMetadataOnce link hnil hcall, ?_⟩
    rw [hchunks]
    cases answer with
    | ok msgs =>
      have hok := Chunked.ok (ε := ε) [⟨[], msgs⟩] (by simp : _ = [uids].length) (by simp)
      simpa [exchanges, Round.exchanges, failedAttempts] using hok
    | error err =>
      have herror := Chunked.error [] uids [] err _ (by simp : [uids][0]? = _) (by simp) (by simp)
        (GivesUp.fetch (μ := μ))
      simpa [exchanges, failedAttempts] using herror

/-- Every position of the list is in one of the chunks, and every UID listed once is. -/
structure Partition (uids : List Uid) (cs : List (List Uid)) : Prop where
  flatten : cs.flatten = uids
  position : ∀ i, i < uids.length → ∃! j, metadataChunk * j ≤ i ∧ ∃ chunk, cs[j]? = some chunk ∧
    chunk[i - metadataChunk * j]? = uids[i]? ∧ i - metadataChunk * j < chunk.length
  member : uids.Nodup → ∀ u ∈ uids, ∃! j : Nat, ∃ c, cs[j]? = some c ∧ u ∈ c

theorem partition_chunks (uids : List Uid) : Partition uids (chunks metadataChunk uids) where
  flatten := flatten_chunks _ (by decide) uids
  position i hi := existsUnique_chunk _ (by decide) uids hi
  member hnodup u hu := by
    have hpos := List.idxOf_lt_length_of_mem hu
    have hdiv : metadataChunk * (uids.idxOf u / metadataChunk) + uids.idxOf u % metadataChunk =
      uids.idxOf u := Nat.div_add_mod _ _
    have hmod : uids.idxOf u % metadataChunk < metadataChunk := Nat.mod_lt _ (by decide)
    refine ⟨uids.idxOf u / metadataChunk,
      ⟨(uids.drop (metadataChunk * (uids.idxOf u / metadataChunk))).take metadataChunk, ?_, ?_⟩, ?_⟩
    · rw [getElem?_chunks _ (by decide), if_pos (by omega)]
    · exact (mem_take_drop_iff_idxOf hnodup _ _ u).mpr ⟨hu, by omega, by omega⟩
    · rintro j ⟨c, hc, huc⟩
      rw [getElem?_chunks _ (by decide)] at hc
      split at hc
      case isTrue =>
        cases hc
        obtain ⟨-, hlow, hhigh⟩ := (mem_take_drop_iff_idxOf hnodup _ _ u).mp huc
        simp only [metadataChunk] at hlow hhigh ⊢
        omega
      case isFalse => cases hc

/-- Whatever the connection does, a call is chunked: it ends, a result is made of one successful
fetch for each chunk, no chunk is tried more than four times, and nothing follows an error. -/
theorem fetchMetadata_chunked (link : Link σ ε μ) (uids : List Uid)
    (s : σ × List (Exchange ε μ)) :
    Partition uids (chunks metadataChunk uids) ∧
    (∀ c ∈ chunks metadataChunk uids, ∀ u, InRanges (formatUidSet c) u ↔ u ∈ c) ∧
    ∃ log, ((fetchMetadata link.logged uids).outcome s).2.2 = s.2 ++ log ∧
      Chunked (chunks metadataChunk uids) ((fetchMetadata link.logged uids).outcome s).1 log := by
  refine ⟨partition_chunks uids, fun c _ => mem_formatUidSet c, ?_⟩
  unfold fetchMetadata
  split
  case isTrue hle => exact fetchMetadataOnce_chunked link uids hle s
  case isFalse =>
    exact fetchChunks_chunked link (ne_nil_of_mem_chunks _ (by decide) uids) s.2 0 0 [] s [] [] rfl
      rfl rfl (by simp) (Nat.zero_le _) ⟨Nat.zero_le _, fun _ => rfl⟩
      (by simp [exchanges, failedAttempts])

end Lyra
