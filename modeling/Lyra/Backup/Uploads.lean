import Lyra.Store.Kv
import Lyra.Store.Schema
import Lyra.Lib.Requests
import Lyra.Lib.Journal

/-!
# The upload and artifact registries

`backup/upload.rs` and `backup/artifacts.rs`: two values of the key-value store that every
operation loads, changes and saves as a whole, with the staging file written in between.  One
user; a call may fail, with or without having had its effect.

Beside the state stands a journal of the updates whose save took effect.
-/

namespace Lyra.Uploads

open Lyra.Lib

/-! ## Registries -/

/-- Upload ids are fresh UUIDs. -/
abbrev UploadId := Nat

structure UploadMeta where
  /-- The length of each chunk; 0 means not received. -/
  chunkSizes : List Nat
  createdAt : Nat
  deriving DecidableEq, Repr

abbrev UploadMap := UploadId → Option UploadMeta

structure ArtifactMeta where
  id : Text
  filename : Text
  sizeBytes : Nat
  createdAt : Nat
  deriving DecidableEq, Repr

def chunkSize : Nat := 8 * 1024 * 1024

def maxChunks : Nat := 512

def uploadTtlSecs : Nat := 24 * 3600

def staleUploadAge : Nat := 24 * 3600

def UploadMeta.size (m : UploadMeta) (n : Nat) : Nat := m.chunkSizes.getD n 0

/-- `resize` where the list is too short, and the assignment. -/
def UploadMeta.setChunk (m : UploadMeta) (n size : Nat) : UploadMeta :=
  let resized := if m.chunkSizes.length ≤ n then
      m.chunkSizes ++ List.replicate (n + 1 - m.chunkSizes.length) 0
    else m.chunkSizes
  { m with chunkSizes := resized.set n size }

inductive UploadError
  | notFound
  | chunkOutOfRange (n : Nat)
  | emptyChunk
  | oversizedChunk
  | incomplete (missing : List Nat)
  | io
  | backup
  deriving DecidableEq, Repr

/-! ## Updates -/

inductive UploadUpdate
  | started (id : UploadId) (createdAt : Nat)
  | chunk (id : UploadId) (n size : Nat)
  | finished (id : UploadId)
  deriving DecidableEq, Repr

inductive ArtifactUpdate
  | added (item : ArtifactMeta)
  | removed (id : Text)
  deriving DecidableEq, Repr

def UploadUpdate.apply : UploadUpdate → UploadMap → UploadMap
  | .started id createdAt, map => Function.update map id (some ⟨[], createdAt⟩)
  | .chunk id n size, map => Function.update map id ((map id).map fun m => m.setChunk n size)
  | .finished id, map => Function.update map id none

def UploadUpdate.Shows : UploadUpdate → UploadMap → Prop
  | .started id _, map => (map id).isSome
  | .chunk id n size, map => ∃ m, map id = some m ∧ m.size n = size
  | .finished id, map => map id = none

def UploadUpdate.isChunk (id : UploadId) (n : Nat) : UploadUpdate → Bool
  | .chunk id' n' _ => id' == id && n' == n
  | _ => false

/-- A finished upload leaves the registry; a chunk may be sent again with another length. -/
def UploadUpdate.Overrides : UploadUpdate → UploadUpdate → Prop
  | .finished id, .started id' _ | .finished id, .chunk id' .. => id = id'
  | .started id _, .chunk id' .. | .started id _, .finished id' => id = id'
  | .chunk id n size, .chunk id' n' size' => id = id' ∧ n = n' ∧ size ≠ size'
  | _, _ => False

def ArtifactUpdate.apply : ArtifactUpdate → List ArtifactMeta → List ArtifactMeta
  | .added item, items => items ++ [item]
  | .removed id, items => items.eraseP fun m => m.id == id

def ArtifactUpdate.Shows : ArtifactUpdate → List ArtifactMeta → Prop
  | .added item, items => item ∈ items
  | .removed id, items => ∀ m ∈ items, m.id ≠ id

def ArtifactUpdate.Overrides : ArtifactUpdate → ArtifactUpdate → Prop
  | .removed id, .added item | .added item, .removed id => item.id = id
  | _, _ => False

/-! ## Calls -/

inductive UploadCall
  /-- A new id and its empty `.part` file. -/
  | createPart
  | clock
  | loadUploads
  /-- The registry is saved; it is changed by the update. -/
  | saveUploads (map : UploadMap) (u : UploadUpdate)
  | openPart (id : UploadId)
  | writePart (id : UploadId) (n size : Nat)
  | partLength (id : UploadId)
  | renamePart (id : UploadId)
  | loadArtifacts
  | saveArtifacts (items : List ArtifactMeta) (u : ArtifactUpdate)
  /-- `finish` answers that chunks are missing. -/
  | reportMissing (id : UploadId) (total : Nat) (missing : List Nat)

/-- `none` or `false` is an error. -/
abbrev UploadCall.Answer : UploadCall → Type
  | .createPart => Option UploadId
  | .clock => Nat
  | .loadUploads => Option UploadMap
  | .partLength _ => Option Nat
  | .loadArtifacts => Option (List ArtifactMeta)
  | .saveUploads .. | .openPart _ | .writePart .. | .renamePart _ | .saveArtifacts .. => Bool
  | .reportMissing .. => PUnit

abbrev UploadProg := Prog UploadCall UploadCall.Answer

def call (o : UploadCall) : UploadProg o.Answer := Prog.ask o

/-! ## The operations -/

def start : UploadProg (Except UploadError UploadId) := do
  match ← call .createPart with
  | none => return .error .io
  | some id =>
    match ← call .loadUploads with
    | none => return .error .backup
    | some map =>
      let createdAt ← call .clock
      if ← call (.saveUploads (Function.update map id (some ⟨[], createdAt⟩))
          (.started id createdAt)) then
        return .ok id
      else return .error .backup

def putChunk (id : UploadId) (n size : Nat) : UploadProg (Except UploadError Unit) :=
  if size = 0 then return .error .emptyChunk
  else if size > chunkSize then return .error .oversizedChunk
  else if n ≥ maxChunks then return .error (.chunkOutOfRange n)
  else do
    match ← call .loadUploads with
    | none => return .error .backup
    | some map =>
      match map id with
      | none => return .error .notFound
      | some m =>
        if !(← call (.openPart id)) then return .error .io
        else if !(← call (.writePart id n size)) then return .error .io
        else if ← call (.saveUploads (Function.update map id (some (m.setChunk n size)))
            (.chunk id n size)) then
          return .ok ()
        else return .error .backup

/-- The chunks that did not arrive as they should. -/
def badChunks (m : UploadMeta) (total : Nat) : List Nat :=
  (List.range total).filter fun i =>
    if i = total - 1 then m.size i = 0 || chunkSize < m.size i else m.size i ≠ chunkSize

def expectedLength (m : UploadMeta) (total : Nat) : Nat := ((List.range total).map m.size).sum

def finish (id : UploadId) (total : Nat) : UploadProg (Except UploadError UploadId) :=
  if total = 0 ∨ total > maxChunks then return .error (.chunkOutOfRange total)
  else do
    match ← call .loadUploads with
    | none => return .error .backup
    | some map =>
      match map id with
      | none => return .error .notFound
      | some m =>
        if badChunks m total ≠ [] then return .error (.incomplete (badChunks m total))
        else
          match ← call (.partLength id) with
          | none => return .error .io
          | some length =>
            if length ≠ expectedLength m total then
              return .error (.incomplete (List.range total))
            else if !(← call (.renamePart id)) then return .error .io
            else if ← call (.saveUploads (Function.update map id none) (.finished id)) then
              return .ok id
            else return .error .backup

def addArtifact (item : ArtifactMeta) : UploadProg (Option Unit) := do
  match ← call .loadArtifacts with
  | none => return none
  | some items =>
    if ← call (.saveArtifacts (items ++ [item]) (.added item)) then return some ()
    else return none

/-- The removed entry, if there was one. -/
def removeArtifact (id : Text) : UploadProg (Option (Option ArtifactMeta)) := do
  match ← call .loadArtifacts with
  | none => return none
  | some items =>
    match items.find? fun m => m.id == id with
    | none => return some none
    | some item =>
      if ← call (.saveArtifacts (items.eraseP fun m => m.id == id) (.removed id)) then
        return some (some item)
      else return none

/-! ## The shared state -/

/-- `upload-<id>.part`, or `upload-<id>.lyra` once it is finished. -/
structure StagedFile where
  length : Nat
  finished : Bool
  modified : Nat
  deriving DecidableEq, Repr

structure UploadState where
  now : Nat
  uploads : Kv Unit UploadMap
  artifacts : Kv Unit (List ArtifactMeta)
  files : UploadId → Option StagedFile
  nextId : UploadId

/-- An update whose save took effect, and whether the save answered so. -/
structure Entry (υ : Type) where
  update : υ
  acknowledged : Bool
  deriving DecidableEq, Repr

/-- What the claims speak about. -/
structure UploadWatch where
  log : List (Entry UploadUpdate)
  artifactLog : List (Entry ArtifactUpdate)
  /-- How many updates there were when the request loaded the registry. -/
  seen : Nat → Option Nat
  seenArtifacts : Nat → Option Nat
  /-- Which request an id was made for. -/
  owner : UploadId → Nat
  /-- The chunks written or tried. -/
  writes : List (UploadId × Nat × Nat)
  /-- The requests that were told of missing chunks although all had been acknowledged. -/
  misreported : List Nat

structure UploadWorld where
  state : UploadState
  watch : UploadWatch

/-- What the world decides of a call: the outcome, and how much of a chunk is written. -/
structure Choice where
  outcome : CallOutcome := .works
  written : Nat := 0
  deriving DecidableEq, Repr

section Perform

variable (c : Choice) (s : UploadState)

def StagedFile.extend (now stop : Nat) (f : StagedFile) : StagedFile :=
  { f with length := max f.length stop, modified := now }

/-- A call: what it does and what it answers. -/
def perform : (o : UploadCall) → UploadState × o.Answer
  | .createPart =>
    let s' := if c.outcome.takesEffect then
        { s with
          files := Function.update s.files s.nextId (some ⟨0, false, s.now⟩)
          nextId := s.nextId + 1 }
      else { s with nextId := s.nextId + 1 }
    (s', if c.outcome = .works then some s.nextId else none)
  | .clock => (s, s.now)
  | .loadUploads =>
    (s, if c.outcome = .works then some ((s.uploads.get s.now ()).getD fun _ => none) else none)
  | .saveUploads map _ =>
    (if c.outcome.takesEffect then
        { s with uploads := s.uploads.set s.now () map (some uploadTtlSecs) }
      else s, decide (c.outcome = .works))
  | .openPart id =>
    (s, decide (c.outcome = .works) && (s.files id).any fun f => !f.finished)
  | .writePart id n size =>
    -- the open file may be renamed or gone
    let stop := n * chunkSize + if c.outcome.takesEffect then size else min c.written size
    ({ s with files := Function.update s.files id ((s.files id).map (.extend s.now stop)) },
      decide (c.outcome = .works))
  | .partLength id =>
    (s, if c.outcome = .works then ((s.files id).filter fun f => !f.finished).map (·.length)
      else none)
  | .renamePart id =>
    (if c.outcome.takesEffect then
        { s with
          files := Function.update s.files id
            ((s.files id).map fun f => { f with finished := true }) }
      else s, decide (c.outcome = .works))
  | .loadArtifacts =>
    (s, if c.outcome = .works then some ((s.artifacts.get s.now ()).getD []) else none)
  | .saveArtifacts items _ =>
    (if c.outcome.takesEffect then { s with artifacts := s.artifacts.set s.now () items none }
      else s, decide (c.outcome = .works))
  | .reportMissing .. => (s, ⟨⟩)

end Perform

/-- Every chunk of the upload was acknowledged, and there are no others: each was written
once, and all but the last are full. -/
def Complete (id : UploadId) (total : Nat) (log : List (Entry UploadUpdate))
    (writes : List (UploadId × Nat × Nat)) : Prop :=
  (∀ n ∈ List.range total, ∃ e ∈ log, e.acknowledged = true ∧ e.update.isChunk id n = true) ∧
    ∀ w ∈ writes, w.1 = id → w.2.1 < total ∧ (w.2.1 + 1 < total → w.2.2 = chunkSize) ∧
      ∀ w' ∈ writes, w'.1 = id → w'.2.1 = w.2.1 → w'.2.2 = w.2.2

instance (id : UploadId) (total : Nat) (log : List (Entry UploadUpdate))
    (writes : List (UploadId × Nat × Nat)) : Decidable (Complete id total log writes) :=
  inferInstanceAs (Decidable (_ ∧ _))

/-- The journal as it was when the request loaded the registry. -/
def UploadWatch.seenLog (g : UploadWatch) (i : Nat) : List (Entry UploadUpdate) :=
  g.log.drop (g.log.length - (g.seen i).getD 0)

/-- What is noted of a call of the request `i`. -/
def note (i : Nat) (c : Choice) (s : UploadState) (g : UploadWatch) : UploadCall → UploadWatch
  | .createPart => { g with owner := Function.update g.owner s.nextId i }
  | .loadUploads => { g with seen := Function.update g.seen i (some g.log.length) }
  | .loadArtifacts =>
    { g with seenArtifacts := Function.update g.seenArtifacts i (some g.artifactLog.length) }
  | .saveUploads _ u =>
    if c.outcome.takesEffect then { g with log := ⟨u, decide (c.outcome = .works)⟩ :: g.log } else g
  | .saveArtifacts _ u =>
    if c.outcome.takesEffect then
      { g with artifactLog := ⟨u, decide (c.outcome = .works)⟩ :: g.artifactLog }
    else g
  | .writePart id n size => { g with writes := (id, n, size) :: g.writes }
  | .reportMissing id total _ =>
    if Complete id total (g.seenLog i) g.writes then { g with misreported := i :: g.misreported }
    else g
  | .clock | .openPart _ | .partLength _ | .renamePart _ => g

def exec (i : Nat) (c : Choice) (w : UploadWorld) (o : UploadCall) : UploadWorld × o.Answer :=
  let r := perform c w.state o
  ({ state := r.1, watch := note i c w.state w.watch o }, r.2)

/-! ## The service -/

inductive UploadRequest
  | start
  | putChunk (id : UploadId) (n size : Nat)
  | finish (id : UploadId) (total : Nat)
  | addArtifact (item : ArtifactMeta)
  | removeArtifact (id : Text)
  deriving DecidableEq, Repr

def serve : UploadRequest → UploadProg PUnit
  | .start => do
    let _ ← start
    return ⟨⟩
  | .putChunk id n size => do
    let _ ← putChunk id n size
    return ⟨⟩
  | .finish id total => do
    match ← finish id total with
    | .error (.incomplete missing) => call (.reportMissing id total missing)
    | _ => return ⟨⟩
  | .addArtifact item => do
    let _ ← addArtifact item
    return ⟨⟩
  | .removeArtifact id => do
    let _ ← removeArtifact id
    return ⟨⟩

inductive UploadEvent
  | tick (seconds : Nat)
  /-- `sweep_stale_uploads`. -/
  | sweep
  deriving DecidableEq, Repr

def UploadState.after (s : UploadState) : UploadEvent → UploadState
  | .tick seconds => { s with now := s.now + seconds }
  | .sweep =>
    { s with
      files := fun id =>
        (s.files id).filter fun f => !decide (f.modified + staleUploadAge ≤ s.now) }

def uploadService :
    Service UploadWorld UploadCall UploadCall.Answer UploadRequest Choice UploadEvent where
  init w := w.state.uploads () = none ∧ w.state.artifacts () = none ∧
    (∀ id, w.state.files id = none) ∧ w.watch.log = [] ∧ w.watch.artifactLog = [] ∧
    w.watch.writes = [] ∧ w.watch.misreported = []
  exec i c o w := some (exec i c w o)
  request := serve
  arrive _ _ w := w
  env e w := { w with state := w.state.after e }

end Lyra.Uploads
