import Lyra.Backup.UploadRaces
import Lyra.Lib.Blocks

/-!
# What an upload assembles

The operations of `backup/upload.rs` one after the other, with the bytes of the staging files:
every chunk is written at its own offset, and the registry keeps the length of the last one.

* `putChunk_spec`, `finish_spec`: what an operation does, or that it does nothing;
* `step_inv`: the blocks of a file are the chunks that were accepted last;
* `uploads_sound`: a finished upload is the concatenation of its chunks, and a rejected call
  changes nothing.
-/

namespace Lyra.Uploads

open Lyra.Lib

/-! ## Staging files with their bytes -/

structure StagedStore where
  state : UploadState
  content : UploadId → List UInt8

/-- What a call does to the bytes; a chunk is written at its offset. -/
def stage (chunk : List UInt8) (s : StagedStore) : UploadCall → UploadId → List UInt8
  | .createPart => Function.update s.content s.state.nextId []
  | .writePart id n _ =>
    Function.update s.content id (writeAt 0 (s.content id) (n * chunkSize) chunk)
  | _ => s.content

/-- A call that works. -/
def performBytes (chunk : List UInt8) (s : StagedStore) (o : UploadCall) :
    StagedStore × o.Answer :=
  (⟨(perform {} s.state o).1, stage chunk s o⟩, (perform {} s.state o).2)

namespace StagedStore

def start (s : StagedStore) : StagedStore × Except UploadError UploadId :=
  Uploads.start.interpret (performBytes []) s

def putChunk (s : StagedStore) (id : UploadId) (n : Nat) (bytes : List UInt8) :
    StagedStore × Except UploadError Unit :=
  (Uploads.putChunk id n bytes.length).interpret (performBytes bytes) s

def finish (s : StagedStore) (id : UploadId) (total : Nat) :
    StagedStore × Except UploadError UploadId :=
  (Uploads.finish id total).interpret (performBytes []) s

/-- Nothing has been uploaded. -/
def empty (now : Nat) (nextId : UploadId) : StagedStore where
  state := ⟨now, fun _ => none, fun _ => none, fun _ => none, nextId⟩
  content _ := []

end StagedStore

/-! ## Histories -/

inductive StoreOp
  | start
  | putChunk (id : UploadId) (n : Nat) (bytes : List UInt8)
  | finish (id : UploadId) (total : Nat)
  | event (e : UploadEvent)

/-- An operation and what it answered. -/
inductive Done
  | started (r : Except UploadError UploadId)
  | put (id : UploadId) (n : Nat) (bytes : List UInt8) (r : Except UploadError Unit)
  | finished (id : UploadId) (total : Nat) (r : Except UploadError UploadId)
  | passed (e : UploadEvent)

def StagedStore.step (s : StagedStore) : StoreOp → StagedStore × Done
  | .start => (s.start.1, .started s.start.2)
  | .putChunk id n bytes => ((s.putChunk id n bytes).1, .put id n bytes (s.putChunk id n bytes).2)
  | .finish id total => ((s.finish id total).1, .finished id total (s.finish id total).2)
  | .event e => ({ s with state := s.state.after e }, .passed e)

/-- The store after a history, and what was done; the latest operation comes first. -/
def history (s : StagedStore) : List StoreOp → StagedStore × List Done
  | [] => (s, [])
  | op :: ops =>
    let before := history s ops
    ((before.1.step op).1, (before.1.step op).2 :: before.2)

/-- The bytes of a chunk, if it was accepted. -/
def Done.accepted (id : UploadId) (n : Nat) : Done → Option (List UInt8)
  | .put id' n' bytes (.ok ()) => if id' = id ∧ n' = n then some bytes else none
  | _ => none

def lastAccepted (done : List Done) (id : UploadId) (n : Nat) : Option (List UInt8) :=
  done.findSome? (Done.accepted id n)

/-- The chunk may stand at its place: full, or the last one and not empty. -/
def FullSized (total n : Nat) (bytes : List UInt8) : Prop :=
  if n + 1 = total then 1 ≤ bytes.length ∧ bytes.length ≤ chunkSize else bytes.length = chunkSize

/-- The content is that of the chunks that were accepted last. -/
structure Assembled (done : List Done) (id : UploadId) (total : Nat) (content : List UInt8) :
    Prop where
  sizes : ∀ n, n < total → ∃ bytes, lastAccepted done id n = some bytes ∧ FullSized total n bytes
  content : content = (List.range total).flatMap fun n => (lastAccepted done id n).getD []

/-- After a history, `finish` answers only for an upload that is assembled in its file, and a
rejected call changes neither the registry nor a file. -/
structure UploadsSound (s : StagedStore) (done : List Done) : Prop where
  finished : ∀ id total s' path, s.finish id total = (s', .ok path) →
    path = id ∧ (∃ f, s'.state.files id = some f ∧ f.finished = true ∧
      f.length = (s'.content id).length) ∧ Assembled done id total (s'.content id)
  putRejected : ∀ id n bytes s' e, s.putChunk id n bytes = (s', .error e) → s' = s
  finishRejected : ∀ id total s' e, s.finish id total = (s', .error e) → s' = s

/-! ## What an operation does -/

section Spec

variable (s : StagedStore) (id : UploadId)

/-- The registry is saved. -/
def UploadState.withUploads (s : UploadState) (map : UploadMap) : UploadState :=
  { s with uploads := s.uploads.set s.now () map (some uploadTtlSecs) }

theorem readUploads_withUploads (s : UploadState) (map : UploadMap) :
    (s.withUploads map).readUploads = map := by
  have hlive : KvEntry.expired ⟨map, some (s.now + uploadTtlSecs)⟩ s.now = false := by
    have hpos : 0 < uploadTtlSecs := by decide
    have hlater : ¬ s.now + uploadTtlSecs ≤ s.now := by omega
    unfold KvEntry.expired
    rw [Option.any_some]
    exact decide_eq_false hlater
  have hget : (s.uploads.set s.now () map (some uploadTtlSecs)).get s.now () = some map := by
    rw [Kv.get_eq_some, Kv.set_same]
    exact ⟨_, rfl, hlive, rfl⟩
  show ((s.uploads.set s.now () map (some uploadTtlSecs)).get s.now ()).getD _ = map
  rw [hget]
  rfl

theorem interpret_bind {β : Type} (chunk : List UInt8) (o : UploadCall)
    (f : o.Answer → UploadProg β) :
    (call o >>= f).interpret (performBytes chunk) s =
      (f (performBytes chunk s o).2).interpret (performBytes chunk) (performBytes chunk s o).1 :=
  rfl

theorem performBytes_load (chunk : List UInt8) :
    performBytes chunk s .loadUploads = (s, some s.state.readUploads) := rfl

theorem performBytes_open (chunk : List UInt8) :
    performBytes chunk s (.openPart id) = (s, (s.state.files id).any fun f => !f.finished) := by
  unfold performBytes perform stage
  dsimp only
  rw [decide_eq_true rfl, Bool.true_and]

theorem performBytes_length (chunk : List UInt8) :
    performBytes chunk s (.partLength id) =
      (s, ((s.state.files id).filter fun f => !f.finished).map (·.length)) := rfl

/-- The chunk is in the file. -/
def StagedStore.written (s : StagedStore) (id : UploadId) (n : Nat) (bytes : List UInt8) :
    StagedStore where
  state := { s.state with
    files := Function.update s.state.files id
      ((s.state.files id).map (.extend s.state.now (n * chunkSize + bytes.length))) }
  content := Function.update s.content id (writeAt 0 (s.content id) (n * chunkSize) bytes)

theorem performBytes_write (n : Nat) (bytes : List UInt8) :
    performBytes bytes s (.writePart id n bytes.length) = (s.written id n bytes, true) := by
  unfold performBytes perform stage StagedStore.written
  dsimp only
  rw [decide_eq_true rfl]
  rfl

theorem performBytes_save (chunk : List UInt8) (map : UploadMap) (u : UploadUpdate) :
    performBytes chunk s (.saveUploads map u) =
      ({ s with state := s.state.withUploads map }, true) := by
  unfold performBytes perform stage
  dsimp only
  rw [decide_eq_true rfl]
  rfl

theorem putChunk_spec (n : Nat) (bytes : List UInt8) :
    (∃ e, s.putChunk id n bytes = (s, .error e)) ∨
      ∃ m f, s.state.readUploads id = some m ∧ s.state.files id = some f ∧
        0 < bytes.length ∧ bytes.length ≤ chunkSize ∧
        ∃ s', s.putChunk id n bytes = (s', .ok ()) ∧ s'.state.nextId = s.state.nextId ∧
          s'.state.readUploads =
            Function.update s.state.readUploads id (some (m.setChunk n bytes.length)) ∧
          s'.state.files = Function.update s.state.files id
            (some (f.extend s.state.now (n * chunkSize + bytes.length))) ∧
          s'.content =
            Function.update s.content id (writeAt 0 (s.content id) (n * chunkSize) bytes) := by
  unfold StagedStore.putChunk Uploads.putChunk
  split
  · exact .inl ⟨_, rfl⟩
  rename_i hpos
  split
  · exact .inl ⟨_, rfl⟩
  rename_i hle
  split
  · exact .inl ⟨_, rfl⟩
  rw [interpret_bind, performBytes_load]
  dsimp only
  cases hm : s.state.readUploads id with
  | none => exact .inl ⟨_, rfl⟩
  | some m =>
    dsimp only
    rw [interpret_bind, performBytes_open]
    cases hf : s.state.files id with
    | none => exact .inl ⟨_, rfl⟩
    | some f =>
      cases hfinished : f.finished with
      | true =>
        rw [Option.any_some, hfinished]
        exact .inl ⟨_, rfl⟩
      | false =>
        refine .inr ⟨m, f, rfl, rfl, Nat.pos_of_ne_zero hpos, Nat.le_of_not_lt hle,
          { s.written id n bytes with
            state := (s.written id n bytes).state.withUploads
              (Function.update s.state.readUploads id (some (m.setChunk n bytes.length))) },
          ?_, rfl, readUploads_withUploads .., congrArg (Function.update s.state.files id) ?_, rfl⟩
        · rw [Option.any_some, hfinished]
          dsimp only
          rw [if_neg (by decide), interpret_bind, performBytes_write]
          dsimp only
          rw [if_neg (by decide), interpret_bind, performBytes_save]
          rfl
        · rw [hf]
          rfl

/-- The upload has its final name. -/
def UploadState.renamed (s : UploadState) (id : UploadId) : UploadState :=
  { s with
    files := Function.update s.files id
      ((s.files id).map fun f => { f with finished := true }) }

theorem performBytes_rename (chunk : List UInt8) :
    performBytes chunk s (.renamePart id) = ({ s with state := s.state.renamed id }, true) := by
  unfold performBytes perform stage
  dsimp only
  rw [decide_eq_true rfl]
  rfl

theorem finish_spec (total : Nat) :
    (∃ e, s.finish id total = (s, .error e)) ∨
      ∃ m f, s.state.readUploads id = some m ∧ s.state.files id = some f ∧
        0 < total ∧ badChunks m total = [] ∧ f.length = expectedLength m total ∧
        ∃ s', s.finish id total = (s', .ok id) ∧ s'.state.nextId = s.state.nextId ∧
          s'.state.readUploads = Function.update s.state.readUploads id none ∧
          s'.state.files =
            Function.update s.state.files id (some { f with finished := true }) ∧
          s'.content = s.content := by
  unfold StagedStore.finish Uploads.finish
  split
  · exact .inl ⟨_, rfl⟩
  rename_i htotal
  rw [interpret_bind, performBytes_load]
  dsimp only
  cases hm : s.state.readUploads id with
  | none => exact .inl ⟨_, rfl⟩
  | some m =>
    dsimp only
    split
    · exact .inl ⟨_, rfl⟩
    rename_i hbad
    rw [interpret_bind, performBytes_length]
    dsimp only
    cases hf : (s.state.files id).filter (fun f => !f.finished) with
    | none => exact .inl ⟨_, rfl⟩
    | some f =>
      rw [Option.map_some]
      dsimp only
      split
      · exact .inl ⟨_, rfl⟩
      rename_i hlength
      have hfile := (Option.filter_eq_some_iff.mp hf).1
      refine .inr ⟨m, f, rfl, hfile, by omega, not_not.mp hbad, not_not.mp hlength,
        { s with
          state := (s.state.renamed id).withUploads (Function.update s.state.readUploads id none) },
        ?_, rfl, readUploads_withUploads .., congrArg (Function.update s.state.files id) ?_, rfl⟩
      · rw [interpret_bind, performBytes_rename]
        dsimp only
        rw [if_neg (by decide), interpret_bind, performBytes_save]
        rfl
      · rw [hfile]
        rfl

theorem start_spec : ∃ s', s.start = (s', .ok s.state.nextId) ∧
    s'.state.nextId = s.state.nextId + 1 ∧
    s'.state.readUploads =
      Function.update s.state.readUploads s.state.nextId (some ⟨[], s.state.now⟩) ∧
    s'.state.files =
      Function.update s.state.files s.state.nextId (some ⟨0, false, s.state.now⟩) ∧
    s'.content = Function.update s.content s.state.nextId [] := by
  refine ⟨⟨{ s.state with
      files := Function.update s.state.files s.state.nextId (some ⟨0, false, s.state.now⟩)
      nextId := s.state.nextId + 1 }.withUploads
    (Function.update s.state.readUploads s.state.nextId (some ⟨[], s.state.now⟩)),
    Function.update s.content s.state.nextId []⟩, ?_, rfl, readUploads_withUploads .., rfl, rfl⟩
  unfold StagedStore.start Uploads.start
  rw [interpret_bind]
  have hcreate : performBytes [] s .createPart =
      (⟨{ s.state with
          files := Function.update s.state.files s.state.nextId (some ⟨0, false, s.state.now⟩)
          nextId := s.state.nextId + 1 }, Function.update s.content s.state.nextId []⟩,
        some s.state.nextId) := by
    unfold performBytes perform stage
    dsimp only
    rw [if_pos rfl]
    rfl
  rw [hcreate]
  dsimp only
  rw [interpret_bind, performBytes_load]
  dsimp only
  rw [interpret_bind]
  have hclock : ∀ s' : StagedStore, performBytes [] s' .clock = (s', s'.state.now) := fun _ => rfl
  rw [hclock, interpret_bind, performBytes_save]
  rfl

end Spec

/-! ## The invariant -/

/-- Later, the registry is the same or has expired. -/
theorem readUploads_after {s : UploadState} {e : UploadEvent} {id : UploadId} {m : UploadMeta}
    (h : (s.after e).readUploads id = some m) : s.readUploads id = some m := by
  cases e with
  | sweep => exact h
  | tick seconds =>
    unfold UploadState.readUploads at h ⊢
    cases hget : (s.after (.tick seconds)).uploads.get (s.after (.tick seconds)).now () with
    | none =>
      rw [hget] at h
      exact nomatch h
    | some map =>
      rw [hget] at h
      obtain ⟨entry, hentry, hlive, rfl⟩ := Kv.get_eq_some.mp hget
      have hbefore : entry.expired s.now = false := by
        cases hexp : entry.expired s.now with
        | false => rfl
        | true =>
          have hlate := KvEntry.expired_mono (Nat.le_add_right s.now seconds) hexp
          exact absurd (hlate.symm.trans hlive) (by decide)
      have hget' : s.uploads.get s.now () = some entry.value :=
        Kv.get_eq_some.mpr ⟨entry, hentry, hbefore, rfl⟩
      rw [hget']
      exact h

/-- The registry has the lengths of the chunks that were accepted last, and each of them stands in
its block of the file. -/
structure StoreInv (s : StagedStore) (done : List Done) : Prop where
  fresh : ∀ id, s.state.nextId ≤ id → ∀ n, lastAccepted done id n = none
  registered : ∀ id m, s.state.readUploads id = some m →
    id < s.state.nextId ∧ ∀ n, m.size n = (lastAccepted done id n).elim 0 List.length
  sized : ∀ id n bytes, lastAccepted done id n = some bytes →
    0 < bytes.length ∧ bytes.length ≤ chunkSize
  lengths : ∀ id f, s.state.files id = some f → f.length = (s.content id).length
  blocks : ∀ id f, s.state.files id = some f → ∀ n bytes, lastAccepted done id n = some bytes →
    n * chunkSize + bytes.length ≤ (s.content id).length ∧
      readAt (s.content id) (n * chunkSize) bytes.length = bytes

section Inv

variable {s s' : StagedStore} {done : List Done} {d : Done}

theorem lastAccepted_other (done : List Done) (hd : ∀ id n, d.accepted id n = none) (id : UploadId)
    (n : Nat) :
    lastAccepted (d :: done) id n = lastAccepted done id n := by
  unfold lastAccepted
  rw [List.findSome?_cons, hd]

theorem lastAccepted_put (id : UploadId) (n : Nat) (bytes : List UInt8) (id' : UploadId)
    (n' : Nat) : lastAccepted (.put id n bytes (.ok ()) :: done) id' n' =
      if id = id' ∧ n = n' then some bytes else lastAccepted done id' n' := by
  unfold lastAccepted
  rw [List.findSome?_cons]
  unfold Done.accepted
  dsimp only
  split_ifs
  · rfl
  · rfl

/-- Nothing is accepted, no upload appears and no file grows. -/
theorem StoreInv.quiet (h : StoreInv s done) (hd : ∀ id n, d.accepted id n = none)
    (hnext : s'.state.nextId = s.state.nextId) (hcontent : s'.content = s.content)
    (hread : ∀ id m, s'.state.readUploads id = some m → s.state.readUploads id = some m)
    (hfiles : ∀ id f', s'.state.files id = some f' →
      ∃ f, s.state.files id = some f ∧ f.length = f'.length) : StoreInv s' (d :: done) := by
  have hsame := lastAccepted_other done hd
  refine ⟨?_, ?_, ?_, ?_, ?_⟩
  · intro id hid n
    rw [hsame, h.fresh id (hnext ▸ hid)]
  · intro id m hm
    obtain ⟨hlt, hsize⟩ := h.registered id m (hread id m hm)
    exact ⟨hnext ▸ hlt, fun n => by rw [hsame, hsize]⟩
  · intro id n bytes hb
    exact h.sized id n bytes ((hsame id n).symm.trans hb)
  · intro id f' hf'
    obtain ⟨f, hf, hlength⟩ := hfiles id f' hf'
    rw [← hlength, hcontent]
    exact h.lengths id f hf
  · intro id f' hf' n bytes hb
    obtain ⟨f, hf, -⟩ := hfiles id f' hf'
    rw [hcontent]
    exact h.blocks id f hf n bytes ((hsame id n).symm.trans hb)

theorem start_inv (h : StoreInv s done) : StoreInv (s.step .start).1 ((s.step .start).2 :: done) := by
  obtain ⟨s', hstart, hnext, hread, hfiles, hcontent⟩ := start_spec s
  have hstep : s.step .start = (s', .started (.ok s.state.nextId)) := by
    unfold StagedStore.step
    rw [hstart]
  rw [hstep]
  have hsame := lastAccepted_other (d := .started (.ok s.state.nextId)) done fun _ _ => rfl
  have hnew : ∀ n, lastAccepted done s.state.nextId n = none := h.fresh _ (Nat.le_refl _)
  refine ⟨?_, ?_, ?_, ?_, ?_⟩
  · intro id hid n
    rw [hnext] at hid
    rw [hsame]
    exact h.fresh id (Nat.le_of_succ_le hid) n
  · intro id m hm
    rw [hread] at hm
    rw [hnext]
    rcases Decidable.em (id = s.state.nextId) with rfl | hne
    · rw [Function.update_self] at hm
      obtain rfl := Option.some.inj hm
      refine ⟨Nat.lt_succ_self _, fun n => ?_⟩
      rw [hsame, hnew]
      rfl
    · rw [Function.update_of_ne hne] at hm
      obtain ⟨hlt, hsize⟩ := h.registered id m hm
      exact ⟨Nat.lt_succ_of_lt hlt, fun n => by rw [hsame, hsize]⟩
  · intro id n bytes hb
    exact h.sized id n bytes ((hsame id n).symm.trans hb)
  · intro id f hf
    rw [hfiles] at hf
    rw [hcontent]
    rcases Decidable.em (id = s.state.nextId) with rfl | hne
    · rw [Function.update_self] at hf ⊢
      obtain rfl := Option.some.inj hf
      rfl
    · rw [Function.update_of_ne hne] at hf ⊢
      exact h.lengths id f hf
  · intro id f hf n bytes hb
    rw [hfiles] at hf
    rw [hsame] at hb
    rw [hcontent]
    rcases Decidable.em (id = s.state.nextId) with rfl | hne
    · rw [hnew] at hb
      exact nomatch hb
    · rw [Function.update_of_ne hne] at hf ⊢
      exact h.blocks id f hf n bytes hb

theorem block_apart {n k a b : Nat} (hne : n ≠ k) (ha : a ≤ chunkSize) (hb : b ≤ chunkSize) :
    k * chunkSize + b ≤ n * chunkSize ∨ n * chunkSize + a ≤ k * chunkSize := by
  rcases Nat.lt_or_gt_of_ne hne with hlt | hgt
  · have hstep := Nat.mul_le_mul_right chunkSize hlt
    rw [Nat.succ_mul] at hstep
    exact .inr (Nat.le_trans (Nat.add_le_add_left ha _) hstep)
  · have hstep := Nat.mul_le_mul_right chunkSize hgt
    rw [Nat.succ_mul] at hstep
    exact .inl (Nat.le_trans (Nat.add_le_add_left hb _) hstep)

theorem put_inv (h : StoreInv s done) (id : UploadId) (n : Nat) (bytes : List UInt8) :
    StoreInv (s.step (.putChunk id n bytes)).1 ((s.step (.putChunk id n bytes)).2 :: done) := by
  unfold StagedStore.step
  dsimp only
  rcases putChunk_spec s id n bytes with
    ⟨e, hput⟩ | ⟨m, f, hm, hf, hpos, hle, s', hput, hnext, hread, hfiles, hcontent⟩
  · rw [hput]
    exact h.quiet (fun _ _ => rfl) rfl rfl (fun _ _ hm => hm) fun _ f hf => ⟨f, hf, rfl⟩
  rw [hput]
  obtain ⟨hid, hsizes⟩ := h.registered id m hm
  have hlength := h.lengths id f hf
  refine ⟨?_, ?_, ?_, ?_, ?_⟩
  · intro id' hid' n'
    rw [hnext] at hid'
    have hne : ¬ (id = id' ∧ n = n') := fun he => Nat.not_lt_of_le hid' (he.1 ▸ hid)
    rw [lastAccepted_put, if_neg hne]
    exact h.fresh id' hid' n'
  · intro id' m' hm'
    rw [hread] at hm'
    rw [hnext]
    rcases Decidable.em (id' = id) with rfl | hne
    · rw [Function.update_self] at hm'
      obtain rfl := Option.some.inj hm'
      refine ⟨hid, fun n' => ?_⟩
      rw [size_setChunk, lastAccepted_put, hsizes]
      rcases Decidable.em (n' = n) with rfl | hn
      · rw [if_pos rfl, if_pos ⟨rfl, rfl⟩]
        rfl
      · rw [if_neg hn, if_neg fun he => hn he.2.symm]
    · rw [Function.update_of_ne hne] at hm'
      obtain ⟨hlt, hsizes'⟩ := h.registered id' m' hm'
      refine ⟨hlt, fun n' => ?_⟩
      rw [lastAccepted_put, if_neg fun he => hne he.1.symm, hsizes']
  · intro id' n' bytes' hb
    rw [lastAccepted_put] at hb
    split at hb
    · obtain rfl := Option.some.inj hb
      exact ⟨hpos, hle⟩
    · exact h.sized id' n' bytes' hb
  · intro id' f' hf'
    rw [hfiles] at hf'
    rw [hcontent]
    rcases Decidable.em (id' = id) with rfl | hne
    · rw [Function.update_self] at hf' ⊢
      obtain rfl := Option.some.inj hf'
      rw [length_writeAt, ← hlength]
      rfl
    · rw [Function.update_of_ne hne] at hf' ⊢
      exact h.lengths id' f' hf'
  · intro id' f' hf' n' bytes' hb
    rw [hfiles] at hf'
    rw [hcontent]
    rw [lastAccepted_put] at hb
    rcases Decidable.em (id' = id) with rfl | hne
    · rw [Function.update_self, length_writeAt]
      split at hb
      · rename_i he
        obtain rfl := Option.some.inj hb
        rw [← he.2]
        exact ⟨Nat.le_max_right _ _, readAt_writeAt⟩
      · rename_i he
        have hn : n ≠ n' := fun hn => he ⟨rfl, hn⟩
        obtain ⟨hin, hblock⟩ := h.blocks id' f hf n' bytes' hb
        obtain ⟨-, hle'⟩ := h.sized id' n' bytes' hb
        refine ⟨Nat.le_trans hin (Nat.le_max_left _ _), ?_⟩
        rw [readAt_writeAt_other hin (block_apart hn hle hle'), hblock]
    · rw [Function.update_of_ne hne] at hf' ⊢
      rw [if_neg fun he => hne he.1.symm] at hb
      exact h.blocks id' f' hf' n' bytes' hb

theorem finish_inv (h : StoreInv s done) (id : UploadId) (total : Nat) :
    StoreInv (s.step (.finish id total)).1 ((s.step (.finish id total)).2 :: done) := by
  unfold StagedStore.step
  dsimp only
  rcases finish_spec s id total with
    ⟨e, hfinish⟩ | ⟨m, f, -, hf, -, -, -, s', hfinish, hnext, hread, hfiles, hcontent⟩
  · rw [hfinish]
    exact h.quiet (fun _ _ => rfl) rfl rfl (fun _ _ hm => hm) fun _ f hf => ⟨f, hf, rfl⟩
  rw [hfinish]
  refine h.quiet (fun _ _ => rfl) hnext hcontent ?_ ?_
  · intro id' m' hm'
    rw [hread] at hm'
    rcases Decidable.em (id' = id) with rfl | hne
    · rw [Function.update_self] at hm'
      exact nomatch hm'
    · rwa [Function.update_of_ne hne] at hm'
  · intro id' f' hf'
    rw [hfiles] at hf'
    rcases Decidable.em (id' = id) with rfl | hne
    · rw [Function.update_self] at hf'
      obtain rfl := Option.some.inj hf'
      exact ⟨f, hf, rfl⟩
    · rw [Function.update_of_ne hne] at hf'
      exact ⟨f', hf', rfl⟩

theorem event_inv (h : StoreInv s done) (e : UploadEvent) :
    StoreInv (s.step (.event e)).1 ((s.step (.event e)).2 :: done) := by
  refine h.quiet (fun _ _ => rfl) ?_ rfl (fun _ _ hm => readUploads_after hm) ?_
  · cases e with
    | tick seconds => rfl
    | sweep => rfl
  · intro id f' hf'
    cases e with
    | tick seconds => exact ⟨f', hf', rfl⟩
    | sweep => exact ⟨f', (Option.filter_eq_some_iff.mp hf').1, rfl⟩

theorem step_inv (h : StoreInv s done) (op : StoreOp) :
    StoreInv (s.step op).1 ((s.step op).2 :: done) := by
  cases op with
  | start => exact start_inv h
  | putChunk id n bytes => exact put_inv h id n bytes
  | finish id total => exact finish_inv h id total
  | event e => exact event_inv h e

theorem empty_inv (now : Nat) (nextId : UploadId) : StoreInv (.empty now nextId) [] where
  fresh _ _ _ := rfl
  registered _ _ h := nomatch h
  sized _ _ _ h := nomatch h
  lengths _ _ h := nomatch h
  blocks _ _ h := nomatch h

/-- Every history from the empty store keeps the invariant. -/
theorem history_inv (now : Nat) (nextId : UploadId) (ops : List StoreOp) :
    StoreInv (history (.empty now nextId) ops).1 (history (.empty now nextId) ops).2 := by
  induction ops with
  | nil => exact empty_inv now nextId
  | cons op ops ih => exact step_inv ih op

/-! ## Finished uploads -/

/-- Where no chunk is bad and the file is as long as the registry says, it is its chunks. -/
theorem assembled (h : StoreInv s done) {id : UploadId} {m : UploadMeta} {f : StagedFile}
    {total : Nat} (hm : s.state.readUploads id = some m) (hf : s.state.files id = some f)
    (htotal : 0 < total) (hbad : badChunks m total = [])
    (hlength : f.length = expectedLength m total) : Assembled done id total (s.content id) := by
  obtain ⟨-, hsizes⟩ := h.registered id m hm
  have hgood : ∀ n, n < total → ∃ bytes, lastAccepted done id n = some bytes ∧
      FullSized total n bytes := by
    intro n hn
    have hn' : n ∉ badChunks m total := by rw [hbad]; exact List.not_mem_nil
    rw [mem_badChunks, not_and] at hn'
    have hsize := hn' hn
    rw [hsizes] at hsize
    cases hlast : lastAccepted done id n with
    | none =>
      rw [hlast] at hsize
      split at hsize
      · exact absurd (.inl rfl) hsize
      · exact absurd (by decide) hsize
    | some bytes =>
      rw [hlast] at hsize
      refine ⟨bytes, rfl, ?_⟩
      unfold FullSized
      rcases Decidable.em (n = total - 1) with he | he
      · rw [if_pos (by omega)]
        exact h.sized id n bytes hlast
      · rw [if_neg (by omega)]
        rw [if_neg he] at hsize
        exact not_not.mp hsize
  have hfull : ∀ n, n + 1 < total → m.size n = chunkSize := by
    intro n hn
    obtain ⟨bytes, hlast, hsize⟩ := hgood n (Nat.lt_of_succ_lt hn)
    unfold FullSized at hsize
    rw [if_neg (Nat.ne_of_lt hn)] at hsize
    rw [hsizes, hlast]
    exact hsize
  have hend : (s.content id).length = (total - 1) * chunkSize + m.size (total - 1) := by
    rw [← h.lengths id f hf, hlength]
    exact sum_full hfull htotal
  have hblock : ∀ n, n < total →
      readAt (s.content id) (n * chunkSize) chunkSize = (lastAccepted done id n).getD [] := by
    intro n hn
    obtain ⟨bytes, hlast, hsize⟩ := hgood n hn
    obtain ⟨-, hread⟩ := h.blocks id f hf n bytes hlast
    rw [hlast, Option.getD_some]
    unfold FullSized at hsize
    split at hsize
    · -- the file ends with its last chunk
      rename_i hn'
      have hlast' : total - 1 = n := by omega
      rw [hlast', hsizes, hlast] at hend
      have hstop : (s.content id).length = n * chunkSize + bytes.length := hend
      calc readAt (s.content id) (n * chunkSize) chunkSize
          = (s.content id).drop (n * chunkSize) :=
            readAt_end (hstop.le.trans (Nat.add_le_add_left hsize.2 _))
        _ = readAt (s.content id) (n * chunkSize) bytes.length := (readAt_end hstop.le).symm
        _ = bytes := hread
    · rw [hsize] at hread
      exact hread
  have hshort : (s.content id).length ≤ total * chunkSize := by
    obtain ⟨bytes, hlast, -⟩ := hgood (total - 1) (Nat.sub_one_lt_of_lt htotal)
    have hle : m.size (total - 1) ≤ chunkSize := by
      rw [hsizes, hlast]
      exact (h.sized id _ bytes hlast).2
    obtain ⟨last, rfl⟩ := Nat.exists_eq_add_one.mpr htotal
    rw [hend, Nat.add_sub_cancel, Nat.succ_mul]
    exact Nat.add_le_add_left hle _
  refine ⟨hgood, ?_⟩
  calc s.content id
      = (List.range total).flatMap fun n => readAt (s.content id) (n * chunkSize) chunkSize :=
        (flatMap_readAt hshort).symm
    _ = (List.range total).flatMap fun n => (lastAccepted done id n).getD [] :=
        List.flatMap_congr fun n hn => hblock n (List.mem_range.mp hn)

theorem StoreInv.sound (h : StoreInv s done) : UploadsSound s done where
  finished id total s' path hok := by
    rcases finish_spec s id total with
      ⟨e, hfinish⟩ | ⟨m, f, hm, hf, htotal, hbad, hlength, s'', hfinish, -, -, hfiles, hcontent⟩
    · rw [hfinish] at hok
      exact nomatch (Prod.mk.inj hok).2
    · rw [hfinish] at hok
      obtain ⟨rfl, hpath⟩ := Prod.mk.inj hok
      refine ⟨(Except.ok.inj hpath).symm, ⟨{ f with finished := true }, ?_, rfl, ?_⟩, ?_⟩
      · rw [hfiles, Function.update_self]
      · rw [hcontent]
        exact h.lengths id f hf
      · rw [hcontent]
        exact assembled h hm hf htotal hbad hlength
  putRejected id n bytes s' e herr := by
    rcases putChunk_spec s id n bytes with ⟨e', hput⟩ | ⟨_, _, -, -, -, -, s'', hput, -⟩
    · rw [hput] at herr
      exact (Prod.mk.inj herr).1.symm
    · rw [hput] at herr
      exact nomatch (Prod.mk.inj herr).2
  finishRejected id total s' e herr := by
    rcases finish_spec s id total with
      ⟨e', hfinish⟩ | ⟨_, _, -, -, -, -, -, s'', hfinish, -⟩
    · rw [hfinish] at herr
      exact (Prod.mk.inj herr).1.symm
    · rw [hfinish] at herr
      exact nomatch (Prod.mk.inj herr).2

end Inv

/-- After every history of uploads, beginning with none. -/
theorem uploads_sound (now : Nat) (nextId : UploadId) (ops : List StoreOp) :
    UploadsSound (history (.empty now nextId) ops).1 (history (.empty now nextId) ops).2 :=
  (history_inv now nextId ops).sound

end Lyra.Uploads
