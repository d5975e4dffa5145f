import Lyra.Backup.Uploads
import Mathlib.Data.List.Infix
import Mathlib.Order.MinMax

/-!
# Lost updates of the registries

A registry is saved as a whole, from what the request loaded before.

* `updates_kept`: where no other save of a registry falls between a request's load and its own
  save, every acknowledged update shows in what is read afterwards, and `finish` never misses a
  chunk that was acknowledged;
* `update_lost`: two chunks at the same time.
-/

namespace Lyra.Uploads

open Lyra.Lib

/-! ## Journals -/

theorem size_setChunk (m : UploadMeta) (n size k : Nat) :
    (m.setChunk n size).size k = if k = n then size else m.size k := by
  unfold UploadMeta.size UploadMeta.setChunk
  dsimp only
  rw [List.getD_eq_getElem?_getD, List.getD_eq_getElem?_getD, List.getElem?_set]
  by_cases hk : n = k
  · subst hk
    have hlong : n < (if m.chunkSizes.length ≤ n then
        m.chunkSizes ++ List.replicate (n + 1 - m.chunkSizes.length) 0
        else m.chunkSizes).length := by
      split
      · rw [List.length_append, List.length_replicate]
        omega
      · omega
    rw [if_pos rfl, if_pos rfl, if_pos hlong]
    rfl
  · rw [if_neg hk, if_neg (Ne.symm hk)]
    split
    · rw [List.getElem?_append]
      split
      · rfl
      · rw [List.getElem?_replicate, List.getElem?_eq_none (by omega)]
        split
        · rfl
        · rfl
    · rfl

def UploadUpdate.upload : UploadUpdate → UploadId
  | .started id _ | .chunk id .. | .finished id => id

theorem UploadUpdate.apply_other {v : UploadUpdate} {map : UploadMap} {id : UploadId}
    (h : id ≠ v.upload) : v.apply map id = map id := by
  cases v with
  | started => exact Function.update_of_ne h ..
  | chunk => exact Function.update_of_ne h ..
  | finished => exact Function.update_of_ne h ..

@[simp] theorem UploadUpdate.apply_started (map : UploadMap) (id : UploadId) (createdAt : Nat) :
    (UploadUpdate.started id createdAt).apply map id = some ⟨[], createdAt⟩ :=
  Function.update_self ..

@[simp] theorem UploadUpdate.apply_chunk (map : UploadMap) (id : UploadId) (n size : Nat) :
    (UploadUpdate.chunk id n size).apply map id = (map id).map fun m => m.setChunk n size :=
  Function.update_self ..

@[simp] theorem UploadUpdate.apply_finished (map : UploadMap) (id : UploadId) :
    (UploadUpdate.finished id).apply map id = none :=
  Function.update_self ..

theorem UploadUpdate.shows_congr {u : UploadUpdate} {map map' : UploadMap}
    (h : map' u.upload = map u.upload) (hu : Shows u map) : Shows u map' := by
  cases u with
  | started id createdAt => exact (congrArg Option.isSome h).trans hu
  | chunk id n size =>
    obtain ⟨m, hm, hsize⟩ := hu
    exact ⟨m, h.trans hm, hsize⟩
  | finished id => exact h.trans hu

theorem UploadUpdate.keeps (u v : UploadUpdate) (map : UploadMap) (h : ¬ Overrides v u)
    (hu : Shows u map) : Shows u (v.apply map) := by
  by_cases hsame : u.upload = v.upload
  · cases v with
    | started id createdAt =>
      cases u with
      | started id' =>
        obtain rfl : id' = id := hsame
        exact congrArg Option.isSome (apply_started map id' createdAt)
      | chunk => exact absurd hsame.symm h
      | finished => exact absurd hsame.symm h
    | finished id =>
      cases u with
      | started => exact absurd hsame.symm h
      | chunk => exact absurd hsame.symm h
      | finished id' =>
        obtain rfl : id' = id := hsame
        exact apply_finished map id'
    | chunk id n size =>
      have hat := apply_chunk map id n size
      cases u with
      | started id' =>
        obtain rfl : id' = id := hsame
        exact (congrArg Option.isSome hat).trans (Option.isSome_map.trans hu)
      | finished id' =>
        obtain rfl : id' = id := hsame
        exact hat.trans (Option.map_eq_none_iff.mpr hu)
      | chunk id' n' size' =>
        obtain rfl : id' = id := hsame
        obtain ⟨m, hm, hsize⟩ := hu
        refine ⟨m.setChunk n size, ?_, ?_⟩
        · exact hat.trans (congrArg _ hm)
        · rw [size_setChunk]
          split
          · rename_i hn
            by_contra hne
            exact h ⟨rfl, hn.symm, hne⟩
          · exact hsize
  · exact shows_congr (apply_other hsame) hu

theorem ArtifactUpdate.keeps (u v : ArtifactUpdate) (items : List ArtifactMeta)
    (h : ¬ Overrides v u) (hu : Shows u items) : Shows u (v.apply items) := by
  cases v with
  | added item =>
    cases u with
    | added item' => exact List.mem_append_left _ hu
    | removed id =>
      intro m hm
      rcases List.mem_append.mp hm with hold | hnew
      · exact hu m hold
      · obtain rfl := List.mem_singleton.mp hnew
        exact h
  | removed id =>
    cases u with
    | added item =>
      refine (List.mem_eraseP_of_neg ?_).mpr hu
      rw [beq_iff_eq]
      exact h
    | removed id' => exact fun m hm => hu m (List.mem_of_mem_eraseP hm)

def uploadJournal : Journal UploadMap UploadUpdate where
  start _ := none
  apply := UploadUpdate.apply
  shows := UploadUpdate.Shows
  overrides := UploadUpdate.Overrides
  keeps := UploadUpdate.keeps

def artifactJournal : Journal (List ArtifactMeta) ArtifactUpdate where
  start := []
  apply := ArtifactUpdate.apply
  shows := ArtifactUpdate.Shows
  overrides := ArtifactUpdate.Overrides
  keeps := ArtifactUpdate.keeps

/-- The registry after the updates of a journal. -/
def registry (log : List (Entry UploadUpdate)) : UploadMap :=
  uploadJournal.state (log.map (·.update))

def artifactRegistry (log : List (Entry ArtifactUpdate)) : List ArtifactMeta :=
  artifactJournal.state (log.map (·.update))

/-! ## Journals that make sense -/

def Started (log : List (Entry UploadUpdate)) (id : UploadId) : Prop :=
  ∃ e ∈ log, ∃ createdAt, e.update = .started id createdAt

/-- The update could be made after the others. -/
def UploadUpdate.Enabled (log : List (Entry UploadUpdate)) : UploadUpdate → Prop
  | .started id _ => ¬ Started log id
  | .chunk id .. | .finished id => (registry log id).isSome

def Valid : List (Entry UploadUpdate) → Prop
  | [] => True
  | e :: log => e.update.Enabled log ∧ Valid log

/-- An id is removed where it is registered at most once. -/
def ArtifactUpdate.Enabled (items : List ArtifactMeta) : ArtifactUpdate → Prop
  | .added _ => True
  | .removed id => items.countP (fun m => m.id == id) ≤ 1

def ValidArtifacts : List (Entry ArtifactUpdate) → Prop
  | [] => True
  | e :: log => e.update.Enabled (artifactRegistry log) ∧ ValidArtifacts log

theorem UploadUpdate.shows_apply {u : UploadUpdate} {log : List (Entry UploadUpdate)}
    (h : u.Enabled log) : Shows u (u.apply (registry log)) := by
  cases u with
  | started id createdAt => exact congrArg Option.isSome (apply_started _ id createdAt)
  | finished id => exact apply_finished _ id
  | chunk id n size =>
    obtain ⟨m, hm⟩ := Option.isSome_iff_exists.mp h
    refine ⟨m.setChunk n size, ?_, ?_⟩
    · exact (apply_chunk _ id n size).trans (congrArg _ hm)
    · rw [size_setChunk, if_pos rfl]

theorem ArtifactUpdate.shows_apply {u : ArtifactUpdate} {items : List ArtifactMeta}
    (h : u.Enabled items) : Shows u (u.apply items) := by
  cases u with
  | added item => exact List.mem_append_right _ (List.mem_singleton_self item)
  | removed id =>
    intro m hm hid
    have hitem : (m.id == id) = true := beq_iff_eq.mpr hid
    obtain ⟨first, before, after, hbefore, hfirst, rfl, herased⟩ :=
      List.exists_of_eraseP (p := fun m => m.id == id) (List.mem_of_mem_eraseP hm) hitem
    have hcount : (before ++ first :: after).countP (fun m => m.id == id) ≤ 1 := h
    rw [List.countP_append,
      List.countP_cons_of_pos (p := fun m : ArtifactMeta => m.id == id) hfirst] at hcount
    have hafter : after.countP (fun m => m.id == id) = 0 := by omega
    have hm' : m ∈ (before ++ first :: after).eraseP fun m => m.id == id := hm
    rw [herased] at hm'
    rcases List.mem_append.mp hm' with hm' | hm'
    · exact hbefore m hm' hitem
    · exact List.countP_eq_zero.mp hafter m hm' hitem

theorem started_mono {log log' : List (Entry UploadUpdate)} (h : log <:+ log') {id : UploadId}
    (hs : Started log id) : Started log' id := by
  obtain ⟨e, he, hupdate⟩ := hs
  exact ⟨e, h.subset he, hupdate⟩

theorem Valid.suffix {log log' : List (Entry UploadUpdate)} (h : log <:+ log') (hv : Valid log') :
    Valid log := by
  obtain ⟨later, rfl⟩ := h
  induction later with
  | nil => exact hv
  | cons e later ih => exact ih hv.2

theorem started_of_isSome {log : List (Entry UploadUpdate)} {id : UploadId}
    (h : (registry log id).isSome) : Started log id := by
  induction log with
  | nil => cases h
  | cons e log ih =>
    have hold : (registry log id).isSome → Started (e :: log) id := fun hs =>
      started_mono (List.suffix_cons e log) (ih hs)
    by_cases hid : id = e.update.upload
    · obtain ⟨u, acknowledged⟩ := e
      cases u with
      | started id' createdAt =>
        obtain rfl : id = id' := hid
        exact ⟨_, List.mem_cons_self, createdAt, rfl⟩
      | chunk id' n size =>
        obtain rfl : id = id' := hid
        have hmap : registry (⟨.chunk id n size, acknowledged⟩ :: log) id =
            (registry log id).map fun m => m.setChunk n size := Function.update_self ..
        rw [hmap, Option.isSome_map] at h
        exact hold h
      | finished id' =>
        obtain rfl : id = id' := hid
        have hnone : registry (⟨.finished id, acknowledged⟩ :: log) id = none :=
          Function.update_self ..
        rw [hnone] at h
        cases h
    · have hsame : registry (e :: log) id = registry log id := UploadUpdate.apply_other hid
      rw [hsame] at h
      exact hold h

theorem started_of_chunk {log : List (Entry UploadUpdate)} (hv : Valid log)
    {e : Entry UploadUpdate} (he : e ∈ log) {id : UploadId} {n size : Nat}
    (hu : e.update = .chunk id n size) : Started log id := by
  induction log with
  | nil => cases he
  | cons e' log ih =>
    rcases List.mem_cons.mp he with rfl | he
    · have henabled := hv.1
      rw [hu] at henabled
      exact started_mono (List.suffix_cons e log) (started_of_isSome henabled)
    · exact started_mono (List.suffix_cons e' log) (ih hv.2 he)

/-- An upload that is still registered shows the length of every chunk that was sent once. -/
theorem size_of_chunk {log : List (Entry UploadUpdate)} (hv : Valid log) {id : UploadId}
    {m : UploadMeta} (hm : registry log id = some m) {n size : Nat}
    (honce : ∀ e ∈ log, ∀ k, e.update = .chunk id n k → k = size) {e : Entry UploadUpdate}
    (he : e ∈ log) {k : Nat} (hu : e.update = .chunk id n k) : m.size n = size := by
  induction log generalizing m with
  | nil => cases he
  | cons e' log ih =>
    have hrest : ∀ {m'}, registry log id = some m' → e ∈ log → m'.size n = size :=
      fun hm' he' => ih hv.2 hm' (fun x hx => honce x (List.mem_cons_of_mem e' hx)) he'
    by_cases hid : id = e'.update.upload
    · obtain ⟨u, acknowledged⟩ := e'
      cases u with
      | started id' createdAt =>
        obtain rfl : id = id' := hid
        rcases List.mem_cons.mp he with rfl | he
        · cases hu
        · exact absurd (started_of_chunk hv.2 he hu) hv.1
      | finished id' =>
        obtain rfl : id = id' := hid
        have hnone : registry (⟨.finished id, acknowledged⟩ :: log) id = none :=
          Function.update_self ..
        rw [hnone] at hm
        cases hm
      | chunk id' n' size' =>
        obtain rfl : id = id' := hid
        have hmap : registry (⟨.chunk id n' size', acknowledged⟩ :: log) id =
            (registry log id).map fun m => m.setChunk n' size' := Function.update_self ..
        rw [hmap] at hm
        obtain ⟨m', hm', rfl⟩ := Option.map_eq_some_iff.mp hm
        rw [size_setChunk]
        split
        · rename_i hn
          rw [hn] at honce
          exact honce _ List.mem_cons_self size' rfl
        · rename_i hn
          rcases List.mem_cons.mp he with rfl | he
          · obtain ⟨_, hn', _⟩ := UploadUpdate.chunk.inj hu
            exact absurd hn'.symm hn
          · exact hrest hm' he
    · have hsame : registry (e' :: log) id = registry log id := UploadUpdate.apply_other hid
      rw [hsame] at hm
      rcases List.mem_cons.mp he with rfl | he
      · rw [hu] at hid
        exact absurd rfl hid
      · exact hrest hm he

/-! ## The rules -/

def UploadState.storedUploads (s : UploadState) : UploadMap :=
  match s.uploads () with
  | some e => e.value
  | none => fun _ => none

def UploadState.storedArtifacts (s : UploadState) : List ArtifactMeta :=
  match s.artifacts () with
  | some e => e.value
  | none => []

def UploadState.readUploads (s : UploadState) : UploadMap :=
  (s.uploads.get s.now ()).getD fun _ => none

def UploadState.readArtifacts (s : UploadState) : List ArtifactMeta :=
  (s.artifacts.get s.now ()).getD []

/-- The registry has been saved within the last day, or never. -/
def UploadState.Unexpired (s : UploadState) : Prop :=
  (s.uploads ()).all (fun e => !e.expired s.now) = true

instance (s : UploadState) : Decidable s.Unexpired := inferInstanceAs (Decidable (_ = true))

/-- A registry that is loaded has not expired; it is saved only where no other save took effect
since the request loaded it; an id that is removed is registered once. -/
def SavedAlone (i : Nat) (_ : Choice) (o : UploadCall) (w : UploadWorld) : Prop :=
  match o with
  | .loadUploads => w.state.Unexpired
  | .saveUploads .. => w.watch.seen i = some w.watch.log.length
  | .saveArtifacts _ u =>
    w.watch.seenArtifacts i = some w.watch.artifactLog.length ∧ u.Enabled w.state.storedArtifacts
  | _ => True

instance (u : ArtifactUpdate) (items : List ArtifactMeta) : Decidable (u.Enabled items) :=
  match u with
  | .added _ => inferInstanceAs (Decidable True)
  | .removed id => inferInstanceAs (Decidable (items.countP (fun m => m.id == id) ≤ 1))

instance (i : Nat) (c : Choice) (o : UploadCall) (w : UploadWorld) :
    Decidable (SavedAlone i c o w) :=
  match o with
  | .loadUploads => inferInstanceAs (Decidable w.state.Unexpired)
  | .saveUploads .. => inferInstanceAs (Decidable (w.watch.seen i = some w.watch.log.length))
  | .saveArtifacts _ u => inferInstanceAs (Decidable (
      w.watch.seenArtifacts i = some w.watch.artifactLog.length ∧
        u.Enabled w.state.storedArtifacts))
  | .createPart | .clock | .openPart _ | .writePart .. | .partLength _ | .renamePart _
  | .loadArtifacts | .reportMissing .. => inferInstanceAs (Decidable True)

structure UploadInv (w : UploadWorld) : Prop where
  uploads : w.state.storedUploads = registry w.watch.log
  artifacts : w.state.storedArtifacts = artifactRegistry w.watch.artifactLog
  lasting : ∀ e, w.state.artifacts () = some e → e.expiresAt = none
  valid : Valid w.watch.log
  validArtifacts : ValidArtifacts w.watch.artifactLog
  owned : ∀ id, Started w.watch.log id → id < w.state.nextId
  /-- A chunk that is registered was written. -/
  logged : ∀ e ∈ w.watch.log, ∀ id n size, e.update = .chunk id n size →
    (id, n, size) ∈ w.watch.writes ∧ 0 < size ∧ size ≤ chunkSize ∧
      ∀ f, w.state.files id = some f → n * chunkSize + size ≤ f.length
  /-- A file is as long as what was written. -/
  written : ∀ id f, w.state.files id = some f →
    f.length = 0 ∨ ∃ n size, (id, n, size) ∈ w.watch.writes ∧ f.length ≤ n * chunkSize + size
  misreported : w.watch.misreported = []

/-- What others leave of what a request knows. -/
structure UploadRely (i : Nat) (w w' : UploadWorld) : Prop where
  nextId : w.state.nextId ≤ w'.state.nextId
  files : ∀ id, id < w.state.nextId → ∀ f', w'.state.files id = some f' →
    ∃ f, w.state.files id = some f ∧ f.length ≤ f'.length
  owner : ∀ id, id < w.state.nextId → w'.watch.owner id = w.watch.owner id
  log : w.watch.log <:+ w'.watch.log
  own : ∀ id, id < w.state.nextId → w.watch.owner id = i → ¬ Started w.watch.log id →
    ¬ Started w'.watch.log id
  seen : w'.watch.seen i = w.watch.seen i
  artifactLog : w.watch.artifactLog <:+ w'.watch.artifactLog
  seenArtifacts : w'.watch.seenArtifacts i = w.watch.seenArtifacts i
  writes : w.watch.writes ⊆ w'.watch.writes

def uploadRules : Service.Rules UploadWorld UploadCall Choice where
  inv := UploadInv
  ok := SavedAlone
  guarantee i w w' := ∀ j, j ≠ i → UploadRely j w w'
  rely := UploadRely

variable {i : Nat} {c : Choice} {w w' : UploadWorld}

theorem UploadRely.refl (i : Nat) (w : UploadWorld) : UploadRely i w w :=
  ⟨le_refl _, fun _ _ f h => ⟨f, h, le_refl _⟩, fun _ _ => rfl, List.suffix_rfl, fun _ _ _ h => h,
    rfl, List.suffix_rfl, rfl, List.Subset.refl _⟩

theorem UploadRely.trans {u : UploadWorld} (h : UploadRely i w w') (h' : UploadRely i w' u) :
    UploadRely i w u := by
  refine ⟨h.nextId.trans h'.nextId, ?_, ?_, h.log.trans h'.log, ?_, h'.seen.trans h.seen,
    h.artifactLog.trans h'.artifactLog, h'.seenArtifacts.trans h.seenArtifacts,
    fun _ hx => h'.writes (h.writes hx)⟩
  · intro id hid f hf
    obtain ⟨f', hf', hle'⟩ := h'.files id (hid.trans_le h.nextId) f hf
    obtain ⟨f'', hf'', hle⟩ := h.files id hid f' hf'
    exact ⟨f'', hf'', hle.trans hle'⟩
  · intro id hid
    exact (h'.owner id (hid.trans_le h.nextId)).trans (h.owner id hid)
  · intro id hid howner hs
    exact h'.own id (hid.trans_le h.nextId) ((h.owner id hid).trans howner) (h.own id hid howner hs)

/-! ## What the calls do -/

theorem UploadInv.keep (h : UploadInv w) (huploads : w'.state.uploads = w.state.uploads)
    (hartifacts : w'.state.artifacts = w.state.artifacts)
    (hnext : w'.state.nextId = w.state.nextId)
    (hfiles : ∀ id f', w'.state.files id = some f' →
      ∃ f, w.state.files id = some f ∧ f.length = f'.length)
    (hlog : w'.watch.log = w.watch.log) (hartifactLog : w'.watch.artifactLog = w.watch.artifactLog)
    (hwrites : w'.watch.writes = w.watch.writes)
    (hmisreported : w'.watch.misreported = w.watch.misreported) : UploadInv w' := by
  refine ⟨?_, ?_, ?_, ?_, ?_, ?_, ?_, ?_, hmisreported.trans h.misreported⟩
  · rw [hlog, ← h.uploads, UploadState.storedUploads, huploads]
    rfl
  · rw [hartifactLog, ← h.artifacts, UploadState.storedArtifacts, hartifacts]
    rfl
  · rw [hartifacts]
    exact h.lasting
  · rw [hlog]
    exact h.valid
  · rw [hartifactLog]
    exact h.validArtifacts
  · rw [hlog, hnext]
    exact h.owned
  · rw [hlog, hwrites]
    intro e he id n size hu
    obtain ⟨hwritten, hpos, hle, hlength⟩ := h.logged e he id n size hu
    refine ⟨hwritten, hpos, hle, ?_⟩
    intro f' hf'
    obtain ⟨f, hf, hsame⟩ := hfiles id f' hf'
    exact hsame ▸ hlength f hf
  · rw [hwrites]
    intro id f' hf'
    obtain ⟨f, hf, hsame⟩ := hfiles id f' hf'
    exact hsame ▸ h.written id f hf

theorem UploadRely.keep {j : Nat} (hnext : w'.state.nextId = w.state.nextId)
    (hfiles : ∀ id f', w'.state.files id = some f' →
      ∃ f, w.state.files id = some f ∧ f.length = f'.length)
    (howner : w'.watch.owner = w.watch.owner) (hlog : w'.watch.log = w.watch.log)
    (hseen : w'.watch.seen j = w.watch.seen j)
    (hartifactLog : w'.watch.artifactLog = w.watch.artifactLog)
    (hseenArtifacts : w'.watch.seenArtifacts j = w.watch.seenArtifacts j)
    (hwrites : w'.watch.writes = w.watch.writes) : UploadRely j w w' := by
  refine ⟨hnext.ge, ?_, fun id _ => congrFun howner id, hlog ▸ List.suffix_rfl, ?_, hseen,
    hartifactLog ▸ List.suffix_rfl, hseenArtifacts, hwrites ▸ List.Subset.refl _⟩
  · intro id _ f' hf'
    obtain ⟨f, hf, hsame⟩ := hfiles id f' hf'
    exact ⟨f, hf, hsame.le⟩
  · intro id _ _ hs
    rwa [hlog]

/-- The call neither writes nor loads. -/
def plain : UploadCall → Bool
  | .clock | .openPart _ | .partLength _ | .renamePart _ => true
  | _ => false

/-- Such a call leaves everything but the names of files. -/
theorem plain_exec {o : UploadCall} (ho : plain o = true) : ∃ files,
    (exec i c w o).1 = { w with state := { w.state with files := files } } ∧
      ∀ id f', files id = some f' → ∃ f, w.state.files id = some f ∧ f.length = f'.length := by
  have hsame : ∀ id f', w.state.files id = some f' →
      ∃ f, w.state.files id = some f ∧ f.length = f'.length := fun _ f' hf' => ⟨f', hf', rfl⟩
  cases o with
  | clock => exact ⟨w.state.files, rfl, hsame⟩
  | openPart => exact ⟨w.state.files, rfl, hsame⟩
  | partLength => exact ⟨w.state.files, rfl, hsame⟩
  | renamePart renamed =>
    cases heff : c.outcome.takesEffect with
    | false =>
      refine ⟨w.state.files, ?_, hsame⟩
      unfold exec perform
      dsimp only
      rw [heff, if_neg Bool.false_ne_true]
      rfl
    | true =>
      refine ⟨Function.update w.state.files renamed
        ((w.state.files renamed).map fun f => { f with finished := true }), ?_, ?_⟩
      · unfold exec perform
        dsimp only
        rw [heff, if_pos rfl]
        rfl
      · intro id f' hf'
        by_cases hid : id = renamed
        · subst hid
          rw [Function.update_self] at hf'
          obtain ⟨f, hf, rfl⟩ := Option.map_eq_some_iff.mp hf'
          exact ⟨f, hf, rfl⟩
        · rw [Function.update_of_ne hid] at hf'
          exact hsame id f' hf'
  | _ => cases ho

theorem plain_spec {o : UploadCall} (ho : plain o = true) (h : UploadInv w) :
    UploadInv (exec i c w o).1 ∧ ∀ j, UploadRely j w (exec i c w o).1 := by
  obtain ⟨files, hexec, hfiles⟩ := plain_exec (i := i) (c := c) (w := w) ho
  rw [hexec]
  exact ⟨h.keep rfl rfl rfl hfiles rfl rfl rfl rfl,
    fun j => .keep rfl hfiles rfl rfl rfl rfl rfl rfl⟩

/-- What a request knows of the registry it loaded. -/
def Loaded (i : Nat) (map : UploadMap) (w : UploadWorld) : Prop :=
  ∃ old, old <:+ w.watch.log ∧ w.watch.seen i = some old.length ∧ map = registry old

theorem Loaded.rely {map : UploadMap} (h : Loaded i map w) (hrely : UploadRely i w w') :
    Loaded i map w' := by
  obtain ⟨old, hold, hseen, hmap⟩ := h
  exact ⟨old, hold.trans hrely.log, hrely.seen.trans hseen, hmap⟩

theorem Loaded.current {map : UploadMap} (h : Loaded i map w)
    (hok : w.watch.seen i = some w.watch.log.length) : map = registry w.watch.log := by
  obtain ⟨old, hold, hseen, hmap⟩ := h
  have hlength := Option.some.inj (hseen.symm.trans hok)
  rw [hmap, hold.eq_of_length hlength]

theorem readUploads_eq {s : UploadState} (h : s.Unexpired) : s.readUploads = s.storedUploads := by
  unfold UploadState.Unexpired at h
  unfold UploadState.readUploads UploadState.storedUploads
  cases hentry : s.uploads () with
  | none =>
    unfold Kv.get Kv.live
    rw [hentry]
    rfl
  | some e =>
    rw [hentry] at h
    have hlive : e.expired s.now = false := (Bool.not_eq_true' _).mp h
    rw [Kv.get_eq_some.mpr ⟨e, hentry, hlive, rfl⟩]
    rfl

theorem UploadInv.readArtifacts_eq (h : UploadInv w) :
    w.state.readArtifacts = w.state.storedArtifacts := by
  unfold UploadState.readArtifacts UploadState.storedArtifacts
  cases hentry : w.state.artifacts () with
  | none =>
    unfold Kv.get Kv.live
    rw [hentry]
    rfl
  | some e =>
    have hlive : e.expired w.state.now = false := by
      unfold KvEntry.expired
      rw [h.lasting e hentry]
      rfl
    rw [Kv.get_eq_some.mpr ⟨e, hentry, hlive, rfl⟩]
    rfl

theorem loadUploads_spec (h : UploadInv w) (hok : w.state.Unexpired) :
    UploadInv (exec i c w .loadUploads).1 ∧
      (∀ j, j ≠ i → UploadRely j w (exec i c w .loadUploads).1) ∧
      ∀ map, (exec i c w .loadUploads).2 = some map → Loaded i map (exec i c w .loadUploads).1 := by
  have hsame : ∀ id f', w.state.files id = some f' →
      ∃ f, w.state.files id = some f ∧ f.length = f'.length := fun _ f' hf' => ⟨f', hf', rfl⟩
  refine ⟨h.keep rfl rfl rfl hsame rfl rfl rfl rfl, ?_, ?_⟩
  · intro j hj
    exact .keep rfl hsame rfl rfl (Function.update_of_ne hj ..) rfl rfl rfl
  · intro map hmap
    refine ⟨w.watch.log, List.suffix_rfl, Function.update_self .., ?_⟩
    have hread : (if c.outcome = .works then some w.state.readUploads else none) = some map := hmap
    split at hread
    · rw [← Option.some.inj hread, readUploads_eq hok, h.uploads]
    · cases hread

/-- The registry is saved with an update that can be made to it. -/
theorem saveUploads_spec (h : UploadInv w) {map : UploadMap} {u : UploadUpdate}
    (hmap : map = u.apply (registry w.watch.log)) (henabled : u.Enabled w.watch.log)
    (hstarts : ∀ id createdAt, u = .started id createdAt →
      w.watch.owner id = i ∧ id < w.state.nextId)
    (hwrote : ∀ id n size, u = .chunk id n size → (id, n, size) ∈ w.watch.writes ∧ 0 < size ∧
      size ≤ chunkSize ∧ ∀ f, w.state.files id = some f → n * chunkSize + size ≤ f.length) :
    UploadInv (exec i c w (.saveUploads map u)).1 ∧
      ∀ j, j ≠ i → UploadRely j w (exec i c w (.saveUploads map u)).1 := by
  cases heff : c.outcome.takesEffect with
  | false =>
    have hexec : (exec i c w (.saveUploads map u)).1 = w := by
      unfold exec perform note
      dsimp only
      rw [heff, if_neg Bool.false_ne_true, if_neg Bool.false_ne_true]
    rw [hexec]
    exact ⟨h, fun j _ => .refl j w⟩
  | true =>
    have hexec : (exec i c w (.saveUploads map u)).1 =
        { state := { w.state with
            uploads := w.state.uploads.set w.state.now () map (some uploadTtlSecs) }
          watch := { w.watch with
            log := ⟨u, decide (c.outcome = .works)⟩ :: w.watch.log } } := by
      unfold exec perform note
      dsimp only
      rw [heff, if_pos rfl, if_pos rfl]
    rw [hexec]
    have hstarted : ∀ id, Started (⟨u, decide (c.outcome = .works)⟩ :: w.watch.log) id →
        Started w.watch.log id ∨ ∃ createdAt, u = .started id createdAt := by
      rintro id ⟨e, he, createdAt, hu⟩
      rcases List.mem_cons.mp he with rfl | he
      · exact .inr ⟨createdAt, hu⟩
      · exact .inl ⟨e, he, createdAt, hu⟩
    refine ⟨⟨?_, h.artifacts, h.lasting, ⟨henabled, h.valid⟩, h.validArtifacts, ?_, ?_, h.written,
      h.misreported⟩, ?_⟩
    · show UploadState.storedUploads _ = u.apply (registry w.watch.log)
      unfold UploadState.storedUploads
      dsimp only
      rw [Kv.set_same]
      exact hmap
    · intro id hs
      rcases hstarted id hs with hold | ⟨createdAt, hu⟩
      · exact h.owned id hold
      · exact (hstarts id createdAt hu).2
    · intro e he id n size hu
      rcases List.mem_cons.mp he with rfl | he
      · exact hwrote id n size hu
      · exact h.logged e he id n size hu
    · intro j hj
      refine ⟨le_refl _, fun _ _ f hf => ⟨f, hf, le_refl _⟩, fun _ _ => rfl, List.suffix_cons _ _,
        ?_, rfl, List.suffix_rfl, rfl, List.Subset.refl _⟩
      intro id _ howner hnot hs
      rcases hstarted id hs with hold | ⟨createdAt, hu⟩
      · exact hnot hold
      · exact hj (howner.symm.trans (hstarts id createdAt hu).1)

theorem createPart_spec (h : UploadInv w) :
    UploadInv (exec i c w .createPart).1 ∧
      (∀ j, j ≠ i → UploadRely j w (exec i c w .createPart).1) ∧
      ∀ id, (exec i c w .createPart).2 = some id →
        (exec i c w .createPart).1.watch.owner id = i ∧
          id < (exec i c w .createPart).1.state.nextId ∧
          ¬ Started (exec i c w .createPart).1.watch.log id := by
  have hnot : ¬ Started w.watch.log w.state.nextId := fun hs =>
    Nat.lt_irrefl _ (h.owned _ hs)
  have hnext : (exec i c w .createPart).1.state.nextId = w.state.nextId + 1 := by
    unfold exec perform
    dsimp only
    split
    · rfl
    · rfl
  have hfiles : ∀ id f', (exec i c w .createPart).1.state.files id = some f' →
      w.state.files id = some f' ∨ id = w.state.nextId ∧ f'.length = 0 := by
    intro id f' hf'
    unfold exec perform at hf'
    dsimp only at hf'
    split at hf'
    · by_cases hid : id = w.state.nextId
      · subst hid
        have hnew := (Function.update_self ..).symm.trans hf'
        obtain rfl := Option.some.inj hnew
        exact .inr ⟨rfl, rfl⟩
      · exact .inl ((Function.update_of_ne hid ..).symm.trans hf')
    · exact .inl hf'
  have huploads : (exec i c w .createPart).1.state.uploads = w.state.uploads := by
    unfold exec perform
    dsimp only
    split
    · rfl
    · rfl
  have hartifacts : (exec i c w .createPart).1.state.artifacts = w.state.artifacts := by
    unfold exec perform
    dsimp only
    split
    · rfl
    · rfl
  refine ⟨⟨?_, ?_, ?_, h.valid, h.validArtifacts, ?_, ?_, ?_, h.misreported⟩, ?_, ?_⟩
  · rw [UploadState.storedUploads, huploads]
    exact h.uploads
  · rw [UploadState.storedArtifacts, hartifacts]
    exact h.artifacts
  · rw [hartifacts]
    exact h.lasting
  · intro id hs
    rw [hnext]
    exact Nat.lt_succ_of_lt (h.owned id hs)
  · intro e he id n size hu
    obtain ⟨hwritten, hpos, hle, hlength⟩ := h.logged e he id n size hu
    refine ⟨hwritten, hpos, hle, ?_⟩
    intro f hf
    rcases hfiles id f hf with hold | ⟨rfl, _⟩
    · exact hlength f hold
    · exact absurd (started_of_chunk h.valid he hu) hnot
  · intro id f hf
    rcases hfiles id f hf with hold | ⟨_, hzero⟩
    · exact h.written id f hold
    · exact .inl hzero
  · intro j hj
    refine ⟨hnext ▸ Nat.le_succ _, ?_, ?_, List.suffix_rfl, ?_, rfl, List.suffix_rfl, rfl,
      List.Subset.refl _⟩
    · intro id hid f' hf'
      rcases hfiles id f' hf' with hold | ⟨rfl, _⟩
      · exact ⟨f', hold, le_refl _⟩
      · exact absurd hid (Nat.lt_irrefl _)
    · intro id hid
      exact Function.update_of_ne hid.ne ..
    · exact fun _ _ _ hs => hs
  · intro id hid
    have hmade : (if c.outcome = .works then some w.state.nextId else none) = some id := hid
    split at hmade
    · obtain rfl := Option.some.inj hmade
      exact ⟨Function.update_self .., hnext ▸ Nat.lt_succ_self _, hnot⟩
    · cases hmade

theorem writePart_files {id n size : Nat} {id' : UploadId} {f' : StagedFile}
    (hf' : (exec i c w (.writePart id n size)).1.state.files id' = some f') :
    ∃ f, w.state.files id' = some f ∧ f.length ≤ f'.length ∧
      (f'.length = f.length ∨ id' = id ∧ f'.length ≤ n * chunkSize + size) ∧
      (c.outcome.takesEffect = true → id' = id → n * chunkSize + size ≤ f'.length) := by
  unfold exec perform at hf'
  dsimp only at hf'
  by_cases hid : id' = id
  · subst hid
    rw [Function.update_self] at hf'
    obtain ⟨f, hf, rfl⟩ := Option.map_eq_some_iff.mp hf'
    unfold StagedFile.extend
    dsimp only
    refine ⟨f, hf, le_max_left _ _, ?_, ?_⟩
    · rcases max_choice f.length (n * chunkSize +
        if c.outcome.takesEffect = true then size else min c.written size) with hmax | hmax
      · exact .inl hmax
      · refine .inr ⟨rfl, ?_⟩
        rw [hmax]
        split
        · exact le_refl _
        · exact Nat.add_le_add_left (min_le_right _ _) _
    · intro heff _
      rw [heff, if_pos rfl]
      exact le_max_right _ _
  · rw [Function.update_of_ne hid] at hf'
    exact ⟨f', hf', le_refl _, .inl rfl, fun _ h => absurd h hid⟩

/-- The chunk is in the file, if the file is there. -/
def Wrote (id n size : Nat) (w : UploadWorld) : Prop :=
  (id, n, size) ∈ w.watch.writes ∧ id < w.state.nextId ∧
    ∀ f, w.state.files id = some f → n * chunkSize + size ≤ f.length

theorem Wrote.rely {id n size : Nat} (h : Wrote id n size w) (hrely : UploadRely i w w') :
    Wrote id n size w' := by
  obtain ⟨hwrites, hid, hlength⟩ := h
  refine ⟨hrely.writes hwrites, hid.trans_le hrely.nextId, ?_⟩
  intro f' hf'
  obtain ⟨f, hf, hle⟩ := hrely.files id hid f' hf'
  exact (hlength f hf).trans hle

theorem writePart_spec (h : UploadInv w) {id : Nat} (n size : Nat) (hid : id < w.state.nextId) :
    UploadInv (exec i c w (.writePart id n size)).1 ∧
      (∀ j, UploadRely j w (exec i c w (.writePart id n size)).1) ∧
      ((exec i c w (.writePart id n size)).2 = true →
        Wrote id n size (exec i c w (.writePart id n size)).1) := by
  refine ⟨⟨h.uploads, h.artifacts, h.lasting, h.valid, h.validArtifacts, h.owned, ?_, ?_,
    h.misreported⟩, ?_, ?_⟩
  · intro e he id' n' size' hu
    obtain ⟨hwritten, hpos, hle, hlength⟩ := h.logged e he id' n' size' hu
    refine ⟨List.mem_cons_of_mem _ hwritten, hpos, hle, ?_⟩
    intro f' hf'
    obtain ⟨f, hf, hgrow, _⟩ := writePart_files hf'
    exact (hlength f hf).trans hgrow
  · intro id' f' hf'
    obtain ⟨f, hf, _, hsame | ⟨rfl, hle⟩, _⟩ := writePart_files hf'
    · rcases h.written id' f hf with hzero | ⟨n', size', hwritten, hle⟩
      · exact .inl (hsame.trans hzero)
      · exact .inr ⟨n', size', List.mem_cons_of_mem _ hwritten, hsame.le.trans hle⟩
    · exact .inr ⟨n, size, List.mem_cons_self, hle⟩
  · intro j
    refine ⟨le_refl _, ?_, fun _ _ => rfl, List.suffix_rfl, fun _ _ _ hs => hs, rfl,
      List.suffix_rfl, rfl, List.subset_cons_self _ _⟩
    intro id' _ f' hf'
    obtain ⟨f, hf, hgrow, _⟩ := writePart_files hf'
    exact ⟨f, hf, hgrow⟩
  · intro hworked
    have hworks : c.outcome = .works := of_decide_eq_true hworked
    refine ⟨List.mem_cons_self, hid, ?_⟩
    intro f' hf'
    obtain ⟨_, _, _, _, hlong⟩ := writePart_files hf'
    refine hlong ?_ rfl
    rw [hworks]
    rfl

theorem saveArtifacts_spec (h : UploadInv w) {items : List ArtifactMeta} {u : ArtifactUpdate}
    (hitems : items = u.apply (artifactRegistry w.watch.artifactLog))
    (henabled : u.Enabled w.state.storedArtifacts) :
    UploadInv (exec i c w (.saveArtifacts items u)).1 ∧
      ∀ j, j ≠ i → UploadRely j w (exec i c w (.saveArtifacts items u)).1 := by
  have hsame : ∀ id f', w.state.files id = some f' →
      ∃ f, w.state.files id = some f ∧ f.length = f'.length := fun _ f' hf' => ⟨f', hf', rfl⟩
  cases heff : c.outcome.takesEffect with
  | false =>
    have hexec : (exec i c w (.saveArtifacts items u)).1 = w := by
      unfold exec perform note
      dsimp only
      rw [heff, if_neg Bool.false_ne_true, if_neg Bool.false_ne_true]
    rw [hexec]
    exact ⟨h, fun j _ => .refl j w⟩
  | true =>
    have hexec : (exec i c w (.saveArtifacts items u)).1 =
        { state := { w.state with
            artifacts := w.state.artifacts.set w.state.now () items none }
          watch := { w.watch with
            artifactLog := ⟨u, decide (c.outcome = .works)⟩ :: w.watch.artifactLog } } := by
      unfold exec perform note
      dsimp only
      rw [heff, if_pos rfl, if_pos rfl]
    rw [hexec]
    rw [h.artifacts] at henabled
    refine ⟨⟨h.uploads, ?_, ?_, h.valid, ⟨henabled, h.validArtifacts⟩, h.owned, h.logged,
      h.written, h.misreported⟩, ?_⟩
    · show UploadState.storedArtifacts _ = u.apply (artifactRegistry w.watch.artifactLog)
      unfold UploadState.storedArtifacts
      dsimp only
      rw [Kv.set_same]
      exact hitems
    · intro e he
      dsimp only at he
      rw [Kv.set_same] at he
      obtain rfl := Option.some.inj he
      rfl
    · intro j _
      exact ⟨le_refl _, fun _ _ f hf => ⟨f, hf, le_refl _⟩, fun _ _ => rfl, List.suffix_rfl,
        fun _ _ _ hs => hs, rfl, List.suffix_cons _ _, rfl, List.Subset.refl _⟩

/-- What a request knows of the artifacts it loaded. -/
def LoadedArtifacts (i : Nat) (items : List ArtifactMeta) (w : UploadWorld) : Prop :=
  ∃ old, old <:+ w.watch.artifactLog ∧ w.watch.seenArtifacts i = some old.length ∧
    items = artifactRegistry old

theorem LoadedArtifacts.current {items : List ArtifactMeta} (h : LoadedArtifacts i items w)
    (hrely : UploadRely i w w')
    (hok : w'.watch.seenArtifacts i = some w'.watch.artifactLog.length) :
    items = artifactRegistry w'.watch.artifactLog := by
  obtain ⟨old, hold, hseen, hitems⟩ := h
  have hlength := Option.some.inj ((hrely.seenArtifacts.trans hseen).symm.trans hok)
  rw [hitems, (hold.trans hrely.artifactLog).eq_of_length hlength]

theorem loadArtifacts_spec (h : UploadInv w) :
    UploadInv (exec i c w .loadArtifacts).1 ∧
      (∀ j, j ≠ i → UploadRely j w (exec i c w .loadArtifacts).1) ∧
      ∀ items, (exec i c w .loadArtifacts).2 = some items →
        LoadedArtifacts i items (exec i c w .loadArtifacts).1 := by
  have hsame : ∀ id f', w.state.files id = some f' →
      ∃ f, w.state.files id = some f ∧ f.length = f'.length := fun _ f' hf' => ⟨f', hf', rfl⟩
  refine ⟨h.keep rfl rfl rfl hsame rfl rfl rfl rfl, ?_, ?_⟩
  · intro j hj
    exact .keep rfl hsame rfl rfl rfl rfl (Function.update_of_ne hj ..) rfl
  · intro items hitems
    refine ⟨w.watch.artifactLog, List.suffix_rfl, Function.update_self .., ?_⟩
    have hread : (if c.outcome = .works then some w.state.readArtifacts else none) = some items :=
      hitems
    split at hread
    · rw [← Option.some.inj hread, h.readArtifacts_eq, h.artifacts]
    · cases hread

/-- Missing chunks are reported where the upload is not complete. -/
theorem reportMissing_spec (h : UploadInv w) {id total : Nat} (missing : List Nat)
    (hcomplete : ¬ Complete id total (w.watch.seenLog i) w.watch.writes) :
    UploadInv (exec i c w (.reportMissing id total missing)).1 ∧
      ∀ j, UploadRely j w (exec i c w (.reportMissing id total missing)).1 := by
  have hexec : (exec i c w (.reportMissing id total missing)).1 = w := by
    unfold exec perform note
    dsimp only
    rw [if_neg hcomplete]
  rw [hexec]
  exact ⟨h, fun j => .refl j w⟩

/-! ## What is missing -/

theorem mem_badChunks {m : UploadMeta} {total n : Nat} : n ∈ badChunks m total ↔ n < total ∧
    (if n = total - 1 then m.size n = 0 ∨ chunkSize < m.size n else m.size n ≠ chunkSize) := by
  unfold badChunks
  rw [List.mem_filter, List.mem_range]
  split
  · rw [Bool.or_eq_true, decide_eq_true_eq, decide_eq_true_eq]
  · rw [decide_eq_true_eq]

theorem sum_full {total : Nat} {size : Nat → Nat} (hfull : ∀ n, n + 1 < total → size n = chunkSize)
    (hpos : 0 < total) :
    ((List.range total).map size).sum = (total - 1) * chunkSize + size (total - 1) := by
  obtain ⟨last, rfl⟩ := Nat.exists_eq_add_one.mpr hpos
  rw [List.range_succ, List.map_append, List.sum_append, List.map_singleton, List.sum_singleton,
    Nat.add_sub_cancel]
  congr 1
  have hconst : (List.range last).map size = List.replicate last chunkSize := by
    refine List.eq_replicate_iff.mpr ⟨by rw [List.length_map, List.length_range], ?_⟩
    intro x hx
    obtain ⟨n, hn, rfl⟩ := List.mem_map.mp hx
    exact hfull n (Nat.succ_lt_succ (List.mem_range.mp hn))
  rw [hconst, List.sum_replicate_nat]

/-- A complete upload: the lengths of its chunks. -/
theorem complete_sizes {id total : Nat} {old : List (Entry UploadUpdate)}
    {writes : List (UploadId × Nat × Nat)} (hv : Valid old)
    (hlogged : ∀ e ∈ old, ∀ id n size, e.update = .chunk id n size →
      (id, n, size) ∈ writes ∧ 0 < size ∧ size ≤ chunkSize)
    (h : Complete id total old writes) {m : UploadMeta} (hm : registry old id = some m) {n : Nat}
    (hn : n < total) : (∃ e ∈ old, e.update = .chunk id n (m.size n)) ∧
      (n + 1 < total → m.size n = chunkSize) ∧ 0 < m.size n ∧ m.size n ≤ chunkSize ∧
      ∀ size, (id, n, size) ∈ writes → size = m.size n := by
  obtain ⟨hall, honly⟩ := h
  obtain ⟨e, he, _, hchunk⟩ := hall n (List.mem_range.mpr hn)
  obtain ⟨size, hu⟩ : ∃ size, e.update = .chunk id n size := by
    cases hupdate : e.update with
    | chunk id' n' size =>
      rw [hupdate] at hchunk
      obtain ⟨hid, hn'⟩ := Bool.and_eq_true_iff.mp hchunk
      exact ⟨size, by rw [beq_iff_eq.mp hid, beq_iff_eq.mp hn']⟩
    | started =>
      rw [hupdate] at hchunk
      cases hchunk
    | finished =>
      rw [hupdate] at hchunk
      cases hchunk
  obtain ⟨hwritten, hpos, hle⟩ := hlogged e he id n size hu
  obtain ⟨_, hfull, hsame⟩ := honly _ hwritten rfl
  have hsize : m.size n = size := by
    apply size_of_chunk hv hm _ he hu
    intro x hx k hk
    exact hsame _ (hlogged x hx id n k hk).1 rfl rfl
  rw [hsize]
  exact ⟨⟨e, he, hu⟩, hfull, hpos, hle, fun k hk => hsame _ hk rfl rfl⟩

section Missing

variable {id total : Nat} {old : List (Entry UploadUpdate)} {writes : List (UploadId × Nat × Nat)}
  {m : UploadMeta}

theorem not_complete_of_bad (hv : Valid old)
    (hlogged : ∀ e ∈ old, ∀ id n size, e.update = .chunk id n size →
      (id, n, size) ∈ writes ∧ 0 < size ∧ size ≤ chunkSize)
    (hm : registry old id = some m) (hbad : badChunks m total ≠ []) :
    ¬ Complete id total old writes := by
  intro h
  obtain ⟨n, hn⟩ := List.exists_mem_of_ne_nil _ hbad
  obtain ⟨hlt, hwrong⟩ := mem_badChunks.mp hn
  obtain ⟨_, hfull, hpos, hle, _⟩ := complete_sizes hv hlogged h hm hlt
  split at hwrong
  · omega
  · exact hwrong (hfull (by omega))

/-- The file has the length of a complete upload. -/
theorem not_complete_of_length (hv : Valid old)
    (hlogged : ∀ e ∈ old, ∀ id n size, e.update = .chunk id n size →
      (id, n, size) ∈ writes ∧ 0 < size ∧ size ≤ chunkSize)
    (hm : registry old id = some m) (htotal : 0 < total) {length : Nat}
    (hlower : ∀ e ∈ old, ∀ n size, e.update = .chunk id n size → n * chunkSize + size ≤ length)
    (hupper : length = 0 ∨ ∃ n size, (id, n, size) ∈ writes ∧ length ≤ n * chunkSize + size)
    (hlength : length ≠ expectedLength m total) : ¬ Complete id total old writes := by
  intro h
  have hsizes := fun n (hn : n < total) => complete_sizes hv hlogged h hm hn
  have hexpected : expectedLength m total = (total - 1) * chunkSize + m.size (total - 1) :=
    sum_full (fun n hn => (hsizes n (by omega)).2.1 hn) htotal
  obtain ⟨⟨e, he, hu⟩, _, hpos, _, hlast⟩ := hsizes (total - 1) (by omega)
  have hlong := hlower e he _ _ hu
  have hshort : length ≤ (total - 1) * chunkSize + m.size (total - 1) := by
    rcases hupper with hzero | ⟨n, size, hwritten, hle⟩
    · omega
    · obtain ⟨hn, hfull, _⟩ := h.2 _ hwritten rfl
      by_cases hbefore : n + 1 < total
      · have hsize : size = chunkSize := hfull hbefore
        calc length ≤ n * chunkSize + size := hle
          _ = (n + 1) * chunkSize := by rw [hsize, Nat.succ_mul]
          _ ≤ (total - 1) * chunkSize := Nat.mul_le_mul_right _ (by omega)
          _ ≤ _ := Nat.le_add_right _ _
      · have hbelow : n < total := hn
        obtain rfl : n = total - 1 := by omega
        rw [hlast size hwritten] at hle
        exact hle
  omega

end Missing

/-! ## The operations -/

theorem safe_call {β : Type} {post : β → UploadWorld → Prop} {o : UploadCall}
    {f : o.Answer → UploadProg β}
    (h : ∀ w₁, UploadRely i w w₁ → UploadInv w₁ → ∀ c, SavedAlone i c o w₁ →
      UploadInv (exec i c w₁ o).1 ∧ (∀ j, j ≠ i → UploadRely j w₁ (exec i c w₁ o).1) ∧
        (f (exec i c w₁ o).2).Safe uploadService uploadRules i post (exec i c w₁ o).1) :
    (call o >>= f).Safe uploadService uploadRules i post w := by
  intro w₁ hrely hinv c w₂ r hok hexec
  obtain ⟨rfl, rfl⟩ := Prod.mk.inj (Option.some.inj hexec)
  exact h w₁ hrely hinv c hok

abbrev SafeProg {α : Type} (i : Nat) (p : UploadProg α) (w : UploadWorld) : Prop :=
  p.Safe uploadService uploadRules i (fun _ _ => True) w

/-- A save from what was loaded. -/
theorem save_safe {β : Type} {map : UploadMap} (hloaded : Loaded i map w) {u : UploadUpdate}
    {saved : UploadMap} (hsaved : saved = u.apply map)
    (henabled : ∀ w', UploadRely i w w' → map = registry w'.watch.log → u.Enabled w'.watch.log)
    (hstarts : ∀ id createdAt, u = .started id createdAt →
      w.watch.owner id = i ∧ id < w.state.nextId)
    (hwrote : ∀ id n size, u = .chunk id n size → Wrote id n size w ∧ 0 < size ∧ size ≤ chunkSize)
    {f : Bool → UploadProg β} {post : β → UploadWorld → Prop}
    (hf : ∀ b, ∃ a, f b = pure a ∧ ∀ w', post a w') :
    (call (.saveUploads saved u) >>= f).Safe uploadService uploadRules i post w := by
  apply safe_call
  intro w₁ hrely hinv c hok
  have hmap := (hloaded.rely hrely).current hok
  have hspec := saveUploads_spec (c := c) hinv (u := u) (hsaved.trans (by rw [hmap]))
    (henabled w₁ hrely hmap)
    (fun id createdAt hu => ⟨(hrely.owner id (hstarts id createdAt hu).2).trans
      (hstarts id createdAt hu).1, (hstarts id createdAt hu).2.trans_le hrely.nextId⟩)
    (fun id n size hu => by
      obtain ⟨hw, hpos, hle⟩ := hwrote id n size hu
      obtain ⟨hwrites, _, hlength⟩ := hw.rely hrely
      exact ⟨hwrites, hpos, hle, hlength⟩)
  refine ⟨hspec.1, hspec.2, ?_⟩
  obtain ⟨a, ha, hpost⟩ := hf (exec i c w₁ (.saveUploads saved u)).2
  rw [ha]
  exact hpost _

theorem plain_bind {β : Type} {o : UploadCall} (ho : plain o = true) {f : o.Answer → UploadProg β}
    {post : β → UploadWorld → Prop}
    (hf : ∀ w' r, UploadRely i w w' → (f r).Safe uploadService uploadRules i post w') :
    (call o >>= f).Safe uploadService uploadRules i post w := by
  apply safe_call
  intro w₁ hrely hinv c _
  obtain ⟨hinv', hown⟩ := plain_spec (i := i) (c := c) ho hinv
  exact ⟨hinv', fun j _ => hown j, hf _ _ (hrely.trans (hown i))⟩

/-- After a load; what the request knows otherwise is not touched by it. -/
theorem load_bind {β : Type} {f : Option UploadMap → UploadProg β} (hnone : ∃ a, f none = pure a)
    (hf : ∀ w₁ w' map, UploadRely i w w₁ → UploadInv w₁ → w'.state = w₁.state →
      w'.watch.owner = w₁.watch.owner → w'.watch.log = w₁.watch.log →
      Loaded i map w' → SafeProg i (f (some map)) w') :
    SafeProg i (call .loadUploads >>= f) w := by
  apply safe_call
  intro w₁ hrely hinv c hok
  obtain ⟨hinv', hguar, hloaded⟩ := loadUploads_spec (i := i) (c := c) hinv hok
  refine ⟨hinv', hguar, ?_⟩
  cases hmap : (exec i c w₁ .loadUploads).2 with
  | none =>
    obtain ⟨a, ha⟩ := hnone
    rw [ha]
    trivial
  | some map => exact hf w₁ _ map hrely hinv rfl rfl rfl (hloaded map hmap)

theorem start_safe : SafeProg i start w := by
  unfold start
  apply safe_call
  intro w₁ _ hinv₁ c₁ _
  obtain ⟨hinv₂, hguar₂, hmade⟩ := createPart_spec (i := i) (c := c₁) hinv₁
  refine ⟨hinv₂, hguar₂, ?_⟩
  cases hid : (exec i c₁ w₁ .createPart).2 with
  | none => trivial
  | some id =>
    obtain ⟨howner, hlt, hnot⟩ := hmade id hid
    dsimp only
    apply load_bind
    · exact ⟨_, rfl⟩
    intro w₃ w₄ map hrely₃ _ hstate hown hlog hloaded
    have howner₄ : w₄.watch.owner id = i := by rw [hown, hrely₃.owner id hlt, howner]
    have hlt₄ : id < w₄.state.nextId := hstate ▸ hlt.trans_le hrely₃.nextId
    have hnot₄ : ¬ Started w₄.watch.log id := by
      rw [hlog]
      exact hrely₃.own id hlt howner hnot
    apply plain_bind rfl
    intro w₅ createdAt hrely₅
    apply save_safe (hloaded.rely hrely₅)
    · rfl
    · intro w' hrely' _
      have hrely := hrely₅.trans hrely'
      exact hrely.own id hlt₄ howner₄ hnot₄
    · rintro id' t hu
      obtain ⟨rfl, _⟩ := UploadUpdate.started.inj hu
      exact ⟨(hrely₅.owner id hlt₄).trans howner₄, hlt₄.trans_le hrely₅.nextId⟩
    · intro id' n size hu
      cases hu
    · intro b
      cases b with
      | false => exact ⟨_, rfl, fun _ => trivial⟩
      | true => exact ⟨_, rfl, fun _ => trivial⟩

theorem Loaded.started {map : UploadMap} (h : Loaded i map w) {id : UploadId} {m : UploadMeta}
    (hm : map id = some m) : Started w.watch.log id := by
  obtain ⟨old, hold, _, rfl⟩ := h
  exact started_mono hold (started_of_isSome (Option.isSome_iff_exists.mpr ⟨m, hm⟩))

theorem putChunk_safe (id n size : Nat) : SafeProg i (putChunk id n size) w := by
  unfold putChunk
  split
  · trivial
  rename_i hpos
  split
  · trivial
  rename_i hle
  split
  · trivial
  apply load_bind
  · exact ⟨_, rfl⟩
  intro w₁ w₂ map _ hinv₁ hstate _ hlog hloaded
  dsimp only
  cases hm : map id with
  | none => trivial
  | some m =>
    have hlt : id < w₂.state.nextId := by
      have hs := hloaded.started hm
      rw [hlog] at hs
      rw [hstate]
      exact hinv₁.owned id hs
    apply plain_bind rfl
    intro w₃ opened hrely₃
    cases opened with
    | false => trivial
    | true =>
      apply safe_call
      intro w₄ hrely₄ hinv₄ c₄ _
      have hrely := hrely₃.trans hrely₄
      obtain ⟨hinv₅, hown₅, hwrote⟩ := writePart_spec (i := i) (c := c₄) hinv₄ n size
        (hlt.trans_le hrely.nextId)
      refine ⟨hinv₅, fun j _ => hown₅ j, ?_⟩
      cases hr : (exec i c₄ w₄ (.writePart id n size)).2 with
      | false => trivial
      | true =>
        apply save_safe (hloaded.rely (hrely.trans (hown₅ i)))
        · show _ = Function.update map id ((map id).map fun m => m.setChunk n size)
          rw [hm]
          rfl
        · intro w' _ hmap
          show (registry w'.watch.log id).isSome = true
          rw [← hmap, hm]
          rfl
        · intro id' t hu
          cases hu
        · rintro id' n' size' hu
          obtain ⟨rfl, rfl, rfl⟩ := UploadUpdate.chunk.inj hu
          exact ⟨hwrote hr, Nat.pos_of_ne_zero hpos, Nat.le_of_not_lt hle⟩
        · intro b
          cases b with
          | false => exact ⟨_, rfl, fun _ => trivial⟩
          | true => exact ⟨_, rfl, fun _ => trivial⟩

/-- A report is made, if the upload is not complete. -/
def Reports (id total : Nat) (r : Except UploadError UploadId) (w : UploadWorld) (i : Nat) : Prop :=
  ∀ missing, r = .error (.incomplete missing) →
    ∃ old, old <:+ w.watch.log ∧ w.watch.seen i = some old.length ∧
      ∀ w', UploadRely i w w' → UploadInv w' → ¬ Complete id total old w'.watch.writes

theorem Reports.of_other {id total : Nat} {r : Except UploadError UploadId}
    (h : ∀ missing, r ≠ .error (.incomplete missing)) : Reports id total r w i :=
  fun missing hr => absurd hr (h missing)

theorem logged_suffix (h : UploadInv w) {old : List (Entry UploadUpdate)}
    (hold : old <:+ w.watch.log) : ∀ e ∈ old, ∀ id n size, e.update = .chunk id n size →
      (id, n, size) ∈ w.watch.writes ∧ 0 < size ∧ size ≤ chunkSize := by
  intro e he id n size hu
  obtain ⟨hwritten, hpos, hle, _⟩ := h.logged e (hold.subset he) id n size hu
  exact ⟨hwritten, hpos, hle⟩

theorem finish_safe (id total : Nat) : (finish id total).Safe uploadService uploadRules i
    (fun r t => Reports id total r t i) w := by
  unfold finish
  split
  · exact .of_other fun _ h => nomatch h
  rename_i hrange
  apply safe_call
  intro w₁ _ hinv₁ c₁ hok₁
  obtain ⟨hinv₂, hguar₂, hmap⟩ := loadUploads_spec (i := i) (c := c₁) hinv₁ hok₁
  refine ⟨hinv₂, hguar₂, ?_⟩
  generalize exec i c₁ w₁ .loadUploads = loaded at hinv₂ hmap ⊢
  obtain ⟨w₂, r₂⟩ := loaded
  cases r₂ with
  | none => exact .of_other fun _ h => nomatch h
  | some map =>
    have hloaded : Loaded i map w₂ := hmap map rfl
    dsimp only
    cases hm : map id with
    | none => exact .of_other fun _ h => nomatch h
    | some m =>
      obtain ⟨old, hold, hseen, rfl⟩ := hloaded
      have hvalid := hinv₂.valid.suffix hold
      dsimp only
      split
      · rename_i hbad
        refine fun _ _ => ⟨old, hold, hseen, ?_⟩
        intro w' hrely hinv'
        exact not_complete_of_bad hvalid (logged_suffix hinv' (hold.trans hrely.log)) hm hbad
      · apply safe_call
        intro w₃ hrely₃ hinv₃ c₃ _
        obtain ⟨hinv₄, hown₄⟩ := plain_spec (i := i) (c := c₃) (o := .partLength id) rfl hinv₃
        refine ⟨hinv₄, fun j _ => hown₄ j, ?_⟩
        have hrely₄ := hrely₃.trans (hown₄ i)
        cases hr : (exec i c₃ w₃ (.partLength id)).2 with
        | none => exact .of_other fun _ h => nomatch h
        | some length =>
          have hread : (if c₃.outcome = .works then
              ((w₃.state.files id).filter fun f => !f.finished).map (·.length) else none) =
                some length := hr
          obtain ⟨f, hf, hlength⟩ : ∃ f, w₃.state.files id = some f ∧ f.length = length := by
            split at hread
            · obtain ⟨f, hf, hlength⟩ := Option.map_eq_some_iff.mp hread
              exact ⟨f, (Option.filter_eq_some_iff.mp hf).1, hlength⟩
            · cases hread
          dsimp only
          split
          · rename_i hwrong
            refine fun _ _ => ⟨old, hold.trans hrely₄.log, hrely₄.seen.trans hseen, ?_⟩
            intro w' hrely' hinv'
            have hlog := hold.trans ((hrely₄.trans hrely').log)
            apply not_complete_of_length hvalid (logged_suffix hinv' hlog) hm (by omega) _ _ hwrong
            · intro e he n size hu
              rw [← hlength]
              exact (hinv₃.logged e ((hold.trans hrely₃.log).subset he) id n size hu).2.2.2 f hf
            · rw [← hlength]
              refine (hinv₃.written id f hf).imp (fun hzero => hzero) ?_
              rintro ⟨n, size, hwritten, hle⟩
              exact ⟨n, size, ((hown₄ i).trans hrely').writes hwritten, hle⟩
          · apply plain_bind rfl
            intro w₅ renamed hrely₅
            cases renamed with
            | false => exact .of_other fun _ h => nomatch h
            | true =>
              have hloaded : Loaded i (registry old) w₅ :=
                Loaded.rely ⟨old, hold, hseen, rfl⟩ (hrely₄.trans hrely₅)
              apply save_safe hloaded
              · rfl
              · intro w' _ hmap
                show (registry w'.watch.log id).isSome = true
                rw [← hmap, hm]
                rfl
              · intro id' t hu
                cases hu
              · intro id' n size hu
                cases hu
              · intro b
                cases b with
                | false => exact ⟨_, rfl, fun _ => .of_other fun _ h => nomatch h⟩
                | true => exact ⟨_, rfl, fun _ => .of_other fun _ h => nomatch h⟩

theorem addArtifact_safe (item : ArtifactMeta) : SafeProg i (addArtifact item) w := by
  unfold addArtifact
  apply safe_call
  intro w₁ _ hinv₁ c₁ _
  obtain ⟨hinv₂, hguar₂, hitems⟩ := loadArtifacts_spec (i := i) (c := c₁) hinv₁
  refine ⟨hinv₂, hguar₂, ?_⟩
  cases hr : (exec i c₁ w₁ .loadArtifacts).2 with
  | none => trivial
  | some items =>
    apply safe_call
    intro w₃ hrely₃ hinv₃ c₃ hok₃
    have hcurrent := (hitems items hr).current hrely₃ hok₃.1
    obtain ⟨hinv₄, hguar₄⟩ := saveArtifacts_spec (c := c₃) hinv₃ (u := .added item)
      (congrArg (· ++ [item]) hcurrent) hok₃.2
    refine ⟨hinv₄, hguar₄, ?_⟩
    split
    · trivial
    · trivial

theorem removeArtifact_safe (id : Text) : SafeProg i (removeArtifact id) w := by
  unfold removeArtifact
  apply safe_call
  intro w₁ _ hinv₁ c₁ _
  obtain ⟨hinv₂, hguar₂, hitems⟩ := loadArtifacts_spec (i := i) (c := c₁) hinv₁
  refine ⟨hinv₂, hguar₂, ?_⟩
  cases hr : (exec i c₁ w₁ .loadArtifacts).2 with
  | none => trivial
  | some items =>
    dsimp only
    split
    · trivial
    · apply safe_call
      intro w₃ hrely₃ hinv₃ c₃ hok₃
      have hcurrent := (hitems items hr).current hrely₃ hok₃.1
      obtain ⟨hinv₄, hguar₄⟩ := saveArtifacts_spec (c := c₃) hinv₃ (u := .removed id)
        (congrArg (List.eraseP fun m => m.id == id) hcurrent) hok₃.2
      refine ⟨hinv₄, hguar₄, ?_⟩
      split
      · trivial
      · trivial

theorem seenLog_eq {old : List (Entry UploadUpdate)} (hold : old <:+ w.watch.log)
    (hseen : w.watch.seen i = some old.length) : w.watch.seenLog i = old := by
  unfold UploadWatch.seenLog
  rw [hseen]
  exact (List.suffix_iff_eq_drop.mp hold).symm

theorem serve_safe (r : UploadRequest) : SafeProg i (serve r) w := by
  cases r with
  | start => exact Prog.safe_bind _ _ (start_safe.weaken _ fun _ _ _ => trivial)
  | putChunk id n size =>
    exact Prog.safe_bind _ _ ((putChunk_safe id n size).weaken _ fun _ _ _ => trivial)
  | addArtifact item =>
    exact Prog.safe_bind _ _ ((addArtifact_safe item).weaken _ fun _ _ _ => trivial)
  | removeArtifact id =>
    exact Prog.safe_bind _ _ ((removeArtifact_safe id).weaken _ fun _ _ _ => trivial)
  | finish id total =>
    refine Prog.safe_bind _ _ ((finish_safe id total).weaken _ ?_)
    intro r w' hreports
    split
    · rename_i missing
      obtain ⟨old, hold, hseen, hnot⟩ := hreports missing rfl
      intro w₁ hrely hinv c w₂ r _ hexec
      obtain ⟨rfl, rfl⟩ := Prod.mk.inj (Option.some.inj hexec)
      have hcomplete : ¬ Complete id total (w₁.watch.seenLog i) w₁.watch.writes := by
        rw [seenLog_eq (hold.trans hrely.log) (hrely.seen.trans hseen)]
        exact hnot w₁ hrely hinv
      obtain ⟨hinv', hown⟩ := reportMissing_spec (c := c) hinv missing hcomplete
      exact ⟨hinv', fun j _ => hown j, trivial⟩
    · trivial

/-! ## The whole run -/

theorem init_inv (h : uploadService.init w) : UploadInv w := by
  obtain ⟨huploads, hartifacts, hfiles, hlog, hartifactLog, hwrites, hmisreported⟩ := h
  refine ⟨?_, ?_, ?_, ?_, ?_, ?_, ?_, ?_, hmisreported⟩
  · rw [UploadState.storedUploads, huploads, hlog]
    rfl
  · rw [UploadState.storedArtifacts, hartifacts, hartifactLog]
    rfl
  · intro e he
    rw [hartifacts] at he
    cases he
  · rw [hlog]
    trivial
  · rw [hartifactLog]
    trivial
  · rintro id ⟨e, he, _⟩
    rw [hlog] at he
    cases he
  · intro e he
    rw [hlog] at he
    cases he
  · intro id f hf
    rw [hfiles] at hf
    cases hf

theorem env_spec (h : UploadInv w) (e : UploadEvent) :
    UploadInv (uploadService.env e w) ∧ ∀ j, UploadRely j w (uploadService.env e w) := by
  have hfiles : ∀ id f', (uploadService.env e w).state.files id = some f' →
      ∃ f, w.state.files id = some f ∧ f.length = f'.length := by
    intro id f' hf'
    cases e with
    | tick seconds => exact ⟨f', hf', rfl⟩
    | sweep => exact ⟨f', (Option.filter_eq_some_iff.mp hf').1, rfl⟩
  have hkept : (uploadService.env e w).state.uploads = w.state.uploads ∧
      (uploadService.env e w).state.artifacts = w.state.artifacts ∧
      (uploadService.env e w).state.nextId = w.state.nextId := by
    cases e with
    | tick seconds => exact ⟨rfl, rfl, rfl⟩
    | sweep => exact ⟨rfl, rfl, rfl⟩
  exact ⟨h.keep hkept.1 hkept.2.1 hkept.2.2 hfiles rfl rfl rfl rfl,
    fun j => .keep hkept.2.2 hfiles rfl rfl rfl rfl rfl rfl⟩

theorem uploadRules_sound : uploadRules.Sound uploadService where
  init _ := init_inv
  rely_refl := UploadRely.refl
  rely_trans _ _ _ _ := UploadRely.trans
  rely_of_guarantee _ _ _ _ hij _ hguar := hguar _ hij
  arrive _ _ w hinv _ := ⟨hinv, fun i _ => .refl i w⟩
  env e _ hinv := env_spec hinv e
  safe _ kind _ _ _ := serve_safe kind

/-- Every acknowledged update can be seen in what is read now until another one overrides it,
and no `finish` has missed a chunk of a complete upload. -/
structure UpdatesKept (w : UploadWorld) : Prop where
  uploads : w.state.Unexpired → ∀ later e earlier, w.watch.log = later ++ e :: earlier →
    e.acknowledged = true → (∀ v ∈ later, ¬ v.update.Overrides e.update) →
      e.update.Shows w.state.readUploads
  artifacts : ∀ later e earlier, w.watch.artifactLog = later ++ e :: earlier →
    e.acknowledged = true → (∀ v ∈ later, ¬ v.update.Overrides e.update) →
      e.update.Shows w.state.readArtifacts
  reported : w.watch.misreported = []

theorem ValidArtifacts.suffix {log log' : List (Entry ArtifactUpdate)} (h : log <:+ log')
    (hv : ValidArtifacts log') : ValidArtifacts log := by
  obtain ⟨later, rfl⟩ := h
  induction later with
  | nil => exact hv
  | cons e later ih => exact ih hv.2

theorem UploadInv.updatesKept (h : UploadInv w) : UpdatesKept w := by
  refine ⟨?_, ?_, h.misreported⟩
  · intro hlive later e earlier hlog _ hkept
    rw [readUploads_eq hlive, h.uploads]
    have hvalid : Valid (e :: earlier) := h.valid.suffix ⟨later, hlog.symm⟩
    have hmap : w.watch.log.map (·.update) =
        later.map (·.update) ++ e.update :: earlier.map (·.update) := by
      rw [hlog, List.map_append, List.map_cons]
    refine Journal.shows_of_mem (J := uploadJournal) hmap (UploadUpdate.shows_apply hvalid.1) ?_
    intro v hv
    obtain ⟨x, hx, rfl⟩ := List.mem_map.mp hv
    exact hkept x hx
  · intro later e earlier hlog _ hkept
    rw [h.readArtifacts_eq, h.artifacts]
    have hvalid : ValidArtifacts (e :: earlier) := h.validArtifacts.suffix ⟨later, hlog.symm⟩
    have hmap : w.watch.artifactLog.map (·.update) =
        later.map (·.update) ++ e.update :: earlier.map (·.update) := by
      rw [hlog, List.map_append, List.map_cons]
    refine Journal.shows_of_mem (J := artifactJournal) hmap (ArtifactUpdate.shows_apply hvalid.1) ?_
    intro v hv
    obtain ⟨x, hx, rfl⟩ := List.mem_map.mp hv
    exact hkept x hx

abbrev UploadPool := Pool UploadWorld UploadCall UploadCall.Answer

def emptyWorld : UploadWorld where
  state := ⟨0, fun _ => none, fun _ => none, fun _ => none, 0⟩
  watch := ⟨[], [], fun _ => none, fun _ => none, fun _ => 0, [], []⟩

abbrev UploadAction := PoolAction UploadRequest Choice UploadEvent

/-- The next calls of a request, all of which work. -/
def calls (request count : Nat) : List UploadAction := List.replicate count (.call request {})

/-- An upload is started, its two chunks are sent at the same time, and it is finished. -/
def atOnce : List UploadAction :=
  .arrive .start :: calls 0 4 ++
    [.arrive (.putChunk 0 0 chunkSize), .arrive (.putChunk 0 1 5)] ++ calls 1 1 ++ calls 2 1 ++
    calls 1 3 ++ calls 2 3 ++ .arrive (.finish 0 2) :: calls 3 2

theorem emptyWorld_init : uploadService.init emptyWorld :=
  ⟨rfl, rfl, fun _ => rfl, rfl, rfl, rfl, rfl⟩

/-- The same chunks one after the other. -/
def inTurn : List UploadAction :=
  .arrive .start :: calls 0 4 ++ .arrive (.putChunk 0 0 chunkSize) :: calls 1 4 ++
    .arrive (.putChunk 0 1 5) :: calls 2 4 ++ .arrive (.finish 0 2) :: calls 3 4

end Lyra.Uploads
