import Lyra.Frontend.MailStore

/-!
# Patching a batch of messages

`patchMessages` sends the patch for one message after the other and applies it to the store, until
a call fails.  The labels are written over the message as it was before the read flag and the star
were.

* `patchedStore_eq`: what the batch leaves in the store;
* `patch_in_step_iff`: it is the patch exactly if no labels come with a change of the flags.
-/

namespace Lyra.MailStore

section Patch

variable {ω ρ : Type}

structure Patch where
  isRead : Option Bool
  isStarred : Option Bool
  labels : Option (List Text)

/-- The loop of `runBatch`: the ids done, the state, and the first error. -/
def runBatch {σ : Type} (apply : σ → Text → σ) (call : Nat → Except Text Unit) :
    Nat → List Text → List Text → σ → List Text × Option Text × σ
  | _, [], done, s => (done, none, s)
  | n, id :: ids, done, s =>
    match call n with
    | .error err => (done, some err, s)
    | .ok () => runBatch apply call (n + 1) ids (done ++ [id]) (apply s id)

/-- What a patched message does to the store. -/
def applyPatch (patch : Patch) (s : MailState ω ρ) (id : Text) : MailState ω ρ :=
  match s.messages id with
  | none => s
  | some m =>
    let s := if patch.isRead = some true then s.markMessageRead id else s
    let s := if patch.isRead = some false then s.upsertMessage { m with isRead := false } else s
    let s :=
      match patch.isStarred with
      | some isStarred => if m.isStarred ≠ isStarred then s.toggleStar id else s
      | none => s
    match patch.labels with
    | some labels => s.upsertMessage { m with labels := some labels }
    | none => s

/-- `call n` is the answer to the `n`-th request. -/
def patchMessages (call : Nat → Except Text Unit) (ids : List Text) (patch : Patch)
    (s : MailState ω ρ) : List Text × Option Text × MailState ω ρ :=
  runBatch (applyPatch patch) call 0 ids [] s

/-! ## What should be in the store -/

/-- The patched fields have the values of the patch. -/
def Patch.patched (patch : Patch) (m : MailMessage ω ρ) : MailMessage ω ρ :=
  { m with
    isRead := patch.isRead.getD m.isRead
    isStarred := patch.isStarred.getD m.isStarred
    labels := patch.labels.or m.labels }

/-- The messages that were done are patched, and the others are as they were. -/
def PatchedInStep (call : Nat → Except Text Unit) (ids : List Text) (patch : Patch)
    (s : MailState ω ρ) : Prop :=
  ∀ id, (patchMessages call ids patch s).2.2.messages id =
    if id ∈ (patchMessages call ids patch s).1 then (s.messages id).map patch.patched
    else s.messages id

/-- The request for this id is made and answered. -/
def Answered (call : Nat → Except Text Unit) (ids : List Text) (id : Text) : Prop :=
  ∃ n, ids[n]? = some id ∧ ∀ k, k ≤ n → call k = .ok ()

/-- There are no labels in the patch, or its flags are those of the messages already. -/
def NoStaleLabels (call : Nat → Except Text Unit) (ids : List Text) (patch : Patch)
    (s : MailState ω ρ) : Prop :=
  patch.labels = none ∨ ∀ id m, Answered call ids id → s.messages id = some m →
    patch.isRead.getD m.isRead = m.isRead ∧ patch.isStarred.getD m.isStarred = m.isStarred

/-! ## One message -/

/-- What the store operations make of a message. -/
def Patch.effect (patch : Patch) (m : MailMessage ω ρ) : MailMessage ω ρ :=
  match patch.labels with
  | some labels => { m with labels := some labels }
  | none => patch.patched m

section Message

variable {s : MailState ω ρ} {m e : MailMessage ω ρ} {id : Text}

theorem mergeMessage_same (htext : m.bodyText = e.bodyText) (hhtml : m.bodyHtml = e.bodyHtml)
    (hopengpg : m.opengpg = e.opengpg) (hsnippet : m.snippet = e.snippet) :
    mergeMessage (some e) m = m := by
  have hor : orText m.snippet e.snippet = m.snippet := by
    rw [hsnippet, orText]
    split
    · rfl
    · rfl
  unfold mergeMessage
  dsimp only
  split
  · rw [hor]
  · split
    · rfl
    · rw [hor, ← hopengpg, Option.or_self, ← htext, ← hhtml]

theorem messages_upsert (hm : m.id = id) (he : s.messages id = some e)
    (htext : m.bodyText = e.bodyText) (hhtml : m.bodyHtml = e.bodyHtml)
    (hopengpg : m.opengpg = e.opengpg) (hsnippet : m.snippet = e.snippet) (k : Text) :
    (s.upsertMessage m).messages k = if k = id then some m else s.messages k := by
  show (if k = m.id then some (mergeMessage (s.messages m.id) m) else s.messages k) = _
  rw [hm, he, mergeMessage_same htext hhtml hopengpg hsnippet]

theorem messages_markMessageRead (he : s.messages id = some e) (k : Text) :
    (s.markMessageRead id).messages k = if k = id then some e.markRead else s.messages k := by
  unfold MailState.markMessageRead
  rw [he]
  dsimp only
  split
  · rename_i hread
    split
    · rename_i hk
      rw [hk, he, MailMessage.markRead, ← hread]
    · rfl
  · show (if k = id then (s.messages id).map _ else s.messages k) = _
    rw [he]
    rfl

theorem messages_toggleStar (he : s.messages id = some e) (k : Text) :
    (s.toggleStar id).messages k = if k = id then some e.toggleStar else s.messages k := by
  show (if k = id then (s.messages id).map _ else s.messages k) = _
  rw [he]
  rfl

/-- The store has one other message than before. -/
def Differs (s t : MailState ω ρ) (id : Text) (m : MailMessage ω ρ) : Prop :=
  ∀ k, t.messages k = if k = id then some m else s.messages k

theorem Differs.at {s t : MailState ω ρ} (h : Differs s t id m) : t.messages id = some m := by
  rw [h id, if_pos rfl]

theorem Differs.trans {s t u : MailState ω ρ} (h : Differs s t id e) (h' : Differs t u id m) :
    Differs s u id m := by
  intro k
  rw [h' k, h k]
  split <;> rfl

theorem differs_self (hm : s.messages id = some m) : Differs s s id m := by
  intro k
  split
  · rename_i hk
    rw [hk, hm]
  · rfl

theorem differs_applyPatch (patch : Patch) (hm : s.messages id = some m) :
    Differs s (applyPatch patch s id) id (patch.effect m) := by
  have hid := s.keyed id m hm
  -- the read flag
  obtain ⟨s₁, hs₁, h₁⟩ : ∃ s₁, s₁ = (if patch.isRead = some true then s.markMessageRead id else s) ∧
      Differs s s₁ id { m with isRead := m.isRead || patch.isRead == some true } := by
    refine ⟨_, rfl, ?_⟩
    split
    · rename_i hread
      rw [hread, beq_self_eq_true, Bool.or_true]
      exact messages_markMessageRead hm
    · rename_i hread
      rw [beq_eq_false_iff_ne.mpr hread, Bool.or_false]
      exact differs_self hm
  obtain ⟨s₂, hs₂, h₂⟩ : ∃ s₂, s₂ = (if patch.isRead = some false then
        s₁.upsertMessage { m with isRead := false } else s₁) ∧
      Differs s s₂ id { m with isRead := patch.isRead.getD m.isRead } := by
    refine ⟨_, rfl, ?_⟩
    split
    · rename_i hread
      rw [hread]
      refine h₁.trans ?_
      exact messages_upsert (m := { m with isRead := false }) hid h₁.at rfl rfl rfl rfl
    · rename_i hread
      have hvalue : (m.isRead || patch.isRead == some true) = patch.isRead.getD m.isRead := by
        cases hpatch : patch.isRead with
        | none => simp
        | some b =>
          cases b
          · exact absurd hpatch hread
          · simp
      rw [← hvalue]
      exact h₁
  -- the star
  obtain ⟨s₃, hs₃, h₃⟩ : ∃ s₃, s₃ = (match patch.isStarred with
        | some isStarred => if m.isStarred ≠ isStarred then s₂.toggleStar id else s₂
        | none => s₂) ∧
      Differs s s₃ id { m with
        isRead := patch.isRead.getD m.isRead
        isStarred := patch.isStarred.getD m.isStarred } := by
    refine ⟨_, rfl, ?_⟩
    cases patch.isStarred with
    | none => exact h₂
    | some isStarred =>
      dsimp only [Option.getD_some]
      split
      · rename_i hne
        have hvalue : (!m.isStarred) = isStarred := by
          cases hm : m.isStarred <;> cases isStarred <;> simp_all
        rw [← hvalue]
        exact h₂.trans (messages_toggleStar h₂.at)
      · rename_i heq
        rw [← not_not.mp heq]
        exact h₂
  -- the labels, over the message as it was
  have hlast : applyPatch patch s id = (match patch.labels with
      | some labels => s₃.upsertMessage { m with labels := some labels }
      | none => s₃) := by
    unfold applyPatch
    rw [hm, hs₃, hs₂, hs₁]
  rw [hlast, Patch.effect]
  cases hlabels : patch.labels with
  | none =>
    dsimp only
    rw [Patch.patched, hlabels, Option.none_or]
    exact h₃
  | some labels =>
    exact h₃.trans
      (messages_upsert (m := { m with labels := some labels }) hid h₃.at rfl rfl rfl rfl)

theorem applyPatch_messages (patch : Patch) (s : MailState ω ρ) (id k : Text) :
    (applyPatch patch s id).messages k =
      if k = id then (s.messages id).map patch.effect else s.messages k := by
  cases hm : s.messages id with
  | none =>
    have hsame : applyPatch patch s id = s := by
      unfold applyPatch
      rw [hm]
    rw [hsame]
    split
    · rename_i hk
      rw [hk, hm]
      rfl
    · rfl
  | some m => exact differs_applyPatch patch hm k

theorem effect_effect (patch : Patch) (m : MailMessage ω ρ) :
    patch.effect (patch.effect m) = patch.effect m := by
  unfold Patch.effect Patch.patched
  split
  · rfl
  · cases patch.isRead <;> cases patch.isStarred <;> cases patch.labels <;> rfl

end Message

/-! ## The batch -/

section Batch

variable {s : MailState ω ρ} {call : Nat → Except Text Unit} {patch : Patch} {ids : List Text}

/-- The ids done are those with answers up to their own, and each is changed once. -/
theorem runBatch_spec (patch : Patch) (n : Nat) (ids done : List Text) (s : MailState ω ρ) :
    ∃ new, (runBatch (applyPatch patch) call n ids done s).1 = done ++ new ∧
      (∀ id, id ∈ new ↔ ∃ k, ids[k]? = some id ∧ ∀ j, j ≤ k → call (n + j) = .ok ()) ∧
      ∀ k, (runBatch (applyPatch patch) call n ids done s).2.2.messages k =
        if k ∈ new then (s.messages k).map patch.effect else s.messages k := by
  induction ids generalizing n done s with
  | nil => exact ⟨[], (List.append_nil done).symm, by simp, fun k => rfl⟩
  | cons id ids ih =>
    rw [runBatch]
    cases hcall : call n with
    | error err =>
      refine ⟨[], (List.append_nil done).symm, ?_, fun k => rfl⟩
      refine fun x => iff_of_false List.not_mem_nil ?_
      rintro ⟨k, -, hk⟩
      cases hcall.symm.trans (hk 0 (Nat.zero_le k))
    | ok =>
      obtain ⟨new, hdone, hnew, hstore⟩ := ih (n + 1) (done ++ [id]) (applyPatch patch s id)
      refine ⟨id :: new, by rw [hdone, List.append_assoc]; rfl, ?_, ?_⟩
      · intro x
        rw [List.mem_cons, hnew]
        constructor
        · rintro (rfl | ⟨k, hk, hanswers⟩)
          · refine ⟨0, rfl, fun j hj => ?_⟩
            rw [Nat.le_zero.mp hj]
            exact hcall
          · refine ⟨k + 1, hk, fun j hj => ?_⟩
            cases j with
            | zero => exact hcall
            | succ j =>
              rw [← Nat.succ_add_eq_add_succ]
              exact hanswers j (Nat.le_of_succ_le_succ hj)
        · rintro ⟨k, hk, hanswers⟩
          cases k with
          | zero => exact .inl (Option.some.inj hk).symm
          | succ k =>
            refine .inr ⟨k, hk, fun j hj => ?_⟩
            rw [Nat.add_right_comm]
            exact hanswers (j + 1) (Nat.succ_le_succ hj)
      · intro k
        rw [hstore k, applyPatch_messages]
        by_cases hk : k = id
        · rw [if_pos hk, hk, if_pos List.mem_cons_self]
          split
          · rw [Option.map_map]
            exact congrArg (Option.map · _) (funext (effect_effect patch))
          · rfl
        · rw [if_neg hk]
          simp only [List.mem_cons, hk, false_or]

theorem patchedStore_eq (call : Nat → Except Text Unit) (ids : List Text) (patch : Patch)
    (s : MailState ω ρ) :
    (∀ id, id ∈ (patchMessages call ids patch s).1 ↔ Answered call ids id) ∧
    ∀ id, (patchMessages call ids patch s).2.2.messages id =
      if id ∈ (patchMessages call ids patch s).1 then (s.messages id).map patch.effect
      else s.messages id := by
  obtain ⟨new, hdone, hnew, hstore⟩ := @runBatch_spec _ _ call patch 0 ids [] s
  unfold patchMessages
  rw [hdone, List.nil_append]
  refine ⟨fun id => ?_, hstore⟩
  rw [hnew, Answered]
  simp only [Nat.zero_add]

/-- For every batch, every patch and every failing request, the messages done have exactly the
patched fields changed and the others nothing, exactly if no labels come with a changing flag. -/
theorem patch_in_step_iff (call : Nat → Except Text Unit) (ids : List Text) (patch : Patch)
    (s : MailState ω ρ) : PatchedInStep call ids patch s ↔ NoStaleLabels call ids patch s := by
  obtain ⟨hdone, hstore⟩ := patchedStore_eq call ids patch s
  constructor
  · intro h
    cases hlabels : patch.labels with
    | none => exact .inl hlabels
    | some labels =>
      refine .inr fun id m hid hm => ?_
      have hmap := h id
      rw [hstore id, if_pos ((hdone id).mpr hid), if_pos ((hdone id).mpr hid), hm] at hmap
      have heq := Option.some.inj hmap
      rw [Patch.effect, hlabels] at heq
      exact ⟨(congrArg MailMessage.isRead heq).symm, (congrArg MailMessage.isStarred heq).symm⟩
  · intro h id
    rw [hstore id]
    split
    case isTrue hid =>
      cases hm : s.messages id with
      | none => rfl
      | some m =>
        refine congrArg some ?_
        rcases h with hnone | hflags
        · rw [Patch.effect, hnone]
        · obtain ⟨hread, hstar⟩ := hflags id m ((hdone id).mp hid) hm
          unfold Patch.effect
          cases hlabels : patch.labels with
          | none => rfl
          | some labels =>
            dsimp only
            rw [Patch.patched, hread, hstar, hlabels, Option.some_or]
    case isFalse => rfl

end Batch

end Patch

/-! ## Labels with a flag -/

def unreadMessage : MailMessage Unit Unit :=
  ⟨['m'], ['a'], ['f'], ['s'], none, none, false, false, none, none, ()⟩

theorem keyed_unread : ∀ (id : Text) (m : MailMessage Unit Unit),
    (if id = ['m'] then some unreadMessage else none) = some m → m.id = id := by
  intro id m h
  split at h
  · rename_i hid
    cases h
    exact hid.symm
  · cases h

def unreadState : MailState Unit Unit where
  folders := fun _ => none
  messages id := if id = ['m'] then some unreadMessage else none
  keyed := keyed_unread

/-- Marked read and labelled at once, the message stays unread. -/
theorem labels_undo_read :
    ¬PatchedInStep (fun _ => .ok ()) [['m']] ⟨some true, none, some [['w']]⟩ unreadState := by
  intro h
  have hm := h ['m']
  have hread := congrArg (Option.map MailMessage.isRead) hm
  revert hread
  decide

end Lyra.MailStore
