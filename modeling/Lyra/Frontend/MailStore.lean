import Lyra.Lib.Traces
import Lyra.Store.Schema
import Mathlib.Data.List.Basic

/-!
# The mail store

The messages of `stores/mail.ts` under their ids.  A payload from the server is merged over the
message that is stored: a detail payload may carry a body and an OpenPGP status, a list payload
carries neither.  Whether a payload counts as detail is read off its body.

* `showsLatest_merge_iff`: what a merge keeps of the latest detail payload;
* `refreshes_keep_detail`: so for every run of payloads.
-/

namespace Lyra.MailStore

open Lyra.Lib

/-! ## Messages -/

section Store

-- the OpenPGP status of a message, and the fields that are only copied
variable {ω ρ : Type}

structure MailMessage (ω ρ : Type) where
  id : Text
  accountId : Text
  folderId : Text
  snippet : Text
  bodyText : Option Text
  bodyHtml : Option Text
  isRead : Bool
  isStarred : Bool
  labels : Option (List Text)
  opengpg : Option ω
  rest : ρ
  deriving DecidableEq

def MailMessage.hasBody (m : MailMessage ω ρ) : Bool := m.bodyHtml.isSome || m.bodyText.isSome

/-- `a || b` for texts. -/
def orText (a b : Text) : Text := if a = [] then b else a

/-- Merge an incoming message over the cached one. -/
def mergeMessage (existing : Option (MailMessage ω ρ)) (incoming : MailMessage ω ρ) :
    MailMessage ω ρ :=
  match existing with
  | none => incoming
  | some existing =>
    if incoming.hasBody then
      { incoming with snippet := orText incoming.snippet existing.snippet }
    else if !existing.hasBody then incoming
    else
      { incoming with
        bodyHtml := existing.bodyHtml
        bodyText := existing.bodyText
        opengpg := incoming.opengpg.or existing.opengpg
        snippet := orText incoming.snippet existing.snippet }

@[simp] theorem id_mergeMessage (existing : Option (MailMessage ω ρ)) (incoming : MailMessage ω ρ) :
    (mergeMessage existing incoming).id = incoming.id := by
  unfold mergeMessage
  split
  · rfl
  · split
    · rfl
    · split <;> rfl

/-! ## The store -/

/-- Every message is kept under its own id. -/
structure MailState (ω ρ : Type) where
  /-- The roles of the folders that have one. -/
  folders : Text → Option Text
  messages : Text → Option (MailMessage ω ρ)
  keyed : ∀ id m, messages id = some m → m.id = id

theorem keyed_upsert (s : MailState ω ρ) (message : MailMessage ω ρ) :
    ∀ id m, (if id = message.id then some (mergeMessage (s.messages message.id) message)
      else s.messages id) = some m → m.id = id := by
  intro id m h
  split at h
  · rename_i hid
    cases h
    rw [id_mergeMessage, hid]
  · exact s.keyed id m h

def MailState.upsertMessage (s : MailState ω ρ) (message : MailMessage ω ρ) : MailState ω ρ where
  folders := s.folders
  messages id :=
    if id = message.id then some (mergeMessage (s.messages message.id) message) else s.messages id
  keyed := keyed_upsert s message

theorem keyed_prune (s : MailState ω ρ) (drop : MailMessage ω ρ → Bool) :
    ∀ id m, ((s.messages id).filter fun m => !drop m) = some m → m.id = id :=
  fun id m h => s.keyed id m (Option.filter_eq_some_iff.mp h).1

def MailState.prune (s : MailState ω ρ) (drop : MailMessage ω ρ → Bool) : MailState ω ρ where
  folders := s.folders
  messages id := (s.messages id).filter fun m => !drop m
  keyed := keyed_prune s drop

def MailState.setFolders (s : MailState ω ρ) (folders : Text → Option Text) : MailState ω ρ where
  folders := folders
  messages := s.messages
  keyed := s.keyed

theorem keyed_update (s : MailState ω ρ) (id : Text) (f : MailMessage ω ρ → MailMessage ω ρ)
    (hf : ∀ m, (f m).id = m.id) :
    ∀ k m, (if k = id then (s.messages id).map f else s.messages k) = some m → m.id = k := by
  intro k m h
  split at h
  · rename_i hk
    obtain ⟨e, he, rfl⟩ := Option.map_eq_some_iff.mp h
    rw [hf, s.keyed id e he, hk]
  · exact s.keyed k m h

/-- Change the message of an id, if there is one. -/
def MailState.update (s : MailState ω ρ) (id : Text) (f : MailMessage ω ρ → MailMessage ω ρ)
    (hf : ∀ m, (f m).id = m.id) : MailState ω ρ where
  folders := s.folders
  messages k := if k = id then (s.messages id).map f else s.messages k
  keyed := keyed_update s id f hf

def MailMessage.markRead (m : MailMessage ω ρ) : MailMessage ω ρ := { m with isRead := true }

theorem id_markRead (m : MailMessage ω ρ) : m.markRead.id = m.id := rfl

def MailMessage.toggleStar (m : MailMessage ω ρ) : MailMessage ω ρ :=
  { m with isStarred := !m.isStarred }

theorem id_toggleStar (m : MailMessage ω ρ) : m.toggleStar.id = m.id := rfl

def MailState.markMessageRead (s : MailState ω ρ) (id : Text) : MailState ω ρ :=
  match s.messages id with
  | none => s
  | some msg => if msg.isRead then s else s.update id MailMessage.markRead id_markRead

def MailState.toggleStar (s : MailState ω ρ) (id : Text) : MailState ω ρ :=
  s.update id MailMessage.toggleStar id_toggleStar

/-- `ALL_ACCOUNTS`. -/
def allAccounts : Text := "all".toList

def starredRole : Text := "starred".toList

/-- An account, or all, and a folder or a role. -/
structure ViewOpts where
  accountId : Text
  folderId : Option Text
  folderRole : Option Text

/-- What the test `!text` lets through. -/
def given (text : Option Text) : Option Text := text.filter fun t => t ≠ []

def ViewOpts.inView (opts : ViewOpts) (folders : Text → Option Text) (msg : MailMessage ω ρ) :
    Bool :=
  if opts.accountId ≠ allAccounts ∧ msg.accountId ≠ opts.accountId then false
  else
    match given opts.folderId with
    | some folderId => msg.folderId = folderId
    | none =>
      match given opts.folderRole with
      | some role =>
        if role = starredRole then msg.isStarred else folders msg.folderId = some role
      | none => false

/-- What a listing of the view leaves out is dropped, and what it has is merged. -/
def MailState.replaceMessagesForView (s : MailState ω ρ) (opts : ViewOpts)
    (incoming : List (MailMessage ω ρ)) : MailState ω ρ :=
  let ids := incoming.map MailMessage.id
  incoming.foldl MailState.upsertMessage
    (s.prune fun msg => opts.inView s.folders msg && decide (msg.id ∉ ids))

/-! ## Payloads -/

inductive Kind
  | detail
  | list
  deriving DecidableEq

/-- A message from the server; a listing has no bodies and no OpenPGP status. -/
structure Payload (ω ρ : Type) where
  kind : Kind
  message : MailMessage ω ρ
  plain : kind = .list → message.hasBody = false ∧ message.opengpg = none

inductive Action (ω ρ : Type)
  | upsert (p : Payload ω ρ)
  | replace (opts : ViewOpts) (incoming : List (Payload ω ρ))
  | setFolders (folders : Text → Option Text)

def step (s : MailState ω ρ) : Action ω ρ → MailState ω ρ
  | .upsert p => s.upsertMessage p.message
  | .replace opts incoming => s.replaceMessagesForView opts (incoming.map Payload.message)
  | .setFolders folders => s.setFolders folders

/-- The payloads of an action for one message. -/
def Action.payloads (id : Text) : Action ω ρ → List (Payload ω ρ)
  | .upsert p => [p].filter fun p => p.message.id = id
  | .replace _ incoming => incoming.filter fun p => p.message.id = id
  | .setFolders _ => []

/-- A listing of a view that the message is in has it. -/
def Stays (id : Text) (s : MailState ω ρ) : Action ω ρ → Prop
  | .replace opts incoming => id ∈ incoming.map (·.message.id) ∨
      ∀ m, s.messages id = some m → opts.inView s.folders m = false
  | _ => True

/-! ## What should be stored -/

/-- The message of the latest detail payload. -/
def latestDetail (ps : List (Payload ω ρ)) : Option (MailMessage ω ρ) :=
  ((ps.filter fun p => p.kind = .detail).getLast?).map Payload.message

/-- The latest snippet that is not empty. -/
def latestSnippet (ps : List (Payload ω ρ)) : Text :=
  (((ps.map (·.message.snippet)).filter fun t => t ≠ []).getLast?).getD []

/-- The fields that are not of the body, the OpenPGP status or the snippet. -/
structure SameOthers (m p : MailMessage ω ρ) : Prop where
  id : m.id = p.id
  accountId : m.accountId = p.accountId
  folderId : m.folderId = p.folderId
  isRead : m.isRead = p.isRead
  isStarred : m.isStarred = p.isStarred
  labels : m.labels = p.labels
  rest : m.rest = p.rest

/-- Body and OpenPGP status are of the latest detail payload, the snippet is the latest that is not
empty, and the other fields are of the latest payload. -/
structure ShowsLatest (ps : List (Payload ω ρ)) (m : MailMessage ω ρ) : Prop where
  bodyText : m.bodyText = (latestDetail ps).bind MailMessage.bodyText
  bodyHtml : m.bodyHtml = (latestDetail ps).bind MailMessage.bodyHtml
  opengpg : m.opengpg = (latestDetail ps).bind MailMessage.opengpg
  snippet : m.snippet = latestSnippet ps
  others : ∀ p, ps.getLast? = some p → SameOthers m p.message

/-- Nothing is stored before the first payload. -/
def Shows (ps : List (Payload ω ρ)) : Option (MailMessage ω ρ) → Prop
  | none => ps = []
  | some m => ps ≠ [] ∧ ShowsLatest ps m

/-- The payload has a body; or it is of a list and a body is stored; or there is no body at all, no
snippet is emptied and no list payload meets an OpenPGP status. -/
def Keeps (p : Payload ω ρ) : Option (MailMessage ω ρ) → Prop
  | none => True
  | some e => p.message.hasBody = true ∨ (p.kind = .list ∧ e.hasBody = true) ∨
      (e.hasBody = false ∧ (p.message.snippet ≠ [] ∨ e.snippet = []) ∧
        (p.kind = .list → e.opengpg = none))

/-! ## One merge -/

section Merge

variable {ps : List (Payload ω ρ)} {p : Payload ω ρ} {e : MailMessage ω ρ}

theorem latestDetail_concat (ps : List (Payload ω ρ)) (p : Payload ω ρ) :
    latestDetail (ps ++ [p]) = if p.kind = .detail then some p.message else latestDetail ps := by
  unfold latestDetail
  rw [List.filter_append]
  by_cases hkind : p.kind = .detail
  · rw [List.filter_cons_of_pos (by simpa using hkind), List.filter_nil, List.getLast?_concat,
      if_pos hkind]
    rfl
  · rw [List.filter_cons_of_neg (by simpa using hkind), List.filter_nil, List.append_nil,
      if_neg hkind]

theorem latestSnippet_concat (ps : List (Payload ω ρ)) (p : Payload ω ρ) :
    latestSnippet (ps ++ [p]) = orText p.message.snippet (latestSnippet ps) := by
  unfold latestSnippet orText
  rw [List.map_append, List.map_singleton, List.filter_append]
  by_cases hempty : p.message.snippet = []
  · rw [List.filter_cons_of_neg (by simpa using hempty), List.filter_nil, List.append_nil,
      if_pos hempty]
  · rw [List.filter_cons_of_pos (by simpa using hempty), List.filter_nil, List.getLast?_concat,
      if_neg hempty]
    rfl

theorem hasBody_eq_false : e.hasBody = false ↔ e.bodyHtml = none ∧ e.bodyText = none := by
  simp [MailMessage.hasBody]

theorem sameOthers_mergeMessage (existing : Option (MailMessage ω ρ)) (incoming : MailMessage ω ρ) :
    SameOthers (mergeMessage existing incoming) incoming := by
  unfold mergeMessage
  split
  · exact ⟨rfl, rfl, rfl, rfl, rfl, rfl, rfl⟩
  · split
    · exact ⟨rfl, rfl, rfl, rfl, rfl, rfl, rfl⟩
    · split <;> exact ⟨rfl, rfl, rfl, rfl, rfl, rfl, rfl⟩

theorem orText_eq_left {a b : Text} : a = orText a b ↔ a ≠ [] ∨ b = [] := by
  unfold orText
  split
  case isTrue h =>
    rw [h]
    exact ⟨fun hb => .inr hb.symm, fun hor => (hor.resolve_left (absurd rfl)).symm⟩
  case isFalse h => exact iff_of_true rfl (.inl h)

/-- After one more payload the merge shows the latest exactly if its body, its OpenPGP status and
its snippet do. -/
theorem showsLatest_concat (m : MailMessage ω ρ) (hothers : SameOthers m p.message) :
    ShowsLatest (ps ++ [p]) m ↔
      (m.bodyText = (latestDetail (ps ++ [p])).bind MailMessage.bodyText ∧
        m.bodyHtml = (latestDetail (ps ++ [p])).bind MailMessage.bodyHtml) ∧
      m.opengpg = (latestDetail (ps ++ [p])).bind MailMessage.opengpg ∧
      m.snippet = orText p.message.snippet (latestSnippet ps) := by
  rw [← latestSnippet_concat]
  constructor
  · intro h
    exact ⟨⟨h.bodyText, h.bodyHtml⟩, h.opengpg, h.snippet⟩
  · rintro ⟨⟨htext, hhtml⟩, hopengpg, hsnippet⟩
    refine ⟨htext, hhtml, hopengpg, hsnippet, ?_⟩
    intro q hq
    rw [List.getLast?_concat] at hq
    cases hq
    exact hothers

theorem showsLatest_merge_iff (h : ShowsLatest ps e) (p : Payload ω ρ) :
    ShowsLatest (ps ++ [p]) (mergeMessage (some e) p.message) ↔ Keeps p (some e) := by
  rw [showsLatest_concat _ (sameOthers_mergeMessage _ _), latestDetail_concat, Keeps, ← h.snippet]
  unfold mergeMessage
  dsimp only
  by_cases hbody : p.message.hasBody = true
  · -- a body comes with a detail payload only
    have hkind : p.kind = .detail := by
      cases hkind : p.kind with
      | detail => rfl
      | list => rw [(p.plain hkind).1] at hbody; cases hbody
    rw [if_pos hbody, if_pos hkind]
    exact iff_of_true ⟨⟨rfl, rfl⟩, rfl, rfl⟩ (.inl hbody)
  · have hnone := hasBody_eq_false.mp (Bool.eq_false_iff.mpr hbody)
    rw [if_neg hbody]
    by_cases hstored : e.hasBody = true
    · rw [if_neg (by rw [hstored]; decide)]
      dsimp only
      cases hkind : p.kind with
      | detail =>
        rw [if_pos rfl]
        refine iff_of_false ?_ ?_
        · rintro ⟨⟨htext, hhtml⟩, -⟩
          rw [Option.bind_some, hnone.2] at htext
          rw [Option.bind_some, hnone.1] at hhtml
          rw [hasBody_eq_false.mpr ⟨hhtml, htext⟩] at hstored
          cases hstored
        · rintro (hp | ⟨hlist, -⟩ | ⟨hno, -⟩)
          · exact hbody hp
          · cases hlist
          · rw [hno] at hstored
            cases hstored
      | list =>
        rw [if_neg (by decide), (p.plain hkind).2, Option.none_or]
        exact iff_of_true ⟨⟨h.bodyText, h.bodyHtml⟩, h.opengpg, rfl⟩ (.inr (.inl ⟨rfl, hstored⟩))
    · have hunstored := Bool.eq_false_iff.mpr hstored
      have hestored := hasBody_eq_false.mp hunstored
      rw [if_pos (by rw [hunstored]; rfl), orText_eq_left]
      have hkeeps : (p.message.hasBody = true ∨ (p.kind = .list ∧ e.hasBody = true) ∨
          (e.hasBody = false ∧ (p.message.snippet ≠ [] ∨ e.snippet = []) ∧
            (p.kind = .list → e.opengpg = none))) ↔
          (p.message.snippet ≠ [] ∨ e.snippet = []) ∧ (p.kind = .list → e.opengpg = none) := by
        simp [hbody, hunstored]
      rw [hkeeps]
      cases hkind : p.kind with
      | detail =>
        rw [if_pos rfl]
        exact ⟨fun hshow => ⟨hshow.2.2, nofun⟩, fun hcond => ⟨⟨rfl, rfl⟩, rfl, hcond.1⟩⟩
      | list =>
        rw [if_neg (by decide), ← h.bodyText, ← h.bodyHtml, ← h.opengpg, hestored.1, hestored.2,
          hnone.1, hnone.2, (p.plain hkind).2]
        constructor
        · rintro ⟨-, hopengpg, hsnippet⟩
          exact ⟨hsnippet, fun _ => hopengpg.symm⟩
        · rintro ⟨hsnippet, hopengpg⟩
          exact ⟨⟨rfl, rfl⟩, (hopengpg rfl).symm, hsnippet⟩

theorem shows_first (p : Payload ω ρ) : ShowsLatest [p] p.message := by
  have hothers : SameOthers p.message p.message := ⟨rfl, rfl, rfl, rfl, rfl, rfl, rfl⟩
  have hnil : latestSnippet ([] : List (Payload ω ρ)) = [] := rfl
  have hsnippet : p.message.snippet = orText p.message.snippet [] := orText_eq_left.mpr (.inr rfl)
  refine (@showsLatest_concat ω ρ [] p _ hothers).mpr ?_
  rw [latestDetail_concat, hnil]
  cases hkind : p.kind with
  | detail =>
    rw [if_pos rfl]
    exact ⟨⟨rfl, rfl⟩, rfl, hsnippet⟩
  | list =>
    obtain ⟨hbody, hopengpg⟩ := p.plain hkind
    obtain ⟨hhtml, htext⟩ := hasBody_eq_false.mp hbody
    rw [if_neg (by decide)]
    exact ⟨⟨htext, hhtml⟩, hopengpg, hsnippet⟩

theorem shows_merge_iff {stored : Option (MailMessage ω ρ)} (h : Shows ps stored)
    (p : Payload ω ρ) :
    Shows (ps ++ [p]) (some (mergeMessage stored p.message)) ↔ Keeps p stored := by
  have hne : ps ++ [p] ≠ [] := List.append_ne_nil_of_right_ne_nil ps (List.cons_ne_nil p [])
  cases stored with
  | none =>
    cases (h : ps = [])
    exact iff_of_true ⟨hne, shows_first p⟩ trivial
  | some e =>
    rw [← showsLatest_merge_iff h.2 p]
    exact and_iff_right hne

end Merge

/-! ## The payloads of an action -/

section Actions

variable {ps qs : List (Payload ω ρ)} {s : MailState ω ρ} {id : Text}

def mergeAll (stored : Option (MailMessage ω ρ)) (ps : List (Payload ω ρ)) :
    Option (MailMessage ω ρ) :=
  ps.foldl (fun stored p => some (mergeMessage stored p.message)) stored

/-- Every payload in turn keeps what is stored. -/
def KeepsAll : Option (MailMessage ω ρ) → List (Payload ω ρ) → Prop
  | _, [] => True
  | stored, p :: ps => Keeps p stored ∧ KeepsAll (some (mergeMessage stored p.message)) ps

theorem shows_mergeAll {stored : Option (MailMessage ω ρ)} (h : Shows ps stored)
    (hkeeps : KeepsAll stored qs) : Shows (ps ++ qs) (mergeAll stored qs) := by
  induction qs generalizing ps stored with
  | nil =>
    rw [List.append_nil]
    exact h
  | cons q qs ih =>
    rw [List.append_cons]
    exact ih ((shows_merge_iff h q).mpr hkeeps.1) hkeeps.2

theorem messages_foldl_upsert (s : MailState ω ρ) (incoming : List (Payload ω ρ)) (id : Text) :
    ((incoming.map Payload.message).foldl MailState.upsertMessage s).messages id =
      mergeAll (s.messages id) (incoming.filter fun p => p.message.id = id) := by
  induction incoming generalizing s with
  | nil => rfl
  | cons p incoming ih =>
    rw [List.map_cons, List.foldl_cons, ih]
    by_cases hid : p.message.id = id
    · rw [List.filter_cons_of_pos (by simpa using hid)]
      show mergeAll (if id = p.message.id then _ else _) _ = _
      rw [if_pos hid.symm, hid]
      rfl
    · rw [List.filter_cons_of_neg (by simpa using hid)]
      show mergeAll (if id = p.message.id then _ else _) _ = _
      rw [if_neg fun h => hid h.symm]

/-- An action merges its payloads for the message, one after the other. -/
theorem messages_step {a : Action ω ρ} (hstays : Stays id s a) :
    (step s a).messages id = mergeAll (s.messages id) (a.payloads id) := by
  cases a with
  | upsert p => exact messages_foldl_upsert s [p] id
  | setFolders folders => rfl
  | replace opts incoming =>
    show ((incoming.map Payload.message).foldl MailState.upsertMessage _).messages id = _
    rw [messages_foldl_upsert]
    refine congrArg (mergeAll · _) ?_
    cases hm : s.messages id with
    | none =>
      show (s.messages id).filter _ = none
      rw [hm]
      rfl
    | some m =>
      show (s.messages id).filter _ = some m
      rw [hm]
      refine Option.filter_eq_some_iff.mpr ⟨rfl, ?_⟩
      have hids : (incoming.map Payload.message).map MailMessage.id =
          incoming.map (·.message.id) := List.map_map
      dsimp only
      rw [hids, s.keyed id m hm]
      rcases hstays with hin | hout
      · simp [hin]
      · rw [hout m hm]
        rfl

/-! ## A run -/

/-- The payloads of a run for one message. -/
def payloadsFor (id : Text) (actions : List (Action ω ρ)) : List (Payload ω ρ) :=
  actions.flatMap (Action.payloads id)

/-- Every state of a run shows the latest of the payloads so far. -/
def AlwaysLatest (id : Text) (s : MailState ω ρ) (actions : List (Action ω ρ)) : Prop :=
  ∀ done, done <+: actions → Shows (payloadsFor id done) ((done.foldl step s).messages id)

theorem shows_run {actions : List (Action ω ρ)} (h : Shows ps (s.messages id))
    (hstays : StepsMeet step (Stays id) s actions)
    (hkeeps : StepsMeet step (fun s a => KeepsAll (s.messages id) (a.payloads id)) s actions) :
    Shows (ps ++ payloadsFor id actions) ((actions.foldl step s).messages id) := by
  induction actions generalizing s ps with
  | nil =>
    show Shows (ps ++ []) _
    rw [List.append_nil]
    exact h
  | cons a actions ih =>
    have hstep : Shows (ps ++ a.payloads id) ((step s a).messages id) := by
      rw [messages_step hstays.1]
      exact shows_mergeAll h hkeeps.1
    have hrun := ih hstep hstays.2 hkeeps.2
    rw [List.append_assoc] at hrun
    exact hrun

theorem stepsMeet_of_shows {actions : List (Action ω ρ)} (h : Shows ps (s.messages id))
    (hstays : StepsMeet step (Stays id) s actions)
    (honce : ∀ a ∈ actions, (a.payloads id).length ≤ 1)
    (hshows : ∀ done, done <+: actions →
      Shows (ps ++ payloadsFor id done) ((done.foldl step s).messages id)) :
    StepsMeet step (fun s a => KeepsAll (s.messages id) (a.payloads id)) s actions := by
  induction actions generalizing s ps with
  | nil => trivial
  | cons a actions ih =>
    have hfirst : Shows (ps ++ a.payloads id) ((step s a).messages id) := by
      have hone := hshows [a] (List.prefix_append [a] actions)
      rwa [payloadsFor, List.flatMap_singleton] at hone
    constructor
    · have hlen := honce a List.mem_cons_self
      rw [messages_step hstays.1] at hfirst
      show KeepsAll (s.messages id) (a.payloads id)
      cases hqs : a.payloads id with
      | nil => trivial
      | cons q qs =>
        rw [hqs] at hlen hfirst
        cases List.length_eq_zero_iff.mp (Nat.le_zero.mp (Nat.le_of_succ_le_succ hlen))
        exact ⟨(shows_merge_iff h q).mp hfirst, trivial⟩
    · refine ih hfirst hstays.2 (fun b hb => honce b (List.mem_cons_of_mem a hb)) ?_
      intro done hdone
      rw [List.append_assoc]
      exact hshows (a :: done) ((List.prefix_cons_inj a).mpr hdone)

/-- From the first payload on, as long as the message stays in the views that are replaced: every
state shows the latest if every payload keeps what it meets; and only then, where no listing has
the message twice. -/
theorem refreshes_keep_detail (id : Text) (s : MailState ω ρ) (actions : List (Action ω ρ))
    (hnew : s.messages id = none) (hstays : StepsMeet step (Stays id) s actions) :
    (StepsMeet step (fun s a => KeepsAll (s.messages id) (a.payloads id)) s actions →
      AlwaysLatest id s actions) ∧
    ((∀ a ∈ actions, (a.payloads id).length ≤ 1) → AlwaysLatest id s actions →
      StepsMeet step (fun s a => KeepsAll (s.messages id) (a.payloads id)) s actions) := by
  have hstart : Shows [] (s.messages id) := by
    rw [hnew]
    rfl
  refine ⟨fun hkeeps done hdone => ?_, fun honce => stepsMeet_of_shows hstart hstays honce⟩
  exact shows_run hstart (hstays.of_prefix hdone) (hkeeps.of_prefix hdone)

end Actions

end Store

/-! ## A locked message -/

def emptyState : MailState Bool Unit where
  folders := fun _ => none
  messages := fun _ => none
  keyed := nofun

/-- A message of the inbox; its OpenPGP status tells whether it could be decrypted. -/
def received (bodyText : Option Text) (opengpg : Option Bool) : MailMessage Bool Unit where
  id := ['m']
  accountId := ['a']
  folderId := ['f']
  snippet := ['s']
  bodyText := bodyText
  bodyHtml := none
  isRead := false
  isStarred := false
  labels := none
  opengpg := opengpg
  rest := ()

def inboxView : ViewOpts := ⟨['a'], some ['f'], none⟩

def listed : Payload Bool Unit := ⟨.list, received none none, fun _ => ⟨rfl, rfl⟩⟩

/-- The reader gets the body, and a listing follows. -/
def openedThenListed : List (Action Bool Unit) :=
  [.upsert ⟨.detail, received (some ['b']) (some true), nofun⟩, .replace inboxView [listed]]

theorem stays_openedThenListed : StepsMeet step (Stays ['m']) emptyState openedThenListed :=
  ⟨trivial, .inl (by decide), trivial⟩

theorem refreshes_keep_detail_opened : AlwaysLatest ['m'] emptyState openedThenListed := by
  refine (refreshes_keep_detail ['m'] emptyState openedThenListed rfl stays_openedThenListed).1 ?_
  exact ⟨⟨trivial, trivial⟩, ⟨.inr (.inl ⟨rfl, rfl⟩), trivial⟩, trivial⟩

/-- The message is encrypted and locked, so its detail payload has no body. -/
def lockedThenListed : List (Action Bool Unit) :=
  [.upsert ⟨.detail, received none (some false), nofun⟩, .replace inboxView [listed]]

/-- The listing takes the OpenPGP status away. -/
theorem refreshes_lose_status : ¬AlwaysLatest ['m'] emptyState lockedThenListed := by
  intro h
  have hshows := (h lockedThenListed List.prefix_rfl).2.opengpg
  cases hshows

end Lyra.MailStore
