import Lyra.Push.Diff
import Lyra.Store.Codec
import Lyra.Store.Kv
import Lyra.Lib.Runs

/-!
# The push fan-out

`fan_out_account` of `push/fanout.rs` with the baseline of `push/store.rs`: every pass lists the
newest messages, pushes what is new against the baseline, and saves the next one.  Between the
passes the mailbox becomes anything.

* `pushes_once_iff`: in every run, exactly when a pass pushes what has arrived and nothing else;
* `pushes_wrong`: a deletion moves an old message into the window, and a burst moves a new one
  out of it.
-/

namespace Lyra.Push

open Lyra.Lib

/-! ## Payloads -/

structure PushPayload where
  title : Text
  body : Text
  tag : Text
  messageId : Text
  deriving DecidableEq, Repr

def maxPerSync : Nat := 3

def clip (s : Text) : Text := s.take 200

def summaryTitle (zh : Bool) (more : Nat) : Text :=
  if zh then "还有 ".toList ++ decimal more ++ " 封新邮件".toList
  else decimal more ++ " more new messages".toList

def ownPayload (c : PushCandidate) : PushPayload where
  title := if c.title = [] then "New message".toList else clip c.title
  body := clip c.body
  tag := "lyra-".toList ++ c.id
  messageId := c.id

/-- The pushes of a pass; those past the third fold into one. -/
def payloads (zh : Bool) (fresh : List PushCandidate) : List PushPayload :=
  (fresh.take maxPerSync).map ownPayload ++
    match fresh.drop maxPerSync with
    | [] => []
    | next :: _ =>
      [{ title := summaryTitle zh (fresh.length - maxPerSync)
         body := []
         tag := "lyra-summary".toList
         messageId := next.id }]

/-- A candidate has a push of its own, or is counted in the summary. -/
def Notifies (zh : Bool) (fresh : List PushCandidate) (c : PushCandidate) : Prop :=
  ownPayload c ∈ payloads zh fresh ∨
    c ∈ fresh.drop maxPerSync ∧ ∃ p ∈ payloads zh fresh, p.tag = "lyra-summary".toList ∧
      p.title = summaryTitle zh (fresh.drop maxPerSync).length

theorem notifies (zh : Bool) {fresh : List PushCandidate} {c : PushCandidate} (hc : c ∈ fresh) :
    Notifies zh fresh c := by
  rw [← List.take_append_drop maxPerSync fresh, List.mem_append] at hc
  rcases hc with hown | hmore
  · exact .inl (List.mem_append_left _ (List.mem_map_of_mem hown))
  · refine .inr ⟨hmore, ?_⟩
    unfold payloads
    cases hdrop : fresh.drop maxPerSync with
    | nil =>
      rw [hdrop] at hmore
      cases hmore
    | cons next rest =>
      refine ⟨_, List.mem_append_right _ List.mem_cons_self, rfl, ?_⟩
      rw [← hdrop, List.length_drop]

/-! ## A pass -/

def listLimit : Nat := 500

def baselineCap : Nat := 15

/-- The visible messages of an account, newest first. -/
structure Mailbox where
  messages : List MessageResponse
  nodup : (messages.map (·.id)).Nodup

/-- What a pass works on, and what was present at the passes before. -/
structure PushState where
  mailbox : Mailbox
  baseline : List Text
  mutedFolders : List Text
  mutedThreads : List Text
  /-- A pass has saved the baseline. -/
  started : Bool
  /-- The incoming messages at the last pass that saved the baseline, and at all of them. -/
  last : List Text
  seen : List Text

/-- What the world decides of a pass. -/
structure FanoutChoice where
  subscribed : Bool := true
  /-- The lists, the baseline and the preferences are read. -/
  reads : Bool := true
  saved : CallOutcome := .works
  vapid : Bool := true
  deriving DecidableEq, Repr

def PushState.incoming (s : PushState) : List MessageResponse :=
  s.mailbox.messages.filter fun m => isIncoming m.folderRole

/-- The messages a pass looks at. -/
def PushState.newest (s : PushState) : List MessageResponse :=
  window (s.mailbox.messages.take listLimit)

/-- The pass saves the baseline. -/
def FanoutChoice.counts (c : FanoutChoice) : Bool :=
  c.subscribed && c.reads && c.saved.takesEffect

/-- `save_baseline`, and what is noted with it. -/
def saveBaseline (identities : List Text) (s : PushState) : PushState :=
  { s with
    baseline := identities.take baselineCap
    started := true
    last := s.incoming.map identity
    seen := s.incoming.map identity ++ s.seen }

/-- `fan_out_account`: the candidates whose payloads are sent. -/
def fanOutAccount (parse : Text → Option Json) (c : FanoutChoice) (s : PushState) :
    PushState × List PushCandidate :=
  if !c.subscribed || !c.reads then (s, [])
  else
    let outcome := diffNewMessages parse (s.mailbox.messages.take listLimit) s.baseline
      s.mutedFolders s.mutedThreads
    let s' := if c.saved.takesEffect then saveBaseline outcome.newBaseline s else s
    if c.saved ≠ .works then (s', [])
    else if outcome.seeded || outcome.fresh = [] then (s', [])
    else if !c.vapid then (s', [])
    else (s', outcome.fresh)

inductive PushAction
  /-- Syncs, moves and deletions. -/
  | mailbox (mailbox : Mailbox)
  | mute (folders threads : List Text)
  | fanOut (c : FanoutChoice)

def PushState.next (parse : Text → Option Json) (s : PushState) : PushAction → PushState
  | .mailbox mailbox => { s with mailbox }
  | .mute folders threads => { s with mutedFolders := folders, mutedThreads := threads }
  | .fanOut c => (fanOutAccount parse c s).1

def pushSystem (parse : Text → Option Json) : System PushState PushAction where
  init s := s.baseline = [] ∧ s.started = false ∧ s.last = [] ∧ s.seen = []
  step s a t := s.next parse a = t

/-! ## What a pass pushes -/

/-- The pass gets to its pushes, and has a baseline to compare with. -/
def Pushes (c : FanoutChoice) (s : PushState) : Prop :=
  c.saved = .works ∧ c.vapid = true ∧ s.baseline ≠ []

instance (c : FanoutChoice) (s : PushState) : Decidable (Pushes c s) :=
  inferInstanceAs (Decidable (_ ∧ _))

/-- New against the baseline, and not muted. -/
def PushState.fresh (s : PushState) : List MessageResponse :=
  (s.newest.filter fun m => !s.baseline.contains (identity m)).filter
    (unmuted s.mutedFolders s.mutedThreads)

variable {parse : Text → Option Json} {c : FanoutChoice} {s : PushState}

theorem mem_fresh {m : MessageResponse} : m ∈ s.fresh ↔ m ∈ s.newest ∧ identity m ∉ s.baseline ∧
    unmuted s.mutedFolders s.mutedThreads m = true := by
  unfold PushState.fresh
  rw [List.mem_filter, List.mem_filter, and_assoc, Bool.not_eq_true', List.contains_eq_mem,
    decide_eq_false_iff_not]

theorem pushed_eq (hc : c.counts = true) : (fanOutAccount parse c s).2 =
    if Pushes c s then s.fresh.map (candidate parse) else [] := by
  unfold FanoutChoice.counts at hc
  rw [Bool.and_eq_true, Bool.and_eq_true] at hc
  obtain ⟨⟨hsub, hreads⟩, _⟩ := hc
  unfold fanOutAccount
  rw [hsub, hreads, if_neg (by decide)]
  dsimp only
  by_cases hsaved : c.saved = .works
  · rw [if_neg fun h => h hsaved]
    by_cases hbaseline : s.baseline = []
    · have hnone : ¬ Pushes c s := fun h => h.2.2 hbaseline
      rw [if_neg hnone]
      unfold diffNewMessages
      rw [if_pos hbaseline]
      rfl
    · have hdiff : diffNewMessages parse (s.mailbox.messages.take listLimit) s.baseline
          s.mutedFolders s.mutedThreads =
            { fresh := s.fresh.map (candidate parse)
              newBaseline := s.newest.map identity
              seeded := false } := if_neg hbaseline
      rw [hdiff, Bool.false_or]
      by_cases hvapid : c.vapid = true
      · have hpushes : Pushes c s := ⟨hsaved, hvapid, hbaseline⟩
        rw [if_pos hpushes, hvapid, if_neg (by decide : ¬(!true) = true)]
        split
        · rename_i hempty
          exact (of_decide_eq_true hempty).symm
        · rfl
      · have hnone : ¬ Pushes c s := fun h => hvapid h.2.1
        rw [if_neg hnone, Bool.eq_false_of_not_eq_true hvapid]
        split
        · rfl
        · rfl
  · rw [if_pos hsaved, if_neg fun h : Pushes c s => hsaved h.1]

/-! ## Exactly once -/

/-- Nothing is pushed that was present at an earlier pass. -/
def NeverAgain (s : PushState) (pushed : List PushCandidate) : Prop :=
  ∀ p ∈ pushed, p.identity ∉ s.seen

/-- The message has arrived since the last pass, unread and unmuted. -/
def PushState.Arrived (s : PushState) (m : MessageResponse) : Prop :=
  m ∈ s.incoming ∧ identity m ∉ s.last ∧ m.isRead = false ∧
    unmuted s.mutedFolders s.mutedThreads m = true

/-- Everything is notified that has arrived. -/
def AllNew (parse : Text → Option Json) (zh : Bool) (s : PushState)
    (pushed : List PushCandidate) : Prop :=
  ∀ m, s.Arrived m → candidate parse m ∈ pushed ∧ Notifies zh pushed (candidate parse m)

/-- The messages looked at that had been present at a pass were looked at in the last one, unless
they are muted, and every arrival is looked at by a pass that pushes. -/
structure WindowSuffices (c : FanoutChoice) (s : PushState) : Prop where
  old : Pushes c s → ∀ m ∈ s.newest, identity m ∈ s.seen →
    unmuted s.mutedFolders s.mutedThreads m = true → identity m ∈ s.baseline
  new : ∀ m, s.Arrived m → Pushes c s ∧ m ∈ s.newest

/-- The baseline only knows messages that were present. -/
def BaselineKnown (s : PushState) : Prop := ∀ x ∈ s.baseline, x ∈ s.last

theorem newest_subset {m : MessageResponse} (hm : m ∈ s.newest) : m ∈ s.incoming := by
  unfold PushState.newest window at hm
  obtain ⟨hlisted, hincoming⟩ := List.mem_filter.mp (List.mem_of_mem_take hm)
  exact List.mem_filter.mpr ⟨List.mem_of_mem_take hlisted, hincoming⟩

theorem newBaseline_eq (parse : Text → Option Json) (s : PushState) :
    (diffNewMessages parse (s.mailbox.messages.take listLimit) s.baseline s.mutedFolders
      s.mutedThreads).newBaseline = s.newest.map identity := by
  unfold diffNewMessages
  split
  · rfl
  · rfl

theorem baselineKnown (h : BaselineKnown s) (a : PushAction) : BaselineKnown (s.next parse a) := by
  cases a with
  | mailbox mailbox => exact h
  | mute folders threads => exact h
  | fanOut c =>
    have hsaved : BaselineKnown (saveBaseline (s.newest.map identity) s) := by
      intro x hx
      obtain ⟨m, hm, rfl⟩ := List.mem_map.mp (List.mem_of_mem_take hx)
      exact List.mem_map_of_mem (newest_subset hm)
    have hnext : (fanOutAccount parse c s).1 = s ∨
        (fanOutAccount parse c s).1 = saveBaseline (s.newest.map identity) s := by
      unfold fanOutAccount
      split
      · exact .inl rfl
      · dsimp only
        rw [newBaseline_eq]
        cases c.saved.takesEffect with
        | false =>
          left
          rw [if_neg Bool.false_ne_true]
          repeat' split
          all_goals rfl
        | true =>
          right
          rw [if_pos rfl]
          repeat' split
          all_goals rfl
    show BaselineKnown (fanOutAccount parse c s).1
    rcases hnext with hs | hs
    · rwa [hs]
    · rwa [hs]

theorem baselineKnown_reachable {ok : PushState → PushAction → Prop}
    (h : (pushSystem parse).Reachable ok s) : BaselineKnown s := by
  refine h.invariant ?_ ?_
  · rintro s ⟨hempty, _⟩ x hx
    rw [hempty] at hx
    cases hx
  · rintro s a t hs _ rfl
    exact baselineKnown hs a

theorem candidate_inj {m m' : MessageResponse} (hm : m ∈ s.incoming) (hm' : m' ∈ s.incoming)
    (h : candidate parse m = candidate parse m') : m = m' :=
  List.inj_on_of_nodup_map s.mailbox.nodup (List.mem_filter.mp hm).1 (List.mem_filter.mp hm').1
    (congrArg PushCandidate.id h)

/-- In every run, a pass after the first that saved its baseline pushes exactly what has arrived
where the window suffices, and only there. -/
theorem pushes_once_iff (parse : Text → Option Json) (zh : Bool) {s : PushState}
    (hs : (pushSystem parse).Reachable (fun _ _ => True) s) (c : FanoutChoice)
    (hc : c.counts = true) :
    NeverAgain s (fanOutAccount parse c s).2 ∧ AllNew parse zh s (fanOutAccount parse c s).2 ↔
      WindowSuffices c s := by
  have hknown : BaselineKnown s := baselineKnown_reachable hs
  rw [pushed_eq hc]
  by_cases hpushes : Pushes c s
  · rw [if_pos hpushes]
    constructor
    · rintro ⟨hnever, hall⟩
      refine ⟨?_, ?_⟩
      · intro _ m hm hseen hunmuted
        by_contra hbaseline
        exact hnever _ (List.mem_map_of_mem (mem_fresh.mpr ⟨hm, hbaseline, hunmuted⟩)) hseen
      · intro m hm
        obtain ⟨m', hm', hsame⟩ := List.mem_map.mp (hall m hm).1
        have hnewest := (mem_fresh.mp hm').1
        rw [← candidate_inj (newest_subset hnewest) hm.1 hsame]
        exact ⟨hpushes, hnewest⟩
    · rintro ⟨hold, hnew⟩
      refine ⟨?_, ?_⟩
      · intro p hp hseen
        obtain ⟨m, hm, rfl⟩ := List.mem_map.mp hp
        obtain ⟨hnewest, hbaseline, hunmuted⟩ := mem_fresh.mp hm
        exact hbaseline (hold hpushes m hnewest hseen hunmuted)
      · intro m hm
        have hfresh : m ∈ s.fresh :=
          mem_fresh.mpr ⟨(hnew m hm).2, fun hb => hm.2.1 (hknown _ hb), hm.2.2.2⟩
        have hpushed := List.mem_map_of_mem (f := candidate parse) hfresh
        exact ⟨hpushed, notifies zh hpushed⟩
  · rw [if_neg hpushes]
    constructor
    · rintro ⟨_, hall⟩
      refine ⟨fun h => absurd h hpushes, ?_⟩
      intro m hm
      cases (hall m hm).1
    · rintro ⟨_, hnew⟩
      refine ⟨(fun p hp => nomatch hp), ?_⟩
      intro m hm
      exact absurd (hnew m hm).1 hpushes

/-! ## Runs -/

def note (n : Nat) : MessageResponse where
  id := decimal n
  folderId := "inbox".toList
  folderRole := some "inbox".toList
  threadId := none
  messageIdHeader := none
  fromAddress := some "ada@example.com".toList
  subject := some "Hello".toList
  isRead := false

/-- The notes from `first` on, the last one first. -/
def notes (first count : Nat) : List MessageResponse := (List.range' first count).reverse.map note

def sixteen : Mailbox := ⟨notes 0 16, by decide +kernel⟩

/-- The newest of the sixteen is deleted. -/
def fifteen : Mailbox := ⟨notes 0 15, by decide +kernel⟩

/-- As many again arrive. -/
def thirtyTwo : Mailbox := ⟨notes 0 32, by decide +kernel⟩

def emptyMailbox : PushState where
  mailbox := ⟨[], List.nodup_nil⟩
  baseline := []
  mutedFolders := []
  mutedThreads := []
  started := false
  last := []
  seen := []

def plainText : Text → Option Json := fun _ => none

/-- The first pass sees the sixteen, and then the mailbox becomes another. -/
def seededThen (mailbox : Mailbox) : PushState :=
  (((emptyMailbox.next plainText (.mailbox sixteen)).next plainText (.fanOut {})).next plainText
    (.mailbox mailbox))

theorem seededThen_reachable (mailbox : Mailbox) :
    (pushSystem plainText).Reachable (fun _ _ => True) (seededThen mailbox) := by
  have hempty : (pushSystem plainText).Reachable (fun _ _ => True) emptyMailbox :=
    .init ⟨rfl, rfl, rfl, rfl⟩
  have hfull := hempty.take (.mailbox sixteen) trivial rfl
  have hseeded := hfull.take (.fanOut {}) trivial rfl
  exact hseeded.take (.mailbox mailbox) trivial rfl

/-- The oldest of the sixteen is pushed when the newest is deleted, and of sixteen that arrive
the first is not. -/
theorem pushes_wrong :
    (∃ s, (pushSystem plainText).Reachable (fun _ _ => True) s ∧ s.started = true ∧
      ¬ NeverAgain s (fanOutAccount plainText {} s).2) ∧
    ∃ s, (pushSystem plainText).Reachable (fun _ _ => True) s ∧ s.started = true ∧
      ¬ AllNew plainText false s (fanOutAccount plainText {} s).2 := by
  refine ⟨⟨seededThen fifteen, seededThen_reachable fifteen, rfl, ?_⟩,
    ⟨seededThen thirtyTwo, seededThen_reachable thirtyTwo, rfl, ?_⟩⟩
  · intro h
    have hpushed : candidate plainText (note 0) ∈
        (fanOutAccount plainText {} (seededThen fifteen)).2 := by decide +kernel
    have hseen : identity (note 0) ∈ (seededThen fifteen).seen := by decide +kernel
    exact h _ hpushed hseen
  · intro h
    have harrived : (seededThen thirtyTwo).Arrived (note 16) := by
      refine ⟨?_, ?_, ?_, ?_⟩ <;> decide +kernel
    have hmissed : candidate plainText (note 16) ∉
        (fanOutAccount plainText {} (seededThen thirtyTwo)).2 := by decide +kernel
    exact hmissed (h _ harrived).1

/-- One more arrives. -/
def seventeen : Mailbox := ⟨notes 0 17, by decide +kernel⟩

theorem pushes_once_seventeen :
    NeverAgain (seededThen seventeen) (fanOutAccount plainText {} (seededThen seventeen)).2 ∧
      AllNew plainText false (seededThen seventeen)
        (fanOutAccount plainText {} (seededThen seventeen)).2 := by
  have hnewest : ∀ m ∈ (seededThen seventeen).incoming,
      identity m ∉ (seededThen seventeen).last → m ∈ (seededThen seventeen).newest := by
    decide +kernel
  refine (pushes_once_iff plainText false (seededThen_reachable seventeen) {} rfl).mpr ⟨?_, ?_⟩
  · intro _ m hm
    revert m
    decide +kernel
  · intro m hm
    exact ⟨by decide +kernel, hnewest m hm.1 hm.2.1⟩

end Lyra.Push
