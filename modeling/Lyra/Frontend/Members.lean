import Lyra.Frontend.Conversation
import Lyra.Lib.Grouping

/-!
# Members of a conversation

`conversationMembers` of `conversation.ts`: the thread of a message, with one card for the copies
that have the same Message-ID header.  The copies are grouped by the header as it is written; the
card is the first of the best score, and the scored copies are in the order of their dates.

* `mem_conversationMembers`: a message is shown where it beats the other copies of its header;
* `members_iff`: the list is right exactly where the thread does not depend on the order of the
  store, an id is written one way, several copies are told apart by folder or body, and the best
  of them by their dates.
-/

namespace Lyra.Conversation

open Lyra.Lib
open scoped List

/-! ## Copies -/

/-- The trimmed header, where it is not blank. -/
def MailMessage.header (m : MailMessage) : Option Text :=
  m.messageIdHeader.bind fun header => if trim header = [] then none else some (trim header)

def truthy (s : Option Text) : Bool := s.any fun t => t ≠ []

def MailMessage.hasBody (m : MailMessage) : Bool := truthy m.bodyHtml || truthy m.bodyText

def scoreCopy (preferFolderId : Text) (selectedId : MessageId) (m : MailMessage) : Nat :=
  (if m.folderId = preferFolderId then 4 else 0) + (if m.id = selectedId then 2 else 0) +
    (if m.hasBody then 1 else 0)

/-- `group.sort` by the score, and `group[0]`. -/
def bestCopy (score : MailMessage → Nat) (group : List MailMessage) : Option MailMessage :=
  (group.mergeSort fun a b => decide (score b ≤ score a)).head?

def dedupeCopies (members : List MailMessage) (preferFolderId : Text) (selectedId : MessageId) :
    List MailMessage :=
  let singles := members.filter fun m => m.header = none
  let byHeader := groupBy MailMessage.header members
  let score := scoreCopy preferFolderId selectedId
  byDateAsc (singles ++ byHeader.filterMap fun group => bestCopy score group.2)

def conversationMembers (toLowerCase : Text → Text) (rounds : Nat) (all : List MailMessage)
    (message : MailMessage) : Option (List MailMessage) :=
  (linkThreads toLowerCase rounds all).map fun groups =>
    match groups.find? fun group => group.2.any fun m => m.id = message.id with
    | some group => dedupeCopies group.2 message.folderId message.id
    | none => [message]

/-! ## What should be shown -/

section Showing

variable (f : Text → Text) (all : List MailMessage) (m : MailMessage)

/-- The thread of `m` in the store. -/
def InThread (x : MailMessage) : Prop :=
  x ∈ all ∧ Relation.EqvGen (Related f HasSubject all) m x

/-- The copies of `x` in a thread have its normalised Message-ID. -/
def CopyIn (thread : MailMessage → Prop) (x y : MailMessage) : Prop :=
  thread y ∧ y.messageId f = x.messageId f

/-- A copy in the folder of `m`, else one with a body, else the newest. -/
def Prescribed (thread : MailMessage → Prop) (x : MailMessage) : Prop :=
  x.folderId = m.folderId ∨
    (∀ y, CopyIn f thread x y → y.folderId ≠ m.folderId) ∧
      (x.hasBody = true ∨ ∀ y, CopyIn f thread x y → y.hasBody = false ∧ y.date ≤ x.date)

/-- The list for `m`, by its thread. -/
structure Shows (kept : List MailMessage) : Prop where
  self : m ∈ kept
  thread : ∀ x ∈ kept, InThread f all m x
  copies : ∀ x, InThread f all m x → x.messageId f ≠ none →
    ∃! y, y ∈ kept ∧ y.messageId f = x.messageId f
  unnamed : ∀ x, InThread f all m x → x.messageId f = none → x ∈ kept
  once : kept.Nodup
  sorted : kept.Pairwise fun x y => x.date ≤ y.date
  prescribed : ∀ x ∈ kept, x.messageId f ≠ none → Prescribed f m (InThread f all m) x

/-- The list is right, and the same in every order of the store. -/
def MembersRight (rounds : Nat) : Prop :=
  ∃ kept, conversationMembers f rounds all m = some kept ∧ Shows f all m kept ∧
    ∀ all' kept', all'.Perm all → conversationMembers f rounds all' m = some kept' →
      kept'.Perm kept

/-- The thread does not depend on the order of the store. -/
def ThreadFixed : Prop :=
  ∀ all', all'.Perm all → ∀ x, InThread f all' m x ↔ InThread f all m x

/-- A copy that no other beats. -/
def Favoured (thread : MailMessage → Prop) (x : MailMessage) : Prop :=
  ∀ y, CopyIn f thread x y →
    scoreCopy m.folderId m.id y ≤ scoreCopy m.folderId m.id x ∧
      (scoreCopy m.folderId m.id y = scoreCopy m.folderId m.id x → x.date ≤ y.date)

/-- What tells the copies of a thread apart. -/
structure Settled (thread : MailMessage → Prop) : Prop where
  spelled : ∀ x y, thread x → CopyIn f thread x y → y.header = x.header
  marked : ∀ x y, thread x → x.messageId f ≠ none → CopyIn f thread x y → y ≠ x →
    ∃ z, CopyIn f thread x z ∧ (z.folderId = m.folderId ∨ z.hasBody = true)
  favoured : ∀ x y, thread x → x.messageId f ≠ none → CopyIn f thread x y →
    Favoured f m thread x → Favoured f m thread y → y = x

end Showing

/-! ## Scores -/

section Members

variable {f : Text → Text} {all : List MailMessage} {m x y : MailMessage} {rounds : Nat}

theorem messageId_eq (f : Text → Text) (x : MailMessage) :
    x.messageId f = x.header.map (normMsgId f) := by
  unfold MailMessage.messageId MailMessage.header
  cases x.messageIdHeader with
  | none => rfl
  | some header =>
    rw [Option.bind_some, Option.bind_some]
    split <;> rfl

theorem messageId_of_header (h : y.header = x.header) : y.messageId f = x.messageId f := by
  rw [messageId_eq, messageId_eq, h]

theorem messageId_eq_none : x.messageId f = none ↔ x.header = none := by
  rw [messageId_eq, Option.map_eq_none_iff]

theorem scoreCopy_eq_zero : scoreCopy m.folderId m.id x = 0 ↔
    x.folderId ≠ m.folderId ∧ x.id ≠ m.id ∧ x.hasBody = false := by
  unfold scoreCopy
  by_cases hfolder : x.folderId = m.folderId <;> by_cases hid : x.id = m.id <;>
    cases hbody : x.hasBody <;> simp [hfolder, hid]

theorem scoreCopy_of_folder (h : x.folderId = m.folderId) : 4 ≤ scoreCopy m.folderId m.id x := by
  unfold scoreCopy
  rw [if_pos h]
  omega

theorem scoreCopy_of_body (h : x.hasBody = true) : 1 ≤ scoreCopy m.folderId m.id x := by
  unfold scoreCopy
  rw [if_pos h]
  omega

theorem scoreCopy_le (hfolder : x.folderId ≠ m.folderId) (hid : x.id ≠ m.id) :
    scoreCopy m.folderId m.id x ≤ 1 := by
  unfold scoreCopy
  rw [if_neg hfolder, if_neg hid]
  split <;> omega

theorem scoreCopy_self (m : MailMessage) : 6 ≤ scoreCopy m.folderId m.id m := by
  unfold scoreCopy
  rw [if_pos rfl, if_pos rfl]
  omega

theorem scoreCopy_other (hid : x.id ≠ m.id) : scoreCopy m.folderId m.id x ≤ 5 := by
  unfold scoreCopy
  rw [if_neg hid]
  split <;> split <;> omega

/-! ## Who is kept -/

/-- `x` stands before `y` in the sorted group of a header. -/
def Beats (all : List MailMessage) (m x y : MailMessage) : Prop :=
  scoreCopy m.folderId m.id y ≤ scoreCopy m.folderId m.id x ∧
    (scoreCopy m.folderId m.id x ≤ scoreCopy m.folderId m.id y →
      x.date ≤ y.date ∧ (y.date ≤ x.date → [x, y] <+ all))

/-- The messages kept of a thread. -/
def Kept (all : List MailMessage) (m : MailMessage) (thread : MailMessage → Prop)
    (x : MailMessage) : Prop :=
  thread x ∧ (x.header ≠ none → ∀ y, thread y → y.header = x.header → y ≠ x → Beats all m x y)

theorem pair_byDateAsc_iff (hnodup : all.Nodup) (hx : x ∈ all) (hy : y ∈ all) (hne : x ≠ y) :
    [x, y] <+ byDateAsc all ↔ x.date ≤ y.date ∧ (y.date ≤ x.date → [x, y] <+ all) := by
  unfold byDateAsc
  rw [pair_sublist_mergeSort_iff _ _ hnodup hx hy hne, decide_eq_true_eq, decide_eq_true_eq]
  · intro a b c hab hbc
    simp only [decide_eq_true_eq] at hab hbc ⊢
    exact Int.le_trans hab hbc
  · intro a b
    simp only [Bool.or_eq_true, decide_eq_true_eq]
    exact Int.le_total _ _

theorem bestCopy_iff {score : MailMessage → Nat} {group : List MailMessage} (hnodup : group.Nodup) :
    bestCopy score group = some x ↔ x ∈ group ∧ ∀ y ∈ group, y ≠ x →
      score y ≤ score x ∧ (score x ≤ score y → [x, y] <+ group) := by
  unfold bestCopy
  rw [head?_mergeSort_iff _ _ hnodup]
  · simp only [decide_eq_true_eq]
  · intro a b c hab hbc
    simp only [decide_eq_true_eq] at hab hbc ⊢
    exact Nat.le_trans hbc hab
  · intro a b
    simp only [Bool.or_eq_true, decide_eq_true_eq]
    exact Nat.le_total _ _

/-- The best copy of a group of the sorted thread. -/
theorem bestCopy_beats_iff {p : MailMessage → Bool} (hnodup : all.Nodup) :
    bestCopy (scoreCopy m.folderId m.id) ((byDateAsc all).filter p) = some x ↔
      (x ∈ all ∧ p x = true) ∧ ∀ y ∈ all, p y = true → y ≠ x → Beats all m x y := by
  have hsorted : (byDateAsc all).Nodup := (List.mergeSort_perm _ _).nodup_iff.mpr hnodup
  rw [bestCopy_iff (hsorted.filter p), List.mem_filter, mem_byDateAsc]
  refine and_congr_right fun hx => ?_
  have hpair {y : MailMessage} (hy : y ∈ all) (hp : p y = true) (hne : y ≠ x) :
      [x, y] <+ (byDateAsc all).filter p ↔
        x.date ≤ y.date ∧ (y.date ≤ x.date → [x, y] <+ all) := by
    rw [pair_sublist_filter, pair_byDateAsc_iff hnodup hx.1 hy (Ne.symm hne)]
    simp [hx.2, hp]
  constructor
  · intro h y hy hp hne
    obtain ⟨hle, hback⟩ := h y (List.mem_filter.mpr ⟨mem_byDateAsc.mpr hy, hp⟩) hne
    exact ⟨hle, fun hge => (hpair hy hp hne).mp (hback hge)⟩
  · intro h y hy hne
    obtain ⟨hy, hp⟩ := List.mem_filter.mp hy
    have hy := mem_byDateAsc.mp hy
    obtain ⟨hle, hback⟩ := h y hy hp hne
    exact ⟨hle, fun hge => (hpair hy hp hne).mpr (hback hge)⟩

theorem mem_dedupeCopies {p : MailMessage → Bool} (hnodup : all.Nodup) :
    x ∈ dedupeCopies ((byDateAsc all).filter p) m.folderId m.id ↔
      Kept all m (fun y => y ∈ all ∧ p y = true) x := by
  unfold dedupeCopies Kept
  rw [mem_byDateAsc, List.mem_append, List.mem_filter, List.mem_filter, mem_byDateAsc,
    List.mem_filterMap, decide_eq_true_eq]
  have hgroup (k : Text) : ((byDateAsc all).filter p).filter (fun a => a.header = some k) =
      (byDateAsc all).filter fun a => p a && decide (a.header = some k) := by
    rw [List.filter_filter]
    exact List.filter_congr fun a _ => Bool.and_comm _ _
  have hbest (k : Text) := bestCopy_beats_iff (m := m) (x := x)
    (p := fun a => p a && decide (a.header = some k)) hnodup
  simp only [Bool.and_eq_true, decide_eq_true_eq] at hbest
  constructor
  · rintro (⟨hx, hnone⟩ | ⟨g, hg, hx⟩)
    · exact ⟨hx, fun hsome => absurd hnone hsome⟩
    · rw [(mem_groupBy_iff.mp hg).1, hgroup, hbest] at hx
      obtain ⟨⟨hmem, hp, hheader⟩, hbeats⟩ := hx
      refine ⟨⟨hmem, hp⟩, fun _ y hy he hne => ?_⟩
      exact hbeats y hy.1 ⟨hy.2, he.trans hheader⟩ hne
  · rintro ⟨⟨hmem, hp⟩, hbeats⟩
    cases hheader : x.header with
    | none => exact .inl ⟨⟨hmem, hp⟩, rfl⟩
    | some k =>
      rw [hheader] at hbeats
      refine .inr ⟨(k, ((byDateAsc all).filter p).filter fun a => a.header = some k), ?_, ?_⟩
      · rw [mem_groupBy_iff]
        refine ⟨rfl, List.ne_nil_of_mem (a := x) ?_⟩
        rw [List.mem_filter, List.mem_filter, mem_byDateAsc, decide_eq_true_eq]
        exact ⟨⟨hmem, hp⟩, hheader⟩
      · rw [hgroup, hbest]
        refine ⟨⟨hmem, hp, hheader⟩, fun y hy hk hne => ?_⟩
        exact hbeats (by simp) y ⟨hy, hk.1⟩ hk.2 hne

/-! ## The list of a message -/

theorem InThread.refl (hm : m ∈ all) : InThread f all m m := ⟨hm, .refl m⟩

theorem InThread.copy (h : InThread f all m x) (hy : y ∈ all) (haccount : y.accountId = x.accountId)
    (hid : y.messageId f = x.messageId f) (hsome : x.messageId f ≠ none) :
    InThread f all m y := by
  obtain ⟨id, hx⟩ := Option.ne_none_iff_exists'.mp hsome
  refine ⟨hy, h.2.trans _ _ _ (.rel x y ⟨h.1, hy, .inl ⟨haccount.symm, id, hx, ?_⟩⟩)⟩
  rw [hid, hx]

/-- The list is the thread, a card for each header. -/
theorem conversationMembers_eq (hids : (all.map MailMessage.id).Nodup)
    (hrounds : all.length ≤ rounds) (hm : m ∈ all) :
    ∃ p : MailMessage → Bool, (∀ x, x ∈ all ∧ p x = true ↔ InThread f all m x) ∧
      conversationMembers f rounds all m =
        some (dedupeCopies ((byDateAsc all).filter p) m.folderId m.id) := by
  obtain ⟨groups, hgroups, rootOf, hbuckets, hroots⟩ := linkThreads_buckets f hids hrounds
  refine ⟨fun x => decide (rootOf x.id = rootOf m.id), ?_, ?_⟩
  · intro x
    rw [decide_eq_true_eq, eq_comm]
    exact and_congr_right fun hx => hroots m hm x hx
  · unfold conversationMembers
    rw [hgroups, Option.map_some]
    have hfound : ∃ g ∈ groups, (g.2.any fun x => x.id = m.id) = true := by
      obtain ⟨g, hg, hroot⟩ := List.mem_map.mp (hbuckets.every m (mem_byDateAsc.mpr hm))
      refine ⟨g, hg, List.any_eq_true.mpr ⟨m, ?_, by simp⟩⟩
      rw [hbuckets.bucket g hg, List.mem_filter, decide_eq_true_eq]
      exact ⟨mem_byDateAsc.mpr hm, hroot.symm⟩
    cases hfind : groups.find? fun g => g.2.any fun x => x.id = m.id with
    | none =>
      obtain ⟨g, hg, hany⟩ := hfound
      exact absurd hany (List.find?_eq_none.mp hfind g hg)
    | some g =>
      have hg := List.mem_of_find?_eq_some hfind
      have hany := List.find?_some (p := fun g : MessageId × List MailMessage =>
        g.2.any fun x => decide (x.id = m.id)) hfind
      obtain ⟨x, hx, hid⟩ := List.any_eq_true.mp hany
      rw [decide_eq_true_eq] at hid
      rw [hbuckets.bucket g hg, List.mem_filter, decide_eq_true_eq, hid] at hx
      dsimp only
      rw [hbuckets.bucket g hg, ← hx.2]

/-- A message is shown where it beats the other copies of its header. -/
theorem mem_conversationMembers (hids : (all.map MailMessage.id).Nodup)
    (hrounds : all.length ≤ rounds) (hm : m ∈ all) {kept : List MailMessage}
    (h : conversationMembers f rounds all m = some kept) :
    x ∈ kept ↔ Kept all m (InThread f all m) x := by
  obtain ⟨p, hp, heq⟩ := conversationMembers_eq hids hrounds hm
  rw [h] at heq
  cases heq
  rw [mem_dedupeCopies hids.of_map]
  simp only [hp, Kept]

theorem nodup_conversationMembers (hids : (all.map MailMessage.id).Nodup)
    (hrounds : all.length ≤ rounds) (hm : m ∈ all) {kept : List MailMessage}
    (h : conversationMembers f rounds all m = some kept) : kept.Nodup := by
  obtain ⟨p, -, heq⟩ := conversationMembers_eq hids hrounds hm
  rw [h] at heq
  cases heq
  have hmembers : ((byDateAsc all).filter p).Nodup :=
    ((List.mergeSort_perm _ _).nodup_iff.mpr hids.of_map).filter p
  have hheader {g : Text × List MailMessage} {x : MailMessage}
      (hg : g ∈ groupBy MailMessage.header ((byDateAsc all).filter p))
      (hx : bestCopy (scoreCopy m.folderId m.id) g.2 = some x) : x.header = some g.1 := by
    have hmem := mem_groupBy_iff.mp hg
    rw [hmem.1, bestCopy_iff (hmembers.filter _), List.mem_filter, decide_eq_true_eq] at hx
    exact hx.1.2
  refine (List.mergeSort_perm _ _).nodup_iff.mpr (List.Nodup.append (hmembers.filter _) ?_ ?_)
  · rw [List.nodup_iff_pairwise_ne, List.pairwise_filterMap]
    have hkeys := (grouped_groupBy MailMessage.header ((byDateAsc all).filter p)).keys
    rw [List.nodup_iff_pairwise_ne, List.pairwise_map] at hkeys
    refine hkeys.imp_of_mem ?_
    intro g g' hg hg' hne x hx y hy he
    subst he
    have hsome := (hheader hg hx).symm.trans (hheader hg' hy)
    exact hne (Option.some.inj hsome)
  · intro x hx hx'
    obtain ⟨g, hg, hbest⟩ := List.mem_filterMap.mp hx'
    have hnone := of_decide_eq_true (List.mem_filter.mp hx).2
    rw [hheader hg hbest] at hnone
    cases hnone

theorem sorted_conversationMembers (hids : (all.map MailMessage.id).Nodup)
    (hrounds : all.length ≤ rounds) (hm : m ∈ all) {kept : List MailMessage}
    (h : conversationMembers f rounds all m = some kept) :
    kept.Pairwise fun x y => x.date ≤ y.date := by
  obtain ⟨p, -, heq⟩ := conversationMembers_eq hids hrounds hm
  rw [h] at heq
  cases heq
  exact pairwise_byDateAsc _

/-! ## The kept copies -/

section Thread

variable {thread : MailMessage → Prop}

theorem kept_self (hids : ∀ x, thread x → x.id = m.id → x = m) (hm : thread m) :
    Kept all m thread m := by
  refine ⟨hm, fun _ y hy _ hne => ?_⟩
  have hself := scoreCopy_self m
  have hother : scoreCopy m.folderId m.id y ≤ 5 := scoreCopy_other fun he => hne (hids y hy he)
  exact ⟨by omega, fun hge => absurd hge (by omega)⟩

theorem kept_unnamed (hx : thread x) (hnone : x.header = none) : Kept all m thread x :=
  ⟨hx, fun hsome => absurd hnone hsome⟩

/-- Every header of the thread has a card. -/
theorem exists_kept (hall : ∀ x, thread x → x ∈ all) (hnodup : all.Nodup) (hx : thread x) :
    ∃ y, Kept all m thread y ∧ y.header = x.header := by
  classical
  let p : MailMessage → Bool := fun y => decide (thread y ∧ y.header = x.header)
  have hp {y : MailMessage} : p y = true ↔ thread y ∧ y.header = x.header := decide_eq_true_iff
  have hmem : x ∈ (byDateAsc all).filter p :=
    List.mem_filter.mpr ⟨mem_byDateAsc.mpr (hall x hx), hp.mpr ⟨hx, rfl⟩⟩
  cases hbest : bestCopy (scoreCopy m.folderId m.id) ((byDateAsc all).filter p) with
  | none =>
    rw [bestCopy, List.head?_eq_none_iff] at hbest
    have hempty := (List.mergeSort_perm _ _).symm.trans (List.Perm.of_eq hbest)
    rw [hempty.eq_nil] at hmem
    cases hmem
  | some y =>
    obtain ⟨⟨-, hy⟩, hbeats⟩ := (bestCopy_beats_iff hnodup).mp hbest
    obtain ⟨hthread, hheader⟩ := hp.mp hy
    refine ⟨y, ⟨hthread, fun _ z hz he hne => ?_⟩, hheader⟩
    exact hbeats z (hall z hz) (hp.mpr ⟨hz, he.trans hheader⟩) hne

theorem beats_antisymm (hnodup : all.Nodup) (h : Beats all m x y) : ¬Beats all m y x := by
  intro hback
  obtain ⟨hdate, hbefore⟩ := h.2 hback.1
  obtain ⟨hdate', hbefore'⟩ := hback.2 h.1
  exact not_pair_sublist_swap hnodup (hbefore hdate') (hbefore' hdate)

theorem kept_unique (hnodup : all.Nodup) (hx : Kept all m thread x) (hy : Kept all m thread y)
    (hsome : x.header ≠ none) (he : y.header = x.header) : y = x := by
  by_contra hne
  exact beats_antisymm hnodup (hx.2 hsome y hy.1 he hne)
    (hy.2 (he ▸ hsome) x hx.1 he.symm (Ne.symm hne))

theorem favoured_of_kept (hspelled : ∀ x y, thread x → CopyIn f thread x y → y.header = x.header)
    (hx : Kept all m thread x) (hsome : x.header ≠ none) : Favoured f m thread x := by
  intro y hy
  by_cases hne : y = x
  · rw [hne]
    exact ⟨Nat.le_refl _, fun _ => Int.le_refl _⟩
  · have hbeats := hx.2 hsome y hy.1 (hspelled x y hx.1 hy) hne
    exact ⟨hbeats.1, fun he => (hbeats.2 (Nat.le_of_eq he.symm)).1⟩

/-- Where the copies are settled, which is kept does not depend on the order of the store. -/
theorem Settled.kept {all' : List MailMessage} (h : Settled f m thread)
    (hx : Kept all m thread x) : Kept all' m thread x := by
  refine ⟨hx.1, fun hsome y hy he hne => ?_⟩
  have hbeats := hx.2 hsome y hy he hne
  refine ⟨hbeats.1, fun hge => ⟨(hbeats.2 hge).1, fun hdate => ?_⟩⟩
  -- the other copy would be as good, and the two are one
  have hfavoured := favoured_of_kept h.spelled hx hsome
  have hcopy : CopyIn f thread x y := ⟨hy, messageId_of_header he⟩
  have hscore := Nat.le_antisymm hge hbeats.1
  have hfavoured' : Favoured f m thread y := by
    intro z hz
    obtain ⟨hle, holder⟩ := hfavoured z ⟨hz.1, hz.2.trans hcopy.2⟩
    refine ⟨hscore ▸ hle, fun hz => ?_⟩
    exact Int.le_trans hdate (holder (hz.trans hscore.symm))
  have hid : x.messageId f ≠ none := messageId_eq_none.not.mpr hsome
  exact absurd (h.favoured x y hx.1 hid hcopy hfavoured hfavoured') hne

theorem Settled.prescribed (h : Settled f m thread) (hids : ∀ x, thread x → x.id = m.id → x = m)
    (hx : Kept all m thread x) (hsome : x.messageId f ≠ none) : Prescribed f m thread x := by
  by_cases hfolder : x.folderId = m.folderId
  · exact .inl hfolder
  · have hid : x.id ≠ m.id := fun he => hfolder (hids x hx.1 he ▸ rfl)
    have hscore := scoreCopy_le hfolder hid
    have hfavoured := favoured_of_kept h.spelled hx (messageId_eq_none.not.mp hsome)
    refine .inr ⟨fun y hy he => ?_, ?_⟩
    · have hle := (hfavoured y hy).1
      have hfour := scoreCopy_of_folder he
      omega
    · cases hbody : x.hasBody with
      | true => exact .inl rfl
      | false =>
        have hzero : scoreCopy m.folderId m.id x = 0 := scoreCopy_eq_zero.mpr ⟨hfolder, hid, hbody⟩
        -- no copy has a score, so there is no other copy
        have honly : ∀ y, CopyIn f thread x y → y = x := by
          intro y hy
          by_contra hne
          obtain ⟨z, hz, hmark⟩ := h.marked x y hx.1 hsome hy hne
          have hle := (hfavoured z hz).1
          rcases hmark with hmark | hmark
          · have hfour := scoreCopy_of_folder hmark
            omega
          · have hone := scoreCopy_of_body (m := m) hmark
            omega
        refine .inr fun y hy => ?_
        rw [honly y hy]
        exact ⟨hbody, Int.le_refl _⟩

end Thread

/-! ## Exactness -/

theorem inThread_ids (hids : (all.map MailMessage.id).Nodup) (hm : m ∈ all) :
    ∀ x, InThread f all m x → x.id = m.id → x = m :=
  fun _ hx he => List.inj_on_of_nodup_map hids hx.1 hm he

/-- A settled thread that does not depend on the order is shown right. -/
theorem membersRight_of_settled (hids : (all.map MailMessage.id).Nodup)
    (hrounds : all.length ≤ rounds) (hm : m ∈ all) (hfixed : ThreadFixed f all m)
    (hsettled : Settled f m (InThread f all m)) : MembersRight f all m rounds := by
  obtain ⟨p, -, heq⟩ := conversationMembers_eq (f := f) hids hrounds hm
  have hmem {x : MailMessage} := mem_conversationMembers (x := x) hids hrounds hm heq
  have hone := inThread_ids (f := f) hids hm
  refine ⟨_, heq, ?_, ?_⟩
  · refine ⟨?_, ?_, ?_, ?_, ?_, ?_, ?_⟩
    · exact hmem.mpr (kept_self hone (.refl hm))
    · exact fun x hx => (hmem.mp hx).1
    · intro x hx hsome
      obtain ⟨y, hy, he⟩ := exists_kept (m := m) (fun x hx => hx.1) hids.of_map hx
      refine ⟨y, ⟨hmem.mpr hy, messageId_of_header he⟩, ?_⟩
      rintro z ⟨hz, hid⟩
      have hz := hmem.mp hz
      have hheader := hsettled.spelled x z hx ⟨hz.1, hid⟩
      exact kept_unique hids.of_map hy hz (he ▸ messageId_eq_none.not.mp hsome)
        (hheader.trans he.symm)
    · exact fun x hx hnone => hmem.mpr (kept_unnamed hx (messageId_eq_none.mp hnone))
    · exact nodup_conversationMembers hids hrounds hm heq
    · exact sorted_conversationMembers hids hrounds hm heq
    · exact fun x hx hsome => hsettled.prescribed hone (hmem.mp hx) hsome
  · intro all' kept' hperm hkept'
    have hids' : (all'.map MailMessage.id).Nodup := (hperm.map _).nodup_iff.mpr hids
    have hrounds' : all'.length ≤ rounds := hperm.length_eq ▸ hrounds
    have hm' : m ∈ all' := hperm.mem_iff.mpr hm
    rw [List.perm_ext_iff_of_nodup (nodup_conversationMembers hids' hrounds' hm' hkept')
      (nodup_conversationMembers hids hrounds hm heq)]
    intro x
    have hthread : InThread f all' m = InThread f all m :=
      funext fun x => propext (hfixed all' hperm x)
    rw [hmem, mem_conversationMembers hids' hrounds' hm' hkept', hthread]
    exact ⟨hsettled.kept, hsettled.kept⟩

/-- A thread is known from the messages kept of it. -/
theorem inThread_of_kept {all' : List MailMessage} (hnodup : all.Nodup)
    (hsub : ∀ x ∈ all, x ∈ all')
    (hkept : ∀ u, Kept all m (InThread f all m) u → InThread f all' m u) :
    ∀ x, InThread f all m x → InThread f all' m x := by
  intro x hx
  cases hheader : x.header with
  | none => exact hkept x (kept_unnamed hx hheader)
  | some k =>
    have hsome : x.header ≠ none := by
      rw [hheader]
      exact Option.some_ne_none k
    obtain ⟨u, hu, he⟩ := exists_kept (m := m) (fun x hx => hx.1) hnodup hx
    have haccount := (accountId_eq_of_eqvGen hx.2).symm.trans (accountId_eq_of_eqvGen hu.1.2)
    exact (hkept u hu).copy (hsub x hx.1) haccount (messageId_of_header he.symm)
      (messageId_eq_none.not.mpr (he.symm ▸ hsome))

theorem exists_other {kept : List MailMessage} (hshows : Shows f all m kept)
    (hx : InThread f all m x) (hsome : x.messageId f ≠ none)
    (hy : CopyIn f (InThread f all m) x y) (hne : y ≠ x) :
    ∃ k ∈ kept, k.messageId f = x.messageId f ∧ ∃ w, (w = x ∨ w = y) ∧ w ≠ k ∧
      CopyIn f (InThread f all m) k w := by
  obtain ⟨k, ⟨hk, hid⟩, -⟩ := hshows.copies x hx hsome
  refine ⟨k, hk, hid, ?_⟩
  by_cases hxk : x = k
  · exact ⟨y, .inr rfl, hxk ▸ hne, hy.1, hy.2.trans hid.symm⟩
  · exact ⟨x, .inl rfl, hxk, hx, hid.symm⟩

section Right

variable {kept : List MailMessage} (hids : (all.map MailMessage.id).Nodup)
  (hrounds : all.length ≤ rounds) (hm : m ∈ all)
  (hkept : conversationMembers f rounds all m = some kept) (hshows : Shows f all m kept)

include hids hrounds hm hkept hshows

/-- Copies of two spellings would both be kept. -/
theorem spelled_of_shows : ∀ x y, InThread f all m x → CopyIn f (InThread f all m) x y →
    y.header = x.header := by
  intro x y hx hy
  cases hheader : x.header with
  | none =>
    have hnone : x.messageId f = none := messageId_eq_none.mpr hheader
    rw [← hy.2] at hnone
    exact messageId_eq_none.mp hnone
  | some k =>
    have hsome : x.header ≠ none := by
      rw [hheader]
      exact Option.some_ne_none k
    have hid : x.messageId f ≠ none := messageId_eq_none.not.mpr hsome
    have hsome' : y.header ≠ none := messageId_eq_none.not.mp (hy.2.symm ▸ hid)
    obtain ⟨u, hu, hux⟩ := exists_kept (m := m) (fun x hx => hx.1) hids.of_map hx
    obtain ⟨v, hv, hvy⟩ := exists_kept (m := m) (fun x hx => hx.1) hids.of_map hy.1
    have hmem {x : MailMessage} := mem_conversationMembers (x := x) hids hrounds hm hkept
    have he := (hshows.copies x hx hid).unique ⟨hmem.mpr hu, messageId_of_header hux⟩
      ⟨hmem.mpr hv, (messageId_of_header hvy).trans hy.2⟩
    rw [← hvy, ← he, hux, hheader]

variable (horder : ∀ all' kept', all'.Perm all → conversationMembers f rounds all' m = some kept' →
  kept'.Perm kept)

include horder

omit hshows in
/-- A thread that changed with the order would show. -/
theorem threadFixed_of_shows : ThreadFixed f all m := by
  intro all' hperm
  have hids' : (all'.map MailMessage.id).Nodup := (hperm.map _).nodup_iff.mpr hids
  have hrounds' : all'.length ≤ rounds := hperm.length_eq ▸ hrounds
  have hm' : m ∈ all' := hperm.mem_iff.mpr hm
  obtain ⟨_, -, hkept'⟩ := conversationMembers_eq (f := f) hids' hrounds' hm'
  have hmem (x : MailMessage) :
      Kept all' m (InThread f all' m) x ↔ Kept all m (InThread f all m) x := by
    rw [← mem_conversationMembers hids' hrounds' hm' hkept',
      ← mem_conversationMembers hids hrounds hm hkept]
    exact (horder all' _ hperm hkept').mem_iff
  intro x
  constructor
  · exact inThread_of_kept hids'.of_map (fun y hy => hperm.mem_iff.mp hy)
      (fun u hu => ((hmem u).mp hu).1) x
  · exact inThread_of_kept hids.of_map (fun y hy => hperm.mem_iff.mpr hy)
      (fun u hu => ((hmem u).mpr hu).1) x

/-- A copy as good as the kept one would take its place in another order. -/
theorem no_tie (hx : x ∈ kept) (hsome : x.messageId f ≠ none)
    (hy : CopyIn f (InThread f all m) x y) (hne : y ≠ x)
    (hscore : scoreCopy m.folderId m.id x ≤ scoreCopy m.folderId m.id y)
    (hdate : y.date ≤ x.date) : False := by
  have hthread := hshows.thread x hx
  have hheader := spelled_of_shows hids hrounds hm hkept hshows x y hthread hy
  have hfixed := threadFixed_of_shows hids hrounds hm hkept horder
  -- the store with the other copy in front
  have hperm : (y :: all.erase y).Perm all := (List.perm_cons_erase hy.1.1).symm
  have hids' : ((y :: all.erase y).map MailMessage.id).Nodup := (hperm.map _).nodup_iff.mpr hids
  have hrounds' : (y :: all.erase y).length ≤ rounds := hperm.length_eq ▸ hrounds
  have hm' : m ∈ y :: all.erase y := hperm.mem_iff.mpr hm
  obtain ⟨_, -, hkept'⟩ := conversationMembers_eq (f := f) hids' hrounds' hm'
  have hx' := (horder _ _ hperm hkept').mem_iff.mpr hx
  rw [mem_conversationMembers hids' hrounds' hm' hkept'] at hx'
  have hbeats := hx'.2 (messageId_eq_none.not.mp hsome) y ((hfixed _ hperm y).mpr hy.1) hheader hne
  have hfront : [y, x] <+ y :: all.erase y :=
    (List.singleton_sublist.mpr ((List.mem_erase_of_ne (Ne.symm hne)).mpr hthread.1)).cons_cons y
  exact not_pair_sublist_swap hids'.of_map hfront ((hbeats.2 hscore).2 hdate)

theorem settled_of_shows : Settled f m (InThread f all m) := by
  have hspelled := spelled_of_shows hids hrounds hm hkept hshows
  refine ⟨hspelled, ?_, ?_⟩
  · intro x y hx hsome hy hne
    by_contra hno
    obtain ⟨k, hk, hid, w, -, hwk, hw⟩ :=
      exists_other hshows hx hsome hy hne
    have hsome' : k.messageId f ≠ none := hid ▸ hsome
    have hunmarked : k.folderId ≠ m.folderId ∧ k.hasBody ≠ true :=
      not_or.mp fun hmark => hno ⟨k, ⟨hshows.thread k hk, hid⟩, hmark⟩
    have hzero : scoreCopy m.folderId m.id k = 0 := by
      refine scoreCopy_eq_zero.mpr ⟨hunmarked.1, fun he => ?_, Bool.eq_false_iff.mpr hunmarked.2⟩
      exact hunmarked.1 (inThread_ids hids hm k (hshows.thread k hk) he ▸ rfl)
    rcases hshows.prescribed k hk hsome' with hfolder | ⟨-, hbody | hnewest⟩
    · exact hunmarked.1 hfolder
    · exact hunmarked.2 hbody
    · exact no_tie hids hrounds hm hkept hshows horder hk hsome' hw hwk
        (hzero ▸ Nat.zero_le _) (hnewest w hw).2
  · intro x y hx hsome hy hfx hfy
    by_contra hne
    obtain ⟨k, hk, hid, w, hxy, hwk, hw⟩ :=
      exists_other hshows hx hsome hy hne
    have hsome' : k.messageId f ≠ none := hid ▸ hsome
    have hthread := hshows.thread k hk
    have hfw : Favoured f m (InThread f all m) w := by
      rcases hxy with rfl | rfl
      · exact hfx
      · exact hfy
    obtain ⟨hle, holder⟩ := hfw k ⟨hthread, hw.2.symm⟩
    have hkept' := (mem_conversationMembers hids hrounds hm hkept).mp hk
    have hge := (favoured_of_kept hspelled hkept' (messageId_eq_none.not.mp hsome') w hw).1
    exact no_tie hids hrounds hm hkept hshows horder hk hsome' hw hwk hle
      (holder (Nat.le_antisymm hle hge))

end Right

end Members

theorem threadFixed_of_dates (f : Text → Text) {all : List MailMessage} (m : MailMessage)
    (hdates : (all.map MailMessage.date).Nodup) : ThreadFixed f all m := by
  intro all' hperm x
  have hrelated : Related f HasSubject all' = Related f HasSubject all := by
    funext a b
    simp only [Related, FallsBack, byDateAsc_eq_of_perm hperm hdates, hperm.mem_iff]
  unfold InThread
  rw [hrelated, hperm.mem_iff]

def messageId (c : Char) (s : Text) : MessageId := ⟨c :: s, List.cons_ne_nil c s⟩

def lowerId : MailMessage := { emptySubject with messageIdHeader := some "<a@x>".toList }

def upperId : MailMessage :=
  { lowerId with id := messageId '2' [], messageIdHeader := some "<A@x>".toList }

def archived : MailMessage := { lowerId with folderId := "archive".toList }

def trashed : MailMessage :=
  { archived with id := messageId '2' [], folderId := "trash".toList, date := 2 }

def answer : MailMessage where
  id := messageId '3' []
  accountId := lowerId.accountId
  date := 3
  inReplyTo := some "<a@x>".toList

end Lyra.Conversation
