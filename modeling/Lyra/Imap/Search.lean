import Mathlib.Data.List.Perm.Subperm
import Mathlib.Data.List.Range
import Lyra.Imap.Server
import Lyra.Imap.FolderPass

/-!
# Search keys

`search_uids` sends `UID SEARCH n:*`.  A bare number set among the search keys names message
sequence numbers (RFC 3501, 6.4.4); only `UID n:*` names UIDs.

* `uidSearch_sequence`: the search by sequence numbers is `Mailbox.searchFrom`;
* `mem_uidSearch_uid`: with the key `UID n:*` nothing above is missed;
* `searchesAbove_iff`: without it, exactly if at most one message is above, or no number up to
  the last one has been expunged.
-/

namespace Lyra

/-! ## Keys -/

/-- A bound of a range of numbers; `*` is the largest number in use. -/
inductive RangeBound
  | number (n : Nat)
  | star
  deriving DecidableEq, Repr

/-- The search keys that name messages by numbers. -/
inductive SearchKey
  | sequence (first last : RangeBound)
  | uid (first last : RangeBound)
  deriving DecidableEq, Repr

def RangeBound.value (largest : Nat) : RangeBound → Nat
  | number n => n
  | star => largest

/-- Zero is not a number of a set. -/
def RangeBound.valid : RangeBound → Bool
  | number n => n ≠ 0
  | star => true

/-- A range has no order: `5:3` is `3:5`. -/
def inRange (a b k : Nat) : Bool := min a b ≤ k && k ≤ max a b

theorem inRange_iff {a b k : Nat} : inRange a b k = true ↔ min a b ≤ k ∧ k ≤ max a b := by
  unfold inRange
  rw [Bool.and_eq_true, decide_eq_true_eq, decide_eq_true_eq]

namespace Mailbox

/-- `UID SEARCH key`: the UIDs of the messages it names, `none` if it is not well formed. -/
def uidSearch (mb : Mailbox) : SearchKey → Option (List Uid)
  | .sequence a b =>
    if a.valid && b.valid then
      let largest := mb.uids.length
      some (mb.uids.filter fun u => inRange (a.value largest) (b.value largest) (mb.seq u))
    else none
  | .uid a b =>
    if a.valid && b.valid then
      let largest := mb.uids.getLast?.getD 0
      some (mb.uids.filter fun u => inRange (a.value largest) (b.value largest) u)
    else none

end Mailbox

/-- The key that `search_uids` sends. -/
def searchKey (after : Option Uid) : SearchKey := .sequence (.number (searchQuery after)) .star

/-- `search_uids` against a mailbox, up to the order of a hash set. -/
def searchUids (mb : Mailbox) (after : Option Uid) : Option (List Uid) :=
  mb.uidSearch (searchKey after)

/-- The number of the search fits its type, and the answer has every UID above `u`. -/
structure SearchesAbove (mb : Mailbox) (u : Uid) : Prop where
  fits : u + 1 < 2 ^ 32
  complete : ∃ l, searchUids mb (some u) = some l ∧ ∀ v ∈ mb.uids, u < v → v ∈ l

/-- At most one message is above `u`, or every number up to `u` is still in use. -/
def NoneExpunged (mb : Mailbox) (u : Uid) : Prop :=
  (mb.uids.filter (u < ·)).length ≤ 1 ∨ ∀ k, 0 < k → k ≤ u → k ∈ mb.uids

/-! ## What a key lists -/

section Listing

variable {mb : Mailbox} {n : Nat} {u v : Uid}

theorem seq_le_length (h : u ∈ mb.uids) : mb.seq u ≤ mb.uids.length :=
  List.idxOf_lt_length_iff.mpr h

theorem mem_uidSearch_sequence (mb : Mailbox) (v : Uid) (hn : 0 < n) :
    ∃ l, mb.uidSearch (.sequence (.number n) .star) = some l ∧
      (v ∈ l ↔ v ∈ mb.uids ∧ (n ≤ mb.seq v ∨ mb.isLast v)) := by
  have hvalid : ((RangeBound.number n).valid && RangeBound.star.valid) = true := by
    simp [RangeBound.valid]
    omega
  refine ⟨_, if_pos hvalid, ?_⟩
  rw [List.mem_filter, Mailbox.isLast_iff]
  simp only [inRange_iff, RangeBound.value]
  constructor
  · rintro ⟨hv, hlow, -⟩
    have hle := seq_le_length hv
    refine ⟨hv, ?_⟩
    rcases Nat.le_total n mb.uids.length with hn | hn
    · exact .inl (Nat.min_eq_left hn ▸ hlow)
    · exact .inr ⟨hv, Nat.le_antisymm hle (Nat.min_eq_right hn ▸ hlow)⟩
  · rintro ⟨hv, h⟩
    have hle := seq_le_length hv
    refine ⟨hv, ?_, Nat.le_trans hle (Nat.le_max_right _ _)⟩
    rcases h with hn | ⟨-, hlast⟩
    · exact Nat.le_trans (Nat.min_le_left _ _) hn
    · exact hlast ▸ Nat.min_le_right _ _

theorem uidSearch_sequence (hn : 0 < n) :
    ∃ l, mb.uidSearch (.sequence (.number n) .star) = some l ∧
      ∀ v, v ∈ l ↔ v ∈ mb.searchFrom n := by
  obtain ⟨l, hl, -⟩ := mem_uidSearch_sequence mb 0 hn
  refine ⟨l, hl, fun v => ?_⟩
  obtain ⟨l', hl', hv⟩ := mem_uidSearch_sequence mb v hn
  obtain rfl := Option.some.inj (hl.symm.trans hl')
  rw [hv, Mailbox.mem_searchFrom hn]

theorem le_getLast (h : v ∈ mb.uids) : v ≤ mb.uids.getLast?.getD 0 := by
  have hne : mb.uids ≠ [] := List.ne_nil_of_mem h
  rw [List.getLast?_eq_getLast_of_ne_nil hne, Option.getD_some, List.getLast_eq_getElem]
  obtain ⟨i, hi, rfl⟩ := List.mem_iff_getElem.mp h
  rcases Nat.lt_or_eq_of_le (show i ≤ mb.uids.length - 1 by omega) with hlt | heq
  · exact Nat.le_of_lt (List.pairwise_iff_getElem.mp mb.ascending i _ hi
      (Nat.sub_lt (List.length_pos_of_ne_nil hne) Nat.one_pos) hlt)
  · simp only [heq]
    exact Nat.le_refl _

/-- By UIDs nothing from `n` on is missed; past the end, the last message is listed. -/
theorem mem_uidSearch_uid (hn : 0 < n) :
    ∃ l, mb.uidSearch (.uid (.number n) .star) = some l ∧
      ∀ v ∈ mb.uids, n ≤ v → v ∈ l := by
  have hvalid : ((RangeBound.number n).valid && RangeBound.star.valid) = true := by
    simp [RangeBound.valid]
    omega
  refine ⟨_, if_pos hvalid, fun v hv hle => ?_⟩
  rw [List.mem_filter]
  refine ⟨hv, ?_⟩
  have hlast := le_getLast hv
  simp only [inRange_iff, RangeBound.value]
  exact ⟨Nat.le_trans (Nat.min_le_left _ _) hle, Nat.le_trans hlast (Nat.le_max_right _ _)⟩

end Listing

/-! ## Sequence numbers and gaps -/

section Gaps

variable {l : List Nat} {u : Nat}

/-- In ascending order, what is at most `u` comes first. -/
theorem filter_append_filter (h : l.Pairwise (· < ·)) :
    l.filter (· ≤ u) ++ l.filter (u < ·) = l := by
  induction l with
  | nil => rfl
  | cons a l ih =>
    obtain ⟨ha, hl⟩ := List.pairwise_cons.mp h
    rcases Nat.lt_or_ge u a with hlt | hge
    · have hbelow : (a :: l).filter (· ≤ u) = [] := by
        rw [List.filter_eq_nil_iff]
        intro b hb
        rcases List.mem_cons.mp hb with rfl | hb
        · simp only [decide_eq_true_eq]
          omega
        · have := ha b hb
          simp only [decide_eq_true_eq]
          omega
      have habove : (a :: l).filter (u < ·) = a :: l := by
        rw [List.filter_eq_self]
        intro b hb
        rcases List.mem_cons.mp hb with rfl | hb
        · simpa using hlt
        · have := ha b hb
          simp only [decide_eq_true_eq]
          omega
      rw [hbelow, habove, List.nil_append]
    · rw [List.filter_cons_of_pos (by simpa using hge),
        List.filter_cons_of_neg (by simpa using hge), List.cons_append, ih hl]

/-- There are `u` numbers up to `u` only if none is missing. -/
theorem le_length_filter_iff (hnodup : l.Nodup) (hpos : ∀ a ∈ l, 0 < a) :
    u ≤ (l.filter (· ≤ u)).length ↔ ∀ k, 0 < k → k ≤ u → k ∈ l := by
  have hbelow : (l.filter (· ≤ u)).Nodup := hnodup.sublist List.filter_sublist
  have hrange : (l.filter (· ≤ u)).Subperm (List.range' 1 u) := by
    refine hbelow.subperm fun a ha => ?_
    obtain ⟨hal, hle⟩ := List.mem_filter.mp ha
    have := hpos a hal
    simp only [decide_eq_true_eq] at hle
    rw [List.mem_range'_1]
    omega
  constructor
  · intro h k hk hle
    have hperm := hrange.perm_of_length_le (by rwa [List.length_range'])
    have hmem : k ∈ List.range' 1 u := by
      rw [List.mem_range'_1]
      omega
    exact (List.mem_filter.mp (hperm.mem_iff.mpr hmem)).1
  · intro h
    have hsub : (List.range' 1 u).Subperm (l.filter (· ≤ u)) := by
      have hone : (List.range' 1 u).Nodup := List.nodup_range'
      refine hone.subperm fun k hk => ?_
      rw [List.mem_range'_1] at hk
      rw [List.mem_filter]
      exact ⟨h k (by omega) (by omega), by simp only [decide_eq_true_eq]; omega⟩
    have := hsub.length_le
    rwa [List.length_range'] at this

/-- The positions of the numbers above `u` are all at least `u`, but for the last one. -/
theorem forall_idxOf_iff (h : l.Pairwise (· < ·)) (hpos : ∀ a ∈ l, 0 < a) :
    (∀ v ∈ l, u < v → u ≤ l.idxOf v ∨ l.idxOf v + 1 = l.length) ↔
      (l.filter (u < ·)).length ≤ 1 ∨ ∀ k, 0 < k → k ≤ u → k ∈ l := by
  have hnodup : l.Nodup := h.imp fun hlt => Nat.ne_of_lt hlt
  rw [← le_length_filter_iff hnodup hpos]
  have hsplit := filter_append_filter (u := u) h
  have hlength := congrArg List.length hsplit
  rw [List.length_append] at hlength
  have hidx : ∀ v, u < v →
      l.idxOf v = (l.filter (· ≤ u)).length + (l.filter (u < ·)).idxOf v := by
    intro v hv
    have hnot : v ∉ l.filter (· ≤ u) := by
      intro hmem
      have hle : v ≤ u := of_decide_eq_true (List.mem_filter.mp hmem).2
      omega
    conv_lhs => rw [← hsplit, List.idxOf_append_of_notMem hnot]
  constructor
  · intro hall
    cases habove : l.filter (u < ·) with
    | nil => exact .inl (Nat.zero_le _)
    | cons v rest =>
      cases rest with
      | nil => exact .inl (Nat.le_refl _)
      | cons w rest =>
        -- with two numbers above, the first of them is not the last of all
        apply Or.inr
        have hv : v ∈ l.filter (u < ·) := by
          rw [habove]
          exact List.mem_cons_self
        have hlt : u < v := of_decide_eq_true (List.mem_filter.mp hv).2
        have hfirst := hidx v hlt
        rw [habove, List.idxOf_cons_self] at hfirst
        rw [habove, List.length_cons, List.length_cons] at hlength
        rcases hall v (List.mem_filter.mp hv).1 hlt with hle | hlast
        · omega
        · omega
  · intro hor v hv hlt
    have hmem : v ∈ l.filter (u < ·) := List.mem_filter.mpr ⟨hv, decide_eq_true hlt⟩
    have hpos := List.idxOf_lt_length_iff.mpr hmem
    have hv := hidx v hlt
    rcases hor with hone | hall
    · apply Or.inr
      omega
    · apply Or.inl
      omega

end Gaps

/-! ## The search above a UID -/

section Above

variable {mb : Mailbox} {u : Uid}

/-- Everything above `u` is listed, exactly where few messages are above or none is missing. -/
theorem listed_iff (mb : Mailbox) (u : Uid) :
    (∀ v ∈ mb.uids, u < v → u + 1 ≤ mb.seq v ∨ mb.isLast v) ↔ NoneExpunged mb u := by
  have hnumbers := forall_idxOf_iff (u := u) mb.ascending fun a ha => Mailbox.uid_pos ha
  unfold NoneExpunged
  refine Iff.trans ?_ hnumbers
  constructor
  · intro h v hv hlt
    rcases h v hv hlt with hle | hlast
    · exact .inl (Nat.le_of_succ_le_succ hle)
    · exact .inr (Mailbox.isLast_iff.mp hlast).2
  · intro h v hv hlt
    rcases h v hv hlt with hle | hlast
    · exact .inl (Nat.succ_le_succ hle)
    · exact .inr (Mailbox.isLast_iff.mpr ⟨hv, hlast⟩)

theorem searchesAbove_iff (mb : Mailbox) (u : Uid) :
    SearchesAbove mb u ↔ u + 1 < 2 ^ 32 ∧ NoneExpunged mb u := by
  rw [← listed_iff]
  have hquery : u + 1 < 2 ^ 32 → searchQuery (some u) = u + 1 := fun h => Nat.mod_eq_of_lt h
  constructor
  · rintro ⟨hfits, l, hl, hall⟩
    refine ⟨hfits, fun v hv hlt => ?_⟩
    unfold searchUids searchKey at hl
    rw [hquery hfits] at hl
    obtain ⟨l', hl', hmem⟩ := mem_uidSearch_sequence mb v (Nat.succ_pos u)
    obtain rfl := Option.some.inj (hl.symm.trans hl')
    exact (hmem.mp (hall v hv hlt)).2
  · rintro ⟨hfits, h⟩
    obtain ⟨l, hl, -⟩ := mem_uidSearch_sequence mb 0 (Nat.succ_pos u)
    refine ⟨hfits, l, ?_, fun v hv hlt => ?_⟩
    · unfold searchUids searchKey
      rw [hquery hfits]
      exact hl
    · obtain ⟨l', hl', hmem⟩ := mem_uidSearch_sequence mb v (Nat.succ_pos u)
      obtain rfl := Option.some.inj (hl.symm.trans hl')
      exact hmem.mpr ⟨hv, h v hv hlt⟩

end Above

/-- The first six messages are gone. -/
def expunged : Mailbox where
  uidValidity := 1
  uidNext := 11
  messages := [7, 8, 9].map fun u => ⟨{ uid := u }, 1⟩
  highestModseq := none
  condstore := false
  ascending := by decide
  uidBounds := by decide
  uidNextPos := by decide
  uidLimit := by decide
  modseqBound := by
    intro h hh
    cases hh

/-- UID 8 is above 7, but there is no eighth message. -/
theorem searches_last_only : ¬ SearchesAbove expunged 7 := by
  rintro ⟨-, l, hl, hall⟩
  have hanswer : searchUids expunged (some 7) = some [9] := rfl
  obtain rfl := Option.some.inj (hl.symm.trans hanswer)
  exact absurd (hall 8 (by decide) (by decide)) (by decide)

end Lyra
