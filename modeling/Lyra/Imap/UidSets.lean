import Lyra.Imap.MetadataFetch
import Lyra.Lib.Lines

/-!
# UID sets as text

`format_uid_set` sorts the UIDs, removes repetitions and writes runs as ranges, in `u32` arithmetic.
A server reads the text by the `sequence-set` grammar.

* `formatUidSetText_eq`: the text is the ranges of `formatUidSet`, and nothing overflows;
* `formatUidSetText_denotes`: a server reads exactly the UIDs.
-/

namespace Lyra

/-! ## The text -/

/-- `end + 1`, where it does not overflow. -/
def nextUid (stop : UInt32) : Option UInt32 :=
  if stop.toNat + 1 < UInt32.size then some (stop + 1) else none

/-- A single UID or a range. -/
def uidPart (start stop : UInt32) : Text :=
  if start = stop then decimal start.toNat else decimal start.toNat ++ ':' :: decimal stop.toNat

/-- The loop of `format_uid_set`. -/
def uidParts (parts : List Text) (start stop : UInt32) : List UInt32 → Option (List Text)
  | [] => some (parts ++ [uidPart start stop])
  | uid :: rest =>
    match nextUid stop with
    | none => none
    | some next =>
      if uid = next then uidParts parts start uid rest
      else uidParts (parts ++ [uidPart start stop]) uid uid rest

/-- `format_uid_set`; nothing for an empty list or where the arithmetic overflows. -/
def formatUidSetText (uids : List UInt32) : Option Text :=
  match (uids.mergeSort (fun a b => decide (a ≤ b))).destutter (· ≠ ·) with
  | [] => none
  | uid :: rest => (uidParts [] uid uid rest).map [','].intercalate

/-! ## The grammar -/

/-- `seq-number`. -/
inductive SeqNumber
  | number (n : Nat)
  | largest
  deriving DecidableEq

/-- `nz-number`: digits, the first not zero, below 2^32. -/
def readNzNumber (s : Text) : Option Nat :=
  match s with
  | [] => none
  | c :: rest =>
    if c ≠ '0' ∧ (c :: rest).all Char.isDigit then
      let n := Nat.ofDigitChars 10 (c :: rest) 0
      if n < UInt32.size then some n else none
    else none

def readSeqNumber (s : Text) : Option SeqNumber :=
  if s = ['*'] then some .largest else (readNzNumber s).map .number

/-- `seq-number` or `seq-range`. -/
def readSeqRange (s : Text) : Option (SeqNumber × SeqNumber) :=
  match s.splitOn ':' with
  | [a] => (readSeqNumber a).map fun n => (n, n)
  | [a, b] =>
    match readSeqNumber a, readSeqNumber b with
    | some a, some b => some (a, b)
    | _, _ => none
  | _ => none

/-- `sequence-set`. -/
def readSequenceSet (s : Text) : Option (List (SeqNumber × SeqNumber)) :=
  (s.splitOn ',').mapM readSeqRange

def SeqNumber.value (greatest : Nat) : SeqNumber → Nat
  | .number n => n
  | .largest => greatest

/-- The numbers a set stands for in a mailbox with the greatest number given; the ends of a range
come in any order. -/
def Denotes (greatest : Nat) (set : List (SeqNumber × SeqNumber)) (n : Nat) : Prop :=
  ∃ r ∈ set, min (r.1.value greatest) (r.2.value greatest) ≤ n ∧
    n ≤ max (r.1.value greatest) (r.2.value greatest)

/-! ## The text of the ranges -/

/-- A range as `format_uid_set` writes it. -/
def rangeText (r : Nat × Nat) : Text :=
  if r.1 = r.2 then decimal r.1 else decimal r.1 ++ ':' :: decimal r.2

theorem rangeText_toNat (start stop : UInt32) :
    rangeText (start.toNat, stop.toNat) = uidPart start stop := by
  simp only [rangeText, uidPart, UInt32.toNat_inj]

theorem nextUid_of_lt {stop uid : UInt32} (h : stop < uid) : nextUid stop = some (stop + 1) := by
  have hlt : stop.toNat < uid.toNat := h
  have hsize := uid.toNat_lt_size
  exact if_pos (by omega)

theorem toNat_succ_of_lt {stop uid : UInt32} (h : stop < uid) :
    (stop + 1).toNat = stop.toNat + 1 := by
  have hlt : stop.toNat < uid.toNat := h
  have hsize := uid.toNat_lt_size
  rw [UInt32.toNat_add]
  exact Nat.mod_eq_of_lt (by simp only [UInt32.size] at hsize; simp; omega)

/-- On UIDs in ascending order the loop writes the ranges and never overflows. -/
theorem uidParts_eq {start stop : UInt32} {rest : List UInt32}
    (h : (stop :: rest).IsChain (· < ·)) (parts : List Text) :
    uidParts parts start stop rest =
      some (parts ++ (uidRanges start.toNat stop.toNat (rest.map UInt32.toNat)).map rangeText) := by
  induction rest generalizing start stop parts with
  | nil => rw [uidParts, List.map_nil, uidRanges, List.map_singleton, rangeText_toNat]
  | cons uid rest ih =>
    obtain ⟨hlt, hrest⟩ := List.isChain_cons_cons.mp h
    rw [uidParts, nextUid_of_lt hlt, List.map_cons, uidRanges]
    have hnext : uid = stop + 1 ↔ uid.toNat = stop.toNat + 1 := by
      rw [← UInt32.toNat_inj, toNat_succ_of_lt hlt]
    by_cases huid : uid = stop + 1
    · rw [if_pos (hnext.mp huid)]
      simp only [if_pos huid]
      exact ih hrest parts
    · rw [if_neg (fun h => huid (hnext.mpr h))]
      simp only [if_neg huid]
      rw [ih hrest, List.map_cons, rangeText_toNat, List.append_assoc, List.singleton_append]

/-- The sorted UIDs without repetitions ascend. -/
theorem isChain_sorted (uids : List UInt32) :
    ((uids.mergeSort (fun a b => decide (a ≤ b))).destutter (· ≠ ·)).IsChain (· < ·) := by
  have hsorted : (uids.mergeSort (fun a b => decide (a ≤ b))).Pairwise fun a b => a ≤ b := by
    have h := @List.pairwise_mergeSort UInt32 (fun a b => decide (a ≤ b))
      (fun a b c hab hbc => decide_eq_true (UInt32.le_trans (of_decide_eq_true hab)
        (of_decide_eq_true hbc)))
      (fun a b => by simpa using UInt32.le_total a b) uids
    exact h.imp fun hab => of_decide_eq_true hab
  have hle := (hsorted.sublist (List.destutter_sublist (· ≠ ·) _)).isChain
  have hne := List.isChain_destutter (· ≠ ·) (uids.mergeSort (fun a b => decide (a ≤ b)))
  rw [List.isChain_iff_getElem] at hle hne ⊢
  intro i hi
  exact UInt32.lt_of_le_of_ne (hle i hi) (hne i hi)

theorem formatUidSetText_eq {uids : List UInt32} (hne : uids ≠ []) :
    formatUidSetText uids =
      some ([','].intercalate ((formatUidSet (uids.map UInt32.toNat)).map rangeText)) := by
  have hsort : ((uids.mergeSort (fun a b => decide (a ≤ b))).destutter (· ≠ ·)).map UInt32.toNat =
      ((uids.map UInt32.toNat).mergeSort (fun a b => decide (a ≤ b))).destutter (· ≠ ·) := by
    rw [List.map_destutter_ne _ fun a b h => UInt32.toNat_inj.mp h, List.map_mergeSort]
    intro a _ b _
    rfl
  have hchain := isChain_sorted uids
  unfold formatUidSetText formatUidSet
  rw [← hsort]
  cases hdedup : (uids.mergeSort (fun a b => decide (a ≤ b))).destutter (· ≠ ·) with
  | nil =>
    have hnil := (List.destutter_eq_nil (· ≠ ·)).mp hdedup
    have hlen : (uids.mergeSort (fun a b => decide (a ≤ b))).length = uids.length :=
      List.length_mergeSort uids
    rw [hnil] at hlen
    exact absurd (List.length_eq_zero_iff.mp hlen.symm) hne
  | cons uid rest =>
    rw [hdedup] at hchain
    show (uidParts [] uid uid rest).map _ = _
    rw [uidParts_eq hchain]
    rfl

/-! ## Reading it -/

theorem head_decimal {n : Nat} (hn : n ≠ 0) : ∃ c rest, decimal n = c :: rest ∧ c ≠ '0' := by
  induction n using Nat.strongRecOn with
  | ind n ih =>
    rcases Nat.lt_or_ge n 10 with hlt | hge
    · refine ⟨n.digitChar, [], Nat.toDigits_of_lt_base hlt, ?_⟩
      have hdigit : ∀ m, m < 10 → m ≠ 0 → m.digitChar ≠ '0' := by decide
      exact hdigit n hlt hn
    · obtain ⟨c, rest, hdiv, hc⟩ := ih (n / 10) (by omega) (by omega)
      refine ⟨c, rest ++ [(n % 10).digitChar], ?_, hc⟩
      unfold decimal at hdiv ⊢
      rw [Nat.toDigits_of_base_le (by decide) hge, hdiv]
      rfl

theorem readNzNumber_decimal {n : Nat} (hn : n ≠ 0) (hlt : n < UInt32.size) :
    readNzNumber (decimal n) = some n := by
  obtain ⟨c, rest, hdec, hc⟩ := head_decimal hn
  have hall : (decimal n).all Char.isDigit = true :=
    List.all_eq_true.mpr fun c hc => isDigit_of_mem_decimal hc
  have hvalue : Nat.ofDigitChars 10 (decimal n) 0 = n := Nat.ofDigitChars_ten_toDigits
  rw [hdec] at hall hvalue ⊢
  rw [readNzNumber, if_pos ⟨hc, hall⟩, hvalue, if_pos hlt]

theorem readSeqNumber_decimal {n : Nat} (hn : n ≠ 0) (hlt : n < UInt32.size) :
    readSeqNumber (decimal n) = some (.number n) := by
  have hstar : decimal n ≠ ['*'] := by
    intro h
    have hmem : '*' ∈ decimal n := by rw [h]; exact List.mem_singleton_self '*'
    exact not_mem_decimal (by decide) hmem
  rw [readSeqNumber, if_neg hstar, readNzNumber_decimal hn hlt]
  rfl

theorem readSeqRange_rangeText {r : Nat × Nat} (h₁ : r.1 ≠ 0 ∧ r.1 < UInt32.size)
    (h₂ : r.2 ≠ 0 ∧ r.2 < UInt32.size) :
    readSeqRange (rangeText r) = some (.number r.1, .number r.2) := by
  have hcolon : ∀ n, ':' ∉ decimal n := fun n => not_mem_decimal (by decide)
  by_cases heq : r.1 = r.2
  · rw [rangeText, if_pos heq, readSeqRange, List.splitOn_eq_singleton (hcolon r.1)]
    simp only [readSeqNumber_decimal h₁.1 h₁.2, Option.map_some, ← heq]
  · rw [rangeText, if_neg heq, readSeqRange, List.splitOn_append_cons_self_of_not_mem (hcolon r.1),
      List.splitOn_eq_singleton (hcolon r.2)]
    simp only [readSeqNumber_decimal h₁.1 h₁.2, readSeqNumber_decimal h₂.1 h₂.2]

theorem comma_not_mem_rangeText (r : Nat × Nat) : ',' ∉ rangeText r := by
  have hcomma : ∀ n, ',' ∉ decimal n := fun n => not_mem_decimal (by decide)
  unfold rangeText
  split
  · exact hcomma r.1
  · simp [hcomma r.1, hcomma r.2]

/-- The ranges of a list run between its members. -/
theorem uidRanges_ends {start stop : Nat} {rest : List Nat} {r : Nat × Nat}
    (h : r ∈ uidRanges start stop rest) :
    (r.1 = start ∨ r.1 ∈ rest) ∧ (r.2 = stop ∨ r.2 ∈ rest) ∧ (start ≤ stop → r.1 ≤ r.2) := by
  induction rest generalizing start stop with
  | nil =>
    cases List.mem_singleton.mp h
    exact ⟨.inl rfl, .inl rfl, id⟩
  | cons uid rest ih =>
    rw [uidRanges] at h
    split at h
    case isTrue hnext =>
      obtain ⟨h₁, h₂, h₃⟩ := ih h
      refine ⟨h₁.imp_right (List.mem_cons_of_mem uid), .inr ?_, fun hle => h₃ (by omega)⟩
      rcases h₂ with h₂ | h₂
      · exact h₂ ▸ List.mem_cons_self
      · exact List.mem_cons_of_mem uid h₂
    case isFalse =>
      rcases List.mem_cons.mp h with rfl | h
      · exact ⟨.inl rfl, .inl rfl, id⟩
      · obtain ⟨h₁, h₂, h₃⟩ := ih h
        refine ⟨.inr ?_, .inr ?_, fun _ => h₃ (Nat.le_refl uid)⟩
        · rcases h₁ with h₁ | h₁
          · exact h₁ ▸ List.mem_cons_self
          · exact List.mem_cons_of_mem uid h₁
        · rcases h₂ with h₂ | h₂
          · exact h₂ ▸ List.mem_cons_self
          · exact List.mem_cons_of_mem uid h₂

theorem formatUidSet_ends {uids : List Nat} {r : Nat × Nat} (h : r ∈ formatUidSet uids) :
    r.1 ∈ uids ∧ r.2 ∈ uids ∧ r.1 ≤ r.2 := by
  have hsub : ∀ u ∈ (uids.mergeSort (fun a b => decide (a ≤ b))).destutter (· ≠ ·), u ∈ uids :=
    fun u hu => List.mem_mergeSort.mp ((List.destutter_sublist _ _).subset hu)
  unfold formatUidSet at h
  cases hdedup : (uids.mergeSort (fun a b => decide (a ≤ b))).destutter (· ≠ ·) with
  | nil =>
    rw [hdedup] at h
    cases h
  | cons uid rest =>
    rw [hdedup] at h hsub
    obtain ⟨h₁, h₂, h₃⟩ := uidRanges_ends h
    exact ⟨hsub _ (List.mem_cons.mpr h₁), hsub _ (List.mem_cons.mpr h₂), h₃ (Nat.le_refl uid)⟩

theorem readSequenceSet_ranges {ranges : List (Nat × Nat)} (hne : ranges ≠ [])
    (h : ∀ r ∈ ranges, (r.1 ≠ 0 ∧ r.1 < UInt32.size) ∧ (r.2 ≠ 0 ∧ r.2 < UInt32.size)) :
    readSequenceSet ([','].intercalate (ranges.map rangeText)) =
      some (ranges.map fun r => (.number r.1, .number r.2)) := by
  have hcomma : ∀ t ∈ ranges.map rangeText, ',' ∉ t := by
    intro t ht
    obtain ⟨r, -, rfl⟩ := List.mem_map.mp ht
    exact comma_not_mem_rangeText r
  rw [readSequenceSet, List.splitOn_intercalate _ hcomma (by simpa using hne)]
  clear hne hcomma
  induction ranges with
  | nil => rfl
  | cons r ranges ih =>
    obtain ⟨h₁, h₂⟩ := h r List.mem_cons_self
    rw [List.map_cons, List.mapM_cons, readSeqRange_rangeText h₁ h₂,
      ih fun q hq => h q (List.mem_cons_of_mem r hq)]
    rfl

theorem denotes_ranges {ranges : List (Nat × Nat)} (h : ∀ r ∈ ranges, r.1 ≤ r.2)
    (greatest n : Nat) :
    Denotes greatest (ranges.map fun r => (.number r.1, .number r.2)) n ↔ InRanges ranges n := by
  constructor
  · rintro ⟨q, hmem, hn⟩
    obtain ⟨r, hr, rfl⟩ := List.mem_map.mp hmem
    have hle := h r hr
    simp only [SeqNumber.value, Nat.min_eq_left hle, Nat.max_eq_right hle] at hn
    exact ⟨r, hr, hn⟩
  · rintro ⟨r, hr, hlow, hhigh⟩
    have hle := h r hr
    refine ⟨_, List.mem_map_of_mem hr, ?_⟩
    simp only [SeqNumber.value, Nat.min_eq_left hle, Nat.max_eq_right hle]
    exact ⟨hlow, hhigh⟩

/-- A non-empty list of UIDs becomes a text without any overflow, and a server reads it as the set
of the UIDs, whatever else is in the mailbox. -/
theorem formatUidSetText_denotes (uids : List UInt32) (hne : uids ≠ []) :
    ∃ text, formatUidSetText uids = some text ∧
      ((∀ u ∈ uids, u ≠ 0) → ∃ set, readSequenceSet text = some set ∧
        ∀ greatest n, Denotes greatest set n ↔ ∃ u ∈ uids, u.toNat = n) := by
  refine ⟨_, formatUidSetText_eq hne, ?_⟩
  intro hnz
  have hends : ∀ r ∈ formatUidSet (uids.map UInt32.toNat),
      (r.1 ≠ 0 ∧ r.1 < UInt32.size) ∧ (r.2 ≠ 0 ∧ r.2 < UInt32.size) := by
    have hmem : ∀ n ∈ uids.map UInt32.toNat, n ≠ 0 ∧ n < UInt32.size := by
      intro n hn
      obtain ⟨u, hu, rfl⟩ := List.mem_map.mp hn
      exact ⟨fun h => hnz u hu (UInt32.toNat_inj.mp h), u.toNat_lt_size⟩
    intro r hr
    obtain ⟨h₁, h₂, -⟩ := formatUidSet_ends hr
    exact ⟨hmem _ h₁, hmem _ h₂⟩
  have hranges : formatUidSet (uids.map UInt32.toNat) ≠ [] := by
    obtain ⟨u, hu⟩ := List.exists_mem_of_ne_nil uids hne
    obtain ⟨r, hr, -⟩ := (mem_formatUidSet _ u.toNat).mpr (List.mem_map_of_mem hu)
    exact List.ne_nil_of_mem hr
  refine ⟨_, readSequenceSet_ranges hranges hends, ?_⟩
  intro greatest n
  rw [denotes_ranges (fun r hr => (formatUidSet_ends hr).2.2), mem_formatUidSet, List.mem_map]

/-- The first and the last UIDs of all, one of them twice. -/
theorem formatUidSetText_denotes_ends :
    ∃ text, formatUidSetText [4294967295, 2, 1, 4294967295] = some text ∧
      ∃ set, readSequenceSet text = some set ∧
        ∀ greatest n, Denotes greatest set n ↔
          ∃ u ∈ ([4294967295, 2, 1, 4294967295] : List UInt32), u.toNat = n := by
  obtain ⟨text, htext, hset⟩ := formatUidSetText_denotes [4294967295, 2, 1, 4294967295]
    (List.cons_ne_nil _ _)
  exact ⟨text, htext, hset (Lib.forall_mem_of_all (by decide))⟩

end Lyra
