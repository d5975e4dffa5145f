import Lyra.Imap.FolderPass

/-!
# Cursors as text

A cursor is stored as `{uid_validity}:{last_uid}`, with `:{modseq}` where one is known.  A number
that cannot be read counts as 0, and so does the UIDVALIDITY of a mailbox that SELECT gives none
for.

* `parseCursorValue_format`: a stored cursor is read as it was written;
* `codecsRight_iff`: a text makes a pass skip what it does not vouch for exactly if its UIDVALIDITY
  cannot be read and its last UID can.
-/

namespace Lyra

/-! ## The codec -/

def formatCursorValue (uidValidity lastUid : UInt32) (lastModseq : UInt64) : Text :=
  if 0 < lastModseq then
    decimal uidValidity.toNat ++ ':' :: (decimal lastUid.toNat ++ ':' :: decimal lastModseq.toNat)
  else decimal uidValidity.toNat ++ ':' :: decimal lastUid.toNat

/-- `str::parse::<u32>`. -/
def parseU32 (s : Text) : Option Nat := parseUnsigned UInt32.size s

/-- `str::parse::<u64>`. -/
def parseU64 (s : Text) : Option Nat := parseUnsigned UInt64.size s

def parseCursorValue (value : Text) : SyncCursorInfo :=
  match value.splitOn ':' with
  | [uv, lu, ms] =>
    { uidValidity := (parseU32 uv).getD 0
      lastUid := (parseU32 lu).getD 0
      lastModseq := (parseU64 ms).getD 0 }
  | [uv, lu] =>
    { uidValidity := (parseU32 uv).getD 0
      lastUid := (parseU32 lu).getD 0
      lastModseq := 0 }
  | _ => { uidValidity := 0, lastUid := 0, lastModseq := 0 }

theorem parseU32_decimal (n : UInt32) : parseU32 (decimal n.toNat) = some n.toNat :=
  parseUnsigned_decimal n.toNat_lt_size

theorem parseU64_decimal (n : UInt64) : parseU64 (decimal n.toNat) = some n.toNat :=
  parseUnsigned_decimal n.toNat_lt_size

theorem parseCursorValue_format (uidValidity lastUid : UInt32) (lastModseq : UInt64) :
    parseCursorValue (formatCursorValue uidValidity lastUid lastModseq) =
      { uidValidity := uidValidity.toNat
        lastUid := lastUid.toNat
        lastModseq := lastModseq.toNat } := by
  have hcolon : ∀ n, ':' ∉ decimal n := fun n => not_mem_decimal (by decide)
  by_cases hmodseq : 0 < lastModseq
  · rw [formatCursorValue, if_pos hmodseq, parseCursorValue,
      List.splitOn_append_cons_self_of_not_mem (hcolon _),
      List.splitOn_append_cons_self_of_not_mem (hcolon _), List.splitOn_eq_singleton (hcolon _)]
    simp only [parseU32_decimal, parseU64_decimal, Option.getD_some]
  · have hzero : lastModseq.toNat = 0 := Nat.eq_zero_of_not_pos hmodseq
    rw [formatCursorValue, if_neg hmodseq, parseCursorValue,
      List.splitOn_append_cons_self_of_not_mem (hcolon _), List.splitOn_eq_singleton (hcolon _)]
    simp only [parseU32_decimal, Option.getD_some, hzero]

/-! ## What a text vouches for -/

/-- The text has a UIDVALIDITY and a last UID, and maybe a mod-sequence. -/
def HasMarks (value uv lu : Text) : Prop :=
  value.splitOn ':' = [uv, lu] ∨ ∃ ms, value.splitOn ':' = [uv, lu, ms]

/-- By the text itself, the UIDs up to `uid` have been fetched under the UIDVALIDITY. -/
def Vouches (value : Text) (uidValidity : Nat) (uid : Uid) : Prop :=
  ∃ uv lu, HasMarks value uv lu ∧ parseU32 uv = some uidValidity ∧
    ∃ last, parseU32 lu = some last ∧ uid ≤ last

/-- Whatever SELECT answers, a pass asks for every UID that the text does not vouch for. -/
def OnlyRefetches (value : Text) : Prop :=
  ∀ (sel : ImapSelectResult) (condstore : Bool) (last : Uid),
    (passPlan (some (parseCursorValue value)) sel condstore).afterUid = some last →
      ∀ uid, 0 < uid → uid ≤ last → Vouches value sel.uidValidity uid

/-- The last UID can be read and the UIDVALIDITY cannot. -/
def KeepsUnreadable (value : Text) : Prop :=
  ∃ uv lu, HasMarks value uv lu ∧ parseU32 uv = none ∧ ∃ last, parseU32 lu = some last ∧ 0 < last

section Marks

variable {value uv lu : Text}

theorem HasMarks.uidValidity (h : HasMarks value uv lu) :
    (parseCursorValue value).uidValidity = (parseU32 uv).getD 0 := by
  unfold parseCursorValue
  rcases h with h | ⟨ms, h⟩ <;> rw [h]

theorem HasMarks.lastUid (h : HasMarks value uv lu) :
    (parseCursorValue value).lastUid = (parseU32 lu).getD 0 := by
  unfold parseCursorValue
  rcases h with h | ⟨ms, h⟩ <;> rw [h]

theorem hasMarks_of_lastUid (h : 0 < (parseCursorValue value).lastUid) :
    ∃ uv lu, HasMarks value uv lu := by
  unfold parseCursorValue at h
  split at h
  · rename_i uv lu ms heq
    exact ⟨uv, lu, .inr ⟨ms, heq⟩⟩
  · rename_i uv lu heq
    exact ⟨uv, lu, .inl heq⟩
  · exact absurd h (Nat.lt_irrefl 0)

theorem afterUid_passPlan {cursor : SyncCursorInfo} {sel : ImapSelectResult} {condstore : Bool}
    {last : Uid} : (passPlan (some cursor) sel condstore).afterUid = some last ↔
      cursor.uidValidity = sel.uidValidity ∧ cursor.lastUid = last := by
  simp only [passPlan, Option.any_some, Option.map_some]
  by_cases hsame : cursor.uidValidity = sel.uidValidity
  · simp [hsame]
  · simp [hsame]

theorem onlyRefetches_iff : OnlyRefetches value ↔ ¬KeepsUnreadable value := by
  constructor
  · rintro honly ⟨uv, lu, hmarks, huv, last, hlu, hlast⟩
    have hplan :
        (passPlan (some (parseCursorValue value)) ⟨0, none⟩ false).afterUid = some last := by
      rw [afterUid_passPlan, hmarks.uidValidity, hmarks.lastUid, huv, hlu]
      exact ⟨rfl, rfl⟩
    obtain ⟨uv', lu', hmarks', huv', -⟩ := honly ⟨0, none⟩ false last hplan 1 Nat.one_pos hlast
    -- the pieces of a text are its own
    have hpiece : uv' = uv := by
      rcases hmarks with h | ⟨ms, h⟩ <;> rcases hmarks' with h' | ⟨ms', h'⟩ <;>
        exact (List.cons.inj (h'.symm.trans h)).1
    rw [hpiece, huv] at huv'
    cases huv'
  · intro hkeeps sel condstore last hplan uid hpos hle
    obtain ⟨hvalid, hlast⟩ := afterUid_passPlan.mp hplan
    have hsome : 0 < last := Nat.lt_of_lt_of_le hpos hle
    rw [← hlast] at hsome hle
    obtain ⟨uv, lu, hmarks⟩ := hasMarks_of_lastUid hsome
    rw [hmarks.uidValidity] at hvalid
    rw [hmarks.lastUid] at hsome hle
    cases hlu : parseU32 lu with
    | none =>
      rw [hlu] at hsome
      exact absurd hsome (Nat.lt_irrefl 0)
    | some n =>
      rw [hlu, Option.getD_some] at hsome hle
      cases huv : parseU32 uv with
      | none => exact absurd ⟨uv, lu, hmarks, huv, n, hlu, hsome⟩ hkeeps
      | some v =>
        rw [huv, Option.getD_some] at hvalid
        exact ⟨uv, lu, hmarks, by rw [huv, hvalid], n, hlu, hle⟩

end Marks

/-! ## Both codecs -/

/-- Cursors and ids are read as they are written, ids tell folders and UIDs apart, and the text only
causes re-fetching. -/
structure CodecsRight (value : Text) : Prop where
  roundTrip : ∀ (uidValidity lastUid : UInt32) (lastModseq : UInt64),
    parseCursorValue (formatCursorValue uidValidity lastUid lastModseq) =
      { uidValidity := uidValidity.toNat
        lastUid := lastUid.toNat
        lastModseq := lastModseq.toNat }
  onlyRefetches : OnlyRefetches value
  apart : ∀ (f g : FolderId) (u v : UInt32),
    imapMessageExternalId f u.toNat = imapMessageExternalId g v.toNat → f = g ∧ u = v
  uid : ∀ (f : FolderId) (u : UInt32),
    parseImapUid (some (imapMessageExternalId f u.toNat)) = .ok u.toNat

theorem codecsRight_iff (value : Text) : CodecsRight value ↔ ¬KeepsUnreadable value := by
  constructor
  · exact fun h => onlyRefetches_iff.mp h.onlyRefetches
  · intro h
    refine ⟨parseCursorValue_format, onlyRefetches_iff.mpr h, ?_, ?_⟩
    · intro f g u v hid
      obtain ⟨hfolder, huid⟩ := imapMessageExternalId_inj hid
      exact ⟨hfolder, UInt32.toNat_inj.mp huid⟩
    · intro f u
      exact parseImapUid_external f u.toNat_lt_size

/-- A UIDVALIDITY that is no number. -/
theorem not_codecsRight_abc : ¬CodecsRight "abc:100".toList := by
  intro h
  refine onlyRefetches_iff.mp h.onlyRefetches ⟨"abc".toList, "100".toList, .inl ?_, ?_, 100, ?_, ?_⟩
  · decide
  · decide
  · decide
  · decide

end Lyra
