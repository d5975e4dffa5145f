import Lyra.Store.Schema

/-!
# Message identifiers

An IMAP row is identified by `{folder_id}:{uid}` (`imapMessageExternalId`).
`parseImapUid` reads the UID back from the text after the last colon, so it
also accepts the bare numbers written before ids were scoped by folder.

* `parseImapUid_external`: the UID written is the UID read;
* `imapMessageExternalId_inj`: an id determines its folder and its UID.
-/

namespace Lyra

/-! ## Decimal numbers -/

/-- `str::parse` for an unsigned type with `bound` values: an optional plus
sign, then digits. -/
def parseUnsigned (bound : Nat) (s : Text) : Option Nat :=
  let digits := match s with
    | '+' :: r => r
    | _ => s
  if digits ≠ [] ∧ digits.all Char.isDigit then
    let n := Nat.ofDigitChars 10 digits 0
    if n < bound then some n else none
  else none

/-- Numbers as `format!` writes them. -/
def decimal (n : Nat) : Text := Nat.toDigits 10 n

/-- An `i64` as `format!` writes it. -/
def signedDecimal : Int → Text
  | .ofNat n => decimal n
  | .negSucc n => '-' :: decimal (n + 1)

theorem decimal_ne_nil (n : Nat) : decimal n ≠ [] := Nat.toDigits_ne_nil

theorem isDigit_of_mem_decimal {n : Nat} {c : Char} (h : c ∈ decimal n) : c.isDigit = true :=
  Nat.isDigit_of_mem_toDigits (by decide) (by decide) h

theorem decimal_inj {m n : Nat} (h : decimal m = decimal n) : m = n := by
  have hm := Nat.ofDigitChars_ten_toDigits (n := m)
  have hn := Nat.ofDigitChars_ten_toDigits (n := n)
  unfold decimal at h
  rw [← hm, h, hn]

theorem not_mem_decimal {n : Nat} {c : Char} (hc : c.isDigit = false) : c ∉ decimal n := by
  intro h
  rw [isDigit_of_mem_decimal h] at hc
  cases hc

theorem decimal_digits (n : Nat) :
    (match decimal n with
      | '+' :: r => r
      | _ => decimal n) = decimal n := by
  split
  · rename_i r e
    refine absurd (List.mem_cons_self (a := '+') (l := r)) ?_
    rw [← e]; exact not_mem_decimal (by decide)
  · rfl

theorem parseUnsigned_decimal_eq {bound n v : Nat} (h : parseUnsigned bound (decimal n) = some v) :
    v = n := by
  unfold parseUnsigned at h
  rw [decimal_digits] at h
  dsimp only at h
  split at h
  · split at h
    · rw [show Nat.ofDigitChars 10 (decimal n) 0 = n from Nat.ofDigitChars_ten_toDigits] at h
      exact (Option.some.inj h).symm
    · cases h
  · cases h

theorem parseUnsigned_decimal {bound n : Nat} (h : n < bound) :
    parseUnsigned bound (decimal n) = some n := by
  have hall : (decimal n).all Char.isDigit = true :=
    List.all_eq_true.mpr fun c hc => isDigit_of_mem_decimal hc
  unfold parseUnsigned
  rw [decimal_digits]
  simp only [decimal_ne_nil n, hall, ne_eq, not_false_eq_true, and_self, ↓reduceIte]
  rw [show Nat.ofDigitChars 10 (decimal n) 0 = n from Nat.ofDigitChars_ten_toDigits, if_pos h]

/-! ## Folder-scoped message ids -/

/-- `{folder_id}:{uid}`. -/
def imapMessageExternalId (folder : FolderId) (uid : Uid) : Text := folder ++ ':' :: decimal uid

/-- The piece after the last colon: `raw.rsplit(':').next()`. -/
def lastPiece (raw : Text) : Text := (raw.reverse.takeWhile (· ≠ ':')).reverse

/-- Recover the IMAP UID from a stored external id. -/
def parseImapUid (externalId : Option Text) : Except SyncError Uid :=
  match externalId with
  | none => .error (.invalidInput "message has no IMAP UID")
  | some raw =>
    match parseUnsigned (2 ^ 32) (lastPiece raw) with
    | some uid => .ok uid
    | none => .error (.invalidInput "message has no IMAP UID")

theorem lastPiece_append {s : Text} (pre : Text) (h : ':' ∉ s) : lastPiece (pre ++ ':' :: s) = s := by
  unfold lastPiece
  have hrev : ∀ c ∈ s.reverse, decide (c ≠ ':') = true := by
    intro c hc
    rw [decide_eq_true_eq]
    rintro rfl
    exact h (List.mem_reverse.mp hc)
  have happend : (pre ++ ':' :: s).reverse = s.reverse ++ ':' :: pre.reverse := by
    simp
  rw [happend, List.takeWhile_append_of_pos hrev]
  simp

theorem lastPiece_decimal (pre : Text) (n : Nat) : lastPiece (pre ++ ':' :: decimal n) = decimal n :=
  lastPiece_append pre (not_mem_decimal (by decide))

theorem append_colon_inj {f g d e : Text} (hd : ':' ∉ d) (he : ':' ∉ e)
    (h : f ++ ':' :: d = g ++ ':' :: e) : f = g ∧ d = e := by
  have hlast := congrArg lastPiece h
  rw [lastPiece_append f hd, lastPiece_append g he] at hlast
  subst hlast
  exact ⟨List.append_cancel_right h, rfl⟩

theorem parseImapUid_external (folder : FolderId) {uid : Uid} (h : uid < 2 ^ 32) :
    parseImapUid (some (imapMessageExternalId folder uid)) = .ok uid := by
  simp only [parseImapUid, imapMessageExternalId, lastPiece_decimal, parseUnsigned_decimal h]

theorem imapMessageExternalId_inj {f g : FolderId} {u v : Uid}
    (h : imapMessageExternalId f u = imapMessageExternalId g v) : f = g ∧ u = v := by
  unfold imapMessageExternalId at h
  obtain ⟨hfolder, huid⟩ :=
    append_colon_inj (not_mem_decimal (by decide)) (not_mem_decimal (by decide)) h
  exact ⟨hfolder, decimal_inj huid⟩

@[simp] theorem imapMessageExternalId_eq_iff {f g : FolderId} {u v : Uid} :
    imapMessageExternalId f u = imapMessageExternalId g v ↔ f = g ∧ u = v :=
  ⟨imapMessageExternalId_inj, fun ⟨hf, hu⟩ => hf ▸ hu ▸ rfl⟩

end Lyra
