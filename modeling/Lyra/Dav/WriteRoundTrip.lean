import Lyra.Dav.Write
import Lyra.Lib.Fallible

/-!
# Reading back what was written

A new contact or event is read back by the sync parsers as it was given, if its fields are
`Unescaped`: the writer escapes, and the readers do not undo it.

* `contact_kept_iff`, `event_kept_iff`: exactly when the fields come back;
* `round_trip_iff`: both;
* `comma_kept`: a comma that comes back with a backslash.
-/

namespace Lyra.Pim

open Lyra.Lib

/-! ## Numbers and dates -/

section Dates

variable {c : Char} {s v : Text} {n : Nat} {t t' : UtcTime} {d : Date}

theorem digitValue_digit (n : Nat) : digitValue (digit n) = some (n % 10) := by
  have hall : ∀ k < 10, digitValue (Nat.digitChar k) = some k := by decide
  exact hall _ (Nat.mod_lt n (by decide))

theorem isWhite_of_digitValue (hc : digitValue c = some n) : isWhite c = false := by
  unfold digitValue at hc
  split at hc
  · rename_i hdigit
    have hrange : 48 ≤ c.toNat ∧ c.toNat ≤ 57 := by
      simpa [Char.isDigit, UInt32.le_iff_toNat_le] using hdigit
    unfold isWhite
    simp only [Bool.or_eq_false_iff, Bool.and_eq_false_iff, decide_eq_false_iff_not, beq_eq_false_iff_ne]
    omega
  · cases hc

theorem ne_of_digitValue (hc : digitValue c = some n) {x : Char} (hx : digitValue x = none) :
    c ≠ x := by
  rintro rfl
  rw [hc] at hx
  cases hx

theorem readNat_twoDigits (hn : n < 100) : readNat (twoDigits n) = some n := by
  simp only [readNat, twoDigits, List.foldlM_cons, List.foldlM_nil, digitValue_digit]
  simp
  omega

theorem readNat_fourDigits (hn : n ≤ 9999) : readNat (fourDigits n) = some n := by
  simp only [readNat, fourDigits, twoDigits, List.cons_append, List.nil_append, List.foldlM_cons,
    List.foldlM_nil, digitValue_digit]
  simp
  omega

theorem digits_of_foldlM {m : Nat} (h : s.foldlM (fun n c => (digitValue c).map (10 * n + ·)) m =
    some n) : ∀ c ∈ s, ∃ k, digitValue c = some k := by
  induction s generalizing m with
  | nil => exact fun c hc => (List.not_mem_nil hc).elim
  | cons x s ih =>
    rw [List.foldlM_cons] at h
    cases hx : digitValue x with
    | none =>
      rw [hx] at h
      cases h
    | some k =>
      rw [hx] at h
      intro c hc
      rcases List.mem_cons.mp hc with rfl | hc
      · exact ⟨k, hx⟩
      · exact ih h c hc

theorem digits_of_readNat (h : readNat s = some n) : ∀ c ∈ s, ∃ k, digitValue c = some k :=
  digits_of_foldlM h

theorem numbers_of_readDate {a b c d e f g h : Char} {x : Date}
    (hx : readDate [a, b, c, d, e, f, g, h] = some x) :
    ∃ y m n, readNat [a, b, c, d] = some y ∧ readNat [e, f] = some m ∧
      readNat [g, h] = some n ∧ x = ⟨y, m, n⟩ := by
  unfold readDate at hx
  cases hy : readNat [a, b, c, d] with
  | none => simp [hy] at hx
  | some y =>
    cases hm : readNat [e, f] with
    | none => simp [hy, hm] at hx
    | some m =>
      cases hn : readNat [g, h] with
      | none => simp [hy, hm, hn] at hx
      | some n =>
        simp [hy, hm, hn] at hx
        exact ⟨y, m, n, rfl, rfl, rfl, hx.symm⟩

theorem readDate_eq_some {a b c d e f g h : Char} {x : Date} :
    readDate [a, b, c, d, e, f, g, h] = some x ↔
      dashedDate [a, b, c, d, '-', e, f, '-', g, h] = some x := Iff.rfl

theorem digits_of_readDate (h : readDate s = some d) :
    s.length = 8 ∧ ∀ c ∈ s, ∃ k, digitValue c = some k := by
  unfold readDate at h
  split at h
  · rename_i a b c e f g x y
    obtain ⟨_, _, _, hy, hm, hn, -⟩ := numbers_of_readDate h
    refine ⟨rfl, fun z hz => ?_⟩
    have hz' : z ∈ [a, b, c, e] ∨ z ∈ [f, g] ∨ z ∈ [x, y] := by
      simp only [List.mem_cons, List.not_mem_nil, or_false] at hz ⊢
      tauto
    rcases hz' with hz | hz | hz
    · exact digits_of_readNat hy z hz
    · exact digits_of_readNat hm z hz
    · exact digits_of_readNat hn z hz
  · cases h

theorem trimText_digits (h : ∀ c ∈ s, ∃ k, digitValue c = some k) : trimText s = s := by
  apply trimText_eq_self
  · intro c hc
    obtain ⟨k, hk⟩ := h c (List.mem_of_mem_head? hc)
    exact isWhite_of_digitValue hk
  · intro c hc
    obtain ⟨k, hk⟩ := h c (List.mem_of_mem_getLast? hc)
    exact isWhite_of_digitValue hk

/-! A time of four-digit years comes back up to its fraction. -/

theorem readDate_digits {m k : Nat} (hn : n ≤ 9999) (hm : m < 100) (hk : k < 100) :
    readDate (fourDigits n ++ twoDigits m ++ twoDigits k) = some ⟨n, m, k⟩ := by
  show (do
    let y ← readNat (fourDigits n)
    let m ← readNat (twoDigits m)
    let d ← readNat (twoDigits k)
    return Date.mk y m d) = _
  rw [readNat_fourDigits hn, readNat_twoDigits hm, readNat_twoDigits hk]
  rfl

theorem readUtc_formatUtc (ht : t.Valid) (hyear : t.date.year = Int.ofNat n) (hn : n ≤ 9999) :
    readUtc (formatUtc t) = some { t with nanos := 0 } := by
  have hformat : formatUtc t = fourDigits n ++ twoDigits t.date.month ++ twoDigits t.date.day ++
      ['T'] ++ twoDigits t.hour ++ twoDigits t.minute ++ twoDigits t.second ++ ['Z'] := by
    unfold formatUtc
    rw [hyear, formatYear, if_pos hn]
  have hread : readUtc (formatUtc t) = (do
      let d ← readDate (fourDigits n ++ twoDigits t.date.month ++ twoDigits t.date.day)
      let h ← readNat (twoDigits t.hour)
      let m ← readNat (twoDigits t.minute)
      let s ← readNat (twoDigits t.second)
      return UtcTime.mk d h m s 0) := by
    rw [hformat]
    rfl
  have hmonth := ht.month
  have hday := ht.day
  have hhour := ht.hour
  have hminute := ht.minute
  have hsecond := ht.second
  rw [hread, readDate_digits hn (by omega) (by omega), readNat_twoDigits (by omega),
    readNat_twoDigits (by omega), readNat_twoDigits (by omega)]
  show some (UtcTime.mk ⟨Int.ofNat n, _, _⟩ _ _ _ 0) = _
  rw [← hyear]

theorem date_of_readUtc (h : readUtc s = some t) :
    (∃ d, readDate (s.take 8) = some d) ∧ t.nanos = 0 := by
  unfold readUtc at h
  split at h
  · cases hdate : readDate (s.take 8) with
    | none =>
      rw [hdate] at h
      cases h
    | some d =>
      refine ⟨⟨d, rfl⟩, ?_⟩
      simp only [Option.bind_eq_bind, Option.bind_eq_some_iff, Option.pure_def,
        Option.some.injEq] at h
      obtain ⟨_, -, _, -, _, -, _, -, rfl⟩ := h
      rfl
  · cases h

theorem readUtc_iff (ht : t.Valid) :
    readUtc (formatUtc t) = some t ↔ t.nanos = 0 ∧ 0 ≤ t.date.year ∧ t.date.year ≤ 9999 := by
  constructor
  · intro h
    obtain ⟨⟨d, hd⟩, hnanos⟩ := date_of_readUtc h
    have hdigits := (digits_of_readDate hd).2
    have hsign : ∀ x rest, formatYear t.date.year = x :: rest → digitValue x ≠ none := by
      intro x rest hx hnone
      have hmem : x ∈ (formatUtc t).take 8 := by
        unfold formatUtc
        rw [hx]
        exact List.mem_cons_self
      obtain ⟨k, hk⟩ := hdigits x hmem
      rw [hk] at hnone
      cases hnone
    refine ⟨hnanos, ?_⟩
    cases hyear : t.date.year with
    | ofNat n =>
      rw [hyear, formatYear] at hsign
      rcases Nat.lt_or_ge 9999 n with hn | hn
      · rw [if_neg (by omega)] at hsign
        exact absurd rfl (hsign _ _ rfl)
      · exact ⟨Int.natCast_nonneg n, Int.ofNat_le.mpr hn⟩
    | negSucc n =>
      rw [hyear, formatYear] at hsign
      exact absurd rfl (hsign _ _ rfl)
  · rintro ⟨hnanos, hnonneg, hle⟩
    obtain ⟨n, hn⟩ := Int.eq_ofNat_of_zero_le hnonneg
    have hbound : n ≤ 9999 := by omega
    rw [readUtc_formatUtc ht hn hbound, ← hnanos]

theorem isWhite_digit (n : Nat) : isWhite (digit n) = false :=
  isWhite_of_digitValue (digitValue_digit n)

theorem isWhite_twoDigits (n : Nat) : ∀ c ∈ twoDigits n, isWhite c = false := by
  unfold twoDigits
  simp [isWhite_digit]

theorem isWhite_decimal (n : Nat) : ∀ c ∈ decimal n, isWhite c = false := by
  intro c hc
  have hvalue : digitValue c = some (c.toNat - 48) := if_pos (isDigit_of_mem_decimal hc)
  exact isWhite_of_digitValue hvalue

theorem isWhite_formatYear (y : Int) : ∀ c ∈ formatYear y, isWhite c = false := by
  have hfour : ∀ n, ∀ c ∈ fourDigits n, isWhite c = false := fun n =>
    List.forall_mem_append.mpr ⟨isWhite_twoDigits _, isWhite_twoDigits _⟩
  unfold formatYear
  split
  · split
    · exact hfour _
    · exact List.forall_mem_cons.mpr ⟨by decide, isWhite_decimal _⟩
  · refine List.forall_mem_cons.mpr ⟨by decide, ?_⟩
    split
    · exact hfour _
    · exact isWhite_decimal _

theorem isWhite_formatUtc (t : UtcTime) : ∀ c ∈ formatUtc t, isWhite c = false := by
  unfold formatUtc
  simp only [List.forall_mem_append, List.mem_singleton, forall_eq]
  have htwo := isWhite_twoDigits
  exact ⟨⟨⟨⟨⟨⟨⟨isWhite_formatYear _, htwo _⟩, htwo _⟩, by decide⟩, htwo _⟩, htwo _⟩, htwo _⟩, by decide⟩

theorem length_formatUtc (t : UtcTime) : 8 < (formatUtc t).length := by
  unfold formatUtc twoDigits
  simp only [List.length_append, List.length_cons, List.length_nil]
  omega

/-! A date comes back where it is written with digits. -/

theorem icalDate_eq_ok {lib : TextLib} :
    icalDate lib s = .ok v ↔ (utf8 s).length = 10 ∧ (utf8 s)[4]? = some dash ∧
      (utf8 s)[7]? = some dash ∧ ∃ d, lib.parseYmd s = some d ∧ v = s.filter (· ≠ '-') := by
  unfold icalDate
  constructor
  · intro h
    split at h
    · cases h
    · rename_i hshape
      rw [not_or, not_or, not_not, not_not, not_not] at hshape
      split at h
      · cases h
      · rename_i d hd
        exact ⟨hshape.1, hshape.2.1, hshape.2.2, d, hd, (Except.ok.inj h).symm⟩
  · rintro ⟨hlength, h4, h7, d, hd, rfl⟩
    rw [if_neg (by rw [not_or, not_or, not_not, not_not, not_not]; exact ⟨hlength, h4, h7⟩), hd]

theorem two_le_count {l : List UInt8} {b : UInt8} {i j : Nat} (hij : i < j) (hi : l[i]? = some b)
    (hj : l[j]? = some b) : 2 ≤ l.count b := by
  have hfirst : b ∈ l.take j := by
    apply List.mem_of_getElem? (i := i)
    rw [List.getElem?_take, if_pos hij]
    exact hi
  have hsecond : b ∈ l.drop j := by
    apply List.mem_of_getElem? (i := 0)
    rw [List.getElem?_drop]
    exact hj
  have hcount : l.count b = (l.take j).count b + (l.drop j).count b := by
    rw [← List.count_append, List.take_append_drop]
  have hpos := List.count_pos_iff.mpr hfirst
  have hpos' := List.count_pos_iff.mpr hsecond
  omega

theorem dash_mem_encode (h : dash ∈ String.utf8EncodeChar c) : c = '-' := by
  have hval := eq_of_mem_utf8EncodeChar h (by decide)
  exact Char.ext (UInt32.toNat_inj.mp hval)

theorem count_dash (s : Text) : (utf8 s).count dash = s.count '-' := by
  induction s with
  | nil => rfl
  | cons c s ih =>
    have hutf8 : utf8 (c :: s) = String.utf8EncodeChar c ++ utf8 s := List.flatMap_cons
    rw [hutf8, List.count_append, List.count_cons, ih, Nat.add_comm]
    congr 1
    split
    · rename_i hc
      rw [beq_iff_eq.mp hc]
      decide
    · rename_i hc
      apply List.count_eq_zero.mpr
      intro hmem
      exact hc (beq_iff_eq.mpr (dash_mem_encode hmem))

theorem length_utf8_le (s : Text) : s.length ≤ (utf8 s).length := by
  induction s with
  | nil => exact Nat.le_refl 0
  | cons c s ih =>
    have hutf8 : utf8 (c :: s) = String.utf8EncodeChar c ++ utf8 s := List.flatMap_cons
    have hpos : 1 ≤ (String.utf8EncodeChar c).length := by
      rw [String.length_utf8EncodeChar]
      exact Char.utf8Size_pos c
    rw [hutf8, List.length_append, List.length_cons]
    omega

theorem trimText_sublist (s : Text) : List.Sublist (trimText s) s := by
  have hstart : ∀ t : Text, List.Sublist (trimStart t) t := fun t => List.dropWhile_sublist _
  have hend : List.Sublist (trimEnd (trimStart s)) (trimStart s) := by
    have hrev := (hstart (trimStart s).reverse).reverse
    rw [List.reverse_reverse] at hrev
    exact hrev
  exact hend.trans (hstart s)

/-- Where every character has one byte, the bytes stand where the characters do. -/
theorem getElem?_utf8 {i : Nat} (h : (utf8 s).length = s.length)
    (hi : (utf8 s)[i]? = some dash) : s[i]? = some '-' := by
  induction s generalizing i with
  | nil => cases hi
  | cons c s ih =>
    have hutf8 : utf8 (c :: s) = String.utf8EncodeChar c ++ utf8 s := List.flatMap_cons
    have hpos := Char.utf8Size_pos c
    have hle := length_utf8_le s
    rw [hutf8, List.length_append, String.length_utf8EncodeChar, List.length_cons] at h
    obtain ⟨b, hb⟩ : ∃ b, String.utf8EncodeChar c = [b] := by
      apply List.length_eq_one_iff.mp
      rw [String.length_utf8EncodeChar]
      omega
    rw [hutf8, hb] at hi
    cases i with
    | zero =>
      have hdash : dash ∈ String.utf8EncodeChar c := by
        rw [hb, Option.some.inj hi]
        exact List.mem_cons_self
      rw [dash_mem_encode hdash]
      rfl
    | succ i => exact ih (by omega) hi

theorem exists_ten (h : s.length = 10) :
    ∃ a b c d e f g i j k : Char, s = [a, b, c, d, e, f, g, i, j, k] := by
  rcases s with _ | ⟨a, _ | ⟨b, _ | ⟨c, _ | ⟨d, _ | ⟨e, _ | ⟨f, _ | ⟨g, _ | ⟨i, _ | ⟨j, _ | ⟨k,
    _ | ⟨l, rest⟩⟩⟩⟩⟩⟩⟩⟩⟩⟩⟩
  all_goals first
    | exact ⟨a, b, c, d, e, f, g, i, j, k, rfl⟩
    | (simp only [List.length_cons, List.length_nil] at h; omega)

theorem filter_dashes {a b c d e f g h : Char} (hothers : '-' ∉ [a, b, c, d, e, f, g, h]) :
    [a, b, c, d, '-', e, f, '-', g, h].filter (· ≠ '-') = [a, b, c, d, e, f, g, h] := by
  simp only [List.mem_cons, List.not_mem_nil, or_false, not_or] at hothers
  obtain ⟨ha, hb, hc, hd, he, hf, hg, hh⟩ := hothers
  simp [Ne.symm ha, Ne.symm hb, Ne.symm hc, Ne.symm hd, Ne.symm he, Ne.symm hf, Ne.symm hg,
    Ne.symm hh]

theorem shape_of_dashedDate (hd : dashedDate s = some d) :
    ∃ a b c e f g h k : Char, s = [a, b, c, e, '-', f, g, '-', h, k] := by
  unfold dashedDate at hd
  split at hd
  · exact ⟨_, _, _, _, _, _, _, _, rfl⟩
  · cases hd

/-- Ten bytes of which eight characters are digits are a dashed date. -/
theorem dashedDate_of_readDate {lib : TextLib} (hv : icalDate lib s = .ok v)
    (hd : readDate (trimText v) = some d) : dashedDate s = some d := by
  obtain ⟨hlength, h4, h7, -, -, rfl⟩ := icalDate_eq_ok.mp hv
  have hbytes := length_utf8_le s
  have hdashes := two_le_count (by decide) h4 h7
  rw [count_dash] at hdashes
  have hsplit : s.length = s.count '-' + (s.filter (· ≠ '-')).length := by
    rw [List.length_eq_countP_add_countP (· == '-'), ← List.countP_eq_length_filter]
    simp [List.count]
  obtain ⟨height, -⟩ := digits_of_readDate hd
  have htrim := (trimText_sublist (s.filter (· ≠ '-'))).length_le
  have hself := (trimText_sublist (s.filter (· ≠ '-'))).eq_of_length (by omega)
  rw [hself] at hd
  have hten : s.length = 10 := by omega
  have hlengths : (utf8 s).length = s.length := by omega
  have hs4 := getElem?_utf8 hlengths h4
  have hs7 := getElem?_utf8 hlengths h7
  have htwo : s.count '-' = 2 := by omega
  obtain ⟨a, b, c, e, f, g, i, j, k, l, rfl⟩ := exists_ten hten
  obtain rfl := Option.some.inj hs4
  obtain rfl := Option.some.inj hs7
  have hothers : '-' ∉ [a, b, c, e, g, i, k, l] := by
    apply List.count_eq_zero.mp
    simp only [List.count_cons, List.count_nil] at htwo ⊢
    simp only [beq_self_eq_true, if_true] at htwo
    omega
  rw [filter_dashes hothers] at hd
  exact readDate_eq_some.mp hd

theorem readDate_of_dashedDate {lib : TextLib} (hv : icalDate lib s = .ok v)
    (hd : dashedDate s = some d) : lib.parseYmd s = some d ∧ readDate v = some d := by
  obtain ⟨-, -, -, d', hd', rfl⟩ := icalDate_eq_ok.mp hv
  obtain rfl := lib.parseYmd_digits s d d' hd hd'
  refine ⟨hd', ?_⟩
  obtain ⟨a, b, c, e, f, g, h, k, rfl⟩ := shape_of_dashedDate hd
  have hread := readDate_eq_some.mpr hd
  have hdigits := (digits_of_readDate hread).2
  have hothers : '-' ∉ [a, b, c, e, f, g, h, k] := by
    intro hmem
    obtain ⟨n, hn⟩ := hdigits _ hmem
    exact ne_of_digitValue hn (by decide) rfl
  rw [filter_dashes hothers]
  exact hread

theorem date_iff {lib : TextLib} (hv : icalDate lib s = .ok v) :
    (∃ d, lib.parseYmd s = some d ∧ readDate (trimText v) = some d) ↔
      ∃ d, dashedDate s = some d := by
  constructor
  · rintro ⟨d, -, hd⟩
    exact ⟨d, dashedDate_of_readDate hv hd⟩
  · rintro ⟨d, hd⟩
    obtain ⟨hparse, hread⟩ := readDate_of_dashedDate hv hd
    rw [trimText_digits (digits_of_readDate hread).2]
    exact ⟨d, hparse, hread⟩

end Dates

/-! ## Reading a line -/

section Lines

variable {lib : TextLib} {f : VeventFields} {name v raw : Text} {rest : List Text}

/-- A name of a property, as the writer puts it. -/
def isKey (name : Text) : Bool :=
  !name.contains ':' && name.all (fun c => c.toNat < 128) && name.head?.any (!isWhite ·)

/-- Its line neither begins nor ends an event. -/
def isInner (name : Text) : Bool :=
  isKey name && name.head?.all fun c => c.toLower != 'b' && c.toLower != 'e'

structure Key (name : Text) : Prop where
  colon : ':' ∉ name
  ascii : ∀ c ∈ name, c.toNat < 128
  head : ∃ c rest, name = c :: rest ∧ isWhite c = false

theorem key_of_isKey (h : isKey name = true) : Key name := by
  unfold isKey at h
  rw [Bool.and_eq_true, Bool.and_eq_true] at h
  obtain ⟨⟨hcolon, hascii⟩, hhead⟩ := h
  refine ⟨by simpa using hcolon, by simpa using hascii, ?_⟩
  cases name with
  | nil => cases hhead
  | cons c rest => exact ⟨c, rest, rfl, by simpa using hhead⟩

theorem Key.trim (h : Key name) (v : Text) :
    trimText (name ++ ':' :: v) = name ++ ':' :: trimEnd v := by
  obtain ⟨c, rest, rfl, hwhite⟩ := h.head
  apply trimText_append
  · intro x hx
    cases hx
    exact hwhite
  · exact List.cons_ne_nil _ _

theorem key_of_isInner (h : isInner name = true) : Key name :=
  key_of_isKey (Bool.and_eq_true_iff.mp h).1

theorem other_of_isInner (h : isInner name = true) (v : Text) :
    eqIgnoreAsciiCase (name ++ ':' :: v) "BEGIN:VEVENT".toList = false ∧
      eqIgnoreAsciiCase (name ++ ':' :: v) "END:VEVENT".toList = false := by
  obtain ⟨c, rest, rfl, -⟩ := (key_of_isInner h).head
  have hhead := (Bool.and_eq_true_iff.mp h).2
  simp only [List.head?_cons, Option.all_some, Bool.and_eq_true, bne_iff_ne] at hhead
  unfold eqIgnoreAsciiCase
  constructor
  · apply beq_eq_false_iff_ne.mpr
    intro heq
    exact hhead.1 (List.cons.inj heq).1
  · apply beq_eq_false_iff_ne.mpr
    intro heq
    exact hhead.2 (List.cons.inj heq).1

theorem readVeventLines_property (h : isInner name = true) :
    readVeventLines lib true f ((name ++ ':' :: v) :: rest) =
      readVeventLines lib true (f.set lib name (propertyName lib name) (trimText v)) rest := by
  rw [readVeventLines, (key_of_isInner h).trim, (other_of_isInner h _).1, (other_of_isInner h _).2,
    VeventFields.read, splitOnce_append (key_of_isInner h).colon]
  simp only [Bool.false_eq_true, if_false, Bool.not_true, trimText_trimEnd]

theorem readVeventLines_skip (hbegin : eqIgnoreAsciiCase (trimText raw) "BEGIN:VEVENT".toList = false)
    (hend : eqIgnoreAsciiCase (trimText raw) "END:VEVENT".toList = false) :
    readVeventLines lib false f (raw :: rest) = readVeventLines lib false f rest := by
  rw [readVeventLines, hbegin, hend]
  rfl

theorem propertyName_eq (h : Key name) :
    propertyName lib name = (name.takeWhile (· ≠ ';')).map Char.toUpper := by
  apply lib.toUppercase_ascii
  intro c hc
  exact h.ascii c (List.takeWhile_sublist _ |>.subset hc)

theorem uppercase_eq (h : Key name) : lib.toUppercase name = name.map Char.toUpper :=
  lib.toUppercase_ascii name h.ascii

theorem givenText_trimmed {field : Option Text} {s : Text} (h : s ∈ givenText field) :
    trimText s = s := by
  obtain ⟨t, -, rfl⟩ := Option.map_eq_some_iff.mp h
  exact trimText_trimText t

theorem readVeventLines_optional {key : String} (hkey : isInner key.toList = true)
    (field : Option Text) :
    readVeventLines lib true f (optionalLine key field ++ rest) =
      readVeventLines lib true ((givenText field).elim f fun s =>
        f.set lib key.toList (propertyName lib key.toList) (escapeText s)) rest := by
  unfold optionalLine
  cases hs : givenText field with
  | none => rfl
  | some s =>
    have hstep := @readVeventLines_property lib f _ (escapeText s) rest hkey
    rw [trimText_escapeText (givenText_trimmed hs)] at hstep
    exact hstep

end Lines

/-! ## Reading an event -/

section Event

variable {lib : TextLib} {now : UtcTime} {uid : Uuid} {e : NewEvent}

theorem isInner_dateName (e : NewEvent) :
    isInner (dateName e "DTSTART").toList = true ∧ isInner (dateName e "DTEND").toList = true := by
  unfold dateName
  cases e.isAllDay with
  | true => decide
  | false => decide

theorem propertyName_dateName (e : NewEvent) :
    propertyName lib (dateName e "DTSTART").toList = "DTSTART".toList ∧
      propertyName lib (dateName e "DTEND").toList = "DTEND".toList := by
  rw [propertyName_eq (key_of_isInner (isInner_dateName e).1),
    propertyName_eq (key_of_isInner (isInner_dateName e).2)]
  unfold dateName
  cases e.isAllDay with
  | true => decide
  | false => decide

/-- The line of an end that is there. -/
def endLines (e : NewEvent) (w : Option Text) : List Text :=
  (w.map (property (dateName e "DTEND"))).toList

theorem readVeventLines_end {f : VeventFields} {rest : List Text} (w : Option Text) :
    readVeventLines lib true f (endLines e w ++ rest) =
      readVeventLines lib true (w.elim f fun d =>
        f.set lib (dateName e "DTEND").toList "DTEND".toList (trimText d)) rest := by
  cases w with
  | none => rfl
  | some d =>
    rw [Option.elim_some, ← (propertyName_dateName  e).2]
    exact readVeventLines_property (isInner_dateName e).2

/-- What is read of the lines of an event. -/
theorem read_eventLines (v : Text) (w : Option Text) :
    readVeventLines lib false {} (eventLines now uid e v (endLines e w)) =
      { summary := some (escapeText (trimText e.summary))
        description := (givenText e.description).map escapeText
        dtstart := some (trimText v)
        dtend := w.map trimText
        location := (givenText e.location).map escapeText
        isAllDay := startsAllDay lib (dateName e "DTSTART").toList (trimText v) } := by
  have huid : propertyName lib "UID".toList = "UID".toList := propertyName_eq (key_of_isKey (by decide))
  have hsummary : propertyName lib "SUMMARY".toList = "SUMMARY".toList :=
    propertyName_eq (key_of_isKey (by decide))
  have hlocation : propertyName lib "LOCATION".toList = "LOCATION".toList :=
    propertyName_eq (key_of_isKey (by decide))
  have hdescription : propertyName lib "DESCRIPTION".toList = "DESCRIPTION".toList :=
    propertyName_eq (key_of_isKey (by decide))
  have hstamp : propertyName lib "DTSTAMP".toList = "DTSTAMP".toList :=
    propertyName_eq (key_of_isKey (by decide))
  unfold eventLines
  simp only [List.cons_append, List.nil_append, List.append_assoc]
  rw [readVeventLines_skip (by decide) (by decide), readVeventLines_skip (by decide) (by decide),
    readVeventLines_skip (by decide) (by decide)]
  rw [readVeventLines, if_pos (by decide)]
  unfold property
  rw [readVeventLines_property (by decide), huid]
  rw [readVeventLines_property (by decide), hsummary,
    trimText_escapeText (trimText_trimText _)]
  rw [readVeventLines_property (isInner_dateName e).1, (propertyName_dateName e).1,
    readVeventLines_end, readVeventLines_optional (by decide), hlocation,
    readVeventLines_optional (by decide), hdescription]
  rw [readVeventLines_property (by decide), hstamp, readVeventLines,
    if_neg (by decide), if_pos (by decide)]
  cases w with
  | none =>
    cases givenText e.location with
    | none => cases givenText e.description <;> rfl
    | some l => cases givenText e.description <;> rfl
  | some d =>
    cases givenText e.location with
    | none => cases givenText e.description <;> rfl
    | some l => cases givenText e.description <;> rfl

end Event

/-! ## Reading a card -/

section Card

variable {lib : TextLib} {f : VcardFields} {name v : Text} {rest : List Text} {uid : Uuid}
  {c : NewContact}

theorem read_property (h : Key name) (v : Text) :
    f.read lib (name ++ ':' :: v) = f.set (propertyName lib name) (trimText v) := by
  unfold VcardFields.read
  rw [h.trim]
  obtain ⟨x, l, rfl, -⟩ := h.head
  have hsplit := splitOnce_append h.colon (trimEnd v)
  simp only [List.cons_append] at hsplit
  simp only [List.cons_append, List.isEmpty_cons, Bool.false_eq_true, if_false, hsplit,
    trimText_trimEnd]

theorem read_optionalLine {key : String} (hkey : isKey key.toList = true) (field : Option Text) :
    (optionalLine key field).foldl (VcardFields.read lib) f =
      (givenText field).elim f fun s => f.set (propertyName lib key.toList) (escapeText s) := by
  unfold optionalLine
  cases hs : givenText field with
  | none => rfl
  | some s =>
    have hread := @read_property lib f _ (key_of_isKey hkey) (escapeText s)
    rw [trimText_escapeText (givenText_trimmed hs)] at hread
    exact hread

/-- What is read of the lines of a contact. -/
theorem read_cardLines (hname : trimText c.displayName = c.displayName) :
    let fields := (cardLines uid c).foldl (VcardFields.read lib) {}
    fields.displayName = some (escapeText c.displayName) ∧
      fields.emails = ((givenText c.email).map escapeText).toList ∧
      fields.phones = ((givenText c.phone).map escapeText).toList := by
  have hbegin : propertyName lib "BEGIN".toList = "BEGIN".toList :=
    propertyName_eq (key_of_isKey (by decide))
  have hversion : propertyName lib "VERSION".toList = "VERSION".toList :=
    propertyName_eq (key_of_isKey (by decide))
  have huid : propertyName lib "UID".toList = "UID".toList :=
    propertyName_eq (key_of_isKey (by decide))
  have hfn : propertyName lib "FN".toList = "FN".toList :=
    propertyName_eq (key_of_isKey (by decide))
  have hn : propertyName lib "N".toList = "N".toList :=
    propertyName_eq (key_of_isKey (by decide))
  have hemail : propertyName lib "EMAIL".toList = "EMAIL".toList :=
    propertyName_eq (key_of_isKey (by decide))
  have htel : propertyName lib "TEL".toList = "TEL".toList :=
    propertyName_eq (key_of_isKey (by decide))
  have horg : propertyName lib "ORG".toList = "ORG".toList :=
    propertyName_eq (key_of_isKey (by decide))
  have hend : propertyName lib "END".toList = "END".toList :=
    propertyName_eq (key_of_isKey (by decide))
  have hfirst : "BEGIN:VCARD".toList = "BEGIN".toList ++ ':' :: "VCARD".toList := rfl
  have hsecond : "VERSION:4.0".toList = "VERSION".toList ++ ':' :: "4.0".toList := rfl
  have hlast : "END:VCARD".toList = "END".toList ++ ':' :: "VCARD".toList := rfl
  unfold cardLines property
  simp only [List.foldl_append, List.foldl_cons, List.foldl_nil]
  rw [hfirst, hsecond, hlast, read_property (key_of_isKey (by decide)), hend,
    read_optionalLine (by decide), horg, read_optionalLine (by decide), htel,
    read_optionalLine (by decide), hemail, read_property (key_of_isKey (by decide)), hn,
    read_property (key_of_isKey (by decide)), hfn, read_property (key_of_isKey (by decide)), huid,
    read_property (key_of_isKey (by decide)), hversion, read_property (key_of_isKey (by decide)),
    hbegin, trimText_escapeText hname]
  cases givenText c.email with
  | none =>
    cases givenText c.phone with
    | none => cases givenText c.organisation <;> exact ⟨rfl, rfl, rfl⟩
    | some p => cases givenText c.organisation <;> exact ⟨rfl, rfl, rfl⟩
  | some m =>
    cases givenText c.phone with
    | none => cases givenText c.organisation <;> exact ⟨rfl, rfl, rfl⟩
    | some p => cases givenText c.organisation <;> exact ⟨rfl, rfl, rfl⟩

end Card

/-! ## What is to come back -/

/-- The name of the property a line holds. -/
def lineName (line : Text) : Text := (line.takeWhile (· ≠ ':')).takeWhile (· ≠ ';')

def fieldName (name : String) (field : Option Text) : List Text :=
  (field.map fun _ => name.toList).toList

/-- The properties of the text, each on one line. -/
def Properties (text : Text) (names : List Text) : Prop :=
  (lines text).map lineName = names ∧ ∀ line ∈ lines text, '\r' ∉ line

def contactNames (c : NewContact) : List Text :=
  ["BEGIN".toList, "VERSION".toList, "UID".toList, "FN".toList, "N".toList] ++
    fieldName "EMAIL" (givenText c.email) ++ fieldName "TEL" (givenText c.phone) ++
    fieldName "ORG" (givenText c.organisation) ++ ["END".toList]

def eventNames (e : NewEvent) : List Text :=
  ["BEGIN".toList, "VERSION".toList, "PRODID".toList, "BEGIN".toList, "UID".toList,
    "SUMMARY".toList, "DTSTART".toList] ++ fieldName "DTEND" e.givenEnd ++
    fieldName "LOCATION" (givenText e.location) ++
    fieldName "DESCRIPTION" (givenText e.description) ++
    ["DTSTAMP".toList, "END".toList, "END".toList]

section Kept

variable (lib : TextLib)

structure ContactKept (c : NewContact) (text : Text) : Prop where
  displayName : (parseVcardFields lib text).displayName = some c.displayName
  emails : (parseVcardFields lib text).emails = (givenText c.email).toList
  phones : (parseVcardFields lib text).phones = (givenText c.phone).toList
  properties : Properties text (contactNames c)

/-- The value stands for the date or the time that was given. -/
def SameInstant (allDay : Bool) (given value : Text) : Prop :=
  if allDay then ∃ d, lib.parseYmd given = some d ∧ readDate value = some d
  else ∃ t, lib.parseRfc3339 given = some t ∧ readUtc value = some t

structure EventKept (e : NewEvent) (text : Text) : Prop where
  summary : (parseVeventFields lib text).summary = some (trimText e.summary)
  location : (parseVeventFields lib text).location = givenText e.location
  description : (parseVeventFields lib text).description = givenText e.description
  allDay : (parseVeventFields lib text).isAllDay = e.isAllDay
  dtstart : Option.Rel (SameInstant lib e.isAllDay) (some e.dtstart)
    (parseVeventFields lib text).dtstart
  dtend : Option.Rel (SameInstant lib e.isAllDay) e.givenEnd (parseVeventFields lib text).dtend
  properties : Properties text (eventNames e)

/-! When the fields do come back. -/

structure ContactPlain (c : NewContact) : Prop where
  displayName : Unescaped c.displayName
  email : ∀ s ∈ givenText c.email, Unescaped s
  phone : ∀ s ∈ givenText c.phone, Unescaped s

/-- A date of digits; or a time of whole seconds, in the years that have four digits. -/
def PlainInstant (allDay : Bool) (given : Text) : Prop :=
  if allDay then ∃ d, dashedDate given = some d
  else ∀ t, lib.parseRfc3339 given = some t →
    t.nanos = 0 ∧ 0 ≤ t.date.year ∧ t.date.year ≤ 9999

structure EventPlain (e : NewEvent) : Prop where
  summary : Unescaped (trimText e.summary)
  location : ∀ s ∈ givenText e.location, Unescaped s
  description : ∀ s ∈ givenText e.description, Unescaped s
  dtstart : PlainInstant lib e.isAllDay e.dtstart
  dtend : ∀ s ∈ e.givenEnd, PlainInstant lib e.isAllDay s

end Kept

/-! ## The lines of a text -/

section OneLine

variable {v : Text} {field : Option Text} {uid : Uuid} {c : NewContact}

structure OneLine (l : Text) : Prop where
  nonempty : l ≠ []
  lineFeed : '\n' ∉ l
  carriage : '\r' ∉ l

theorem oneLine_property {name : String} (hname : '\n' ∉ name.toList ∧ '\r' ∉ name.toList)
    (hv : ∀ c ∈ v, c ≠ '\n' ∧ c ≠ '\r') : OneLine (property name v) := by
  have hnot : ∀ x, x ∉ name.toList → x ≠ ':' → x ∉ v → x ∉ property name v := by
    intro x hx hcolon hxv hmem
    rcases List.mem_append.mp hmem with h | h
    · exact hx h
    · rcases List.mem_cons.mp h with h | h
      · exact hcolon h
      · exact hxv h
  exact
    { nonempty := List.append_ne_nil_of_right_ne_nil _ (List.cons_ne_nil _ _)
      lineFeed := hnot _ hname.1 (by decide) fun h => (hv _ h).1 rfl
      carriage := hnot _ hname.2 (by decide) fun h => (hv _ h).2 rfl }

theorem oneLine_optional {name : String} (hname : '\n' ∉ name.toList ∧ '\r' ∉ name.toList) :
    ∀ l ∈ optionalLine name field, OneLine l := by
  intro l hl
  obtain ⟨s, -, rfl⟩ := Option.map_eq_some_iff.mp (Option.mem_toList.mp hl)
  exact oneLine_property hname fun _ => escapeText_line _

theorem oneLine_uid : ∀ c ∈ uid.text, c ≠ '\n' ∧ c ≠ '\r' := by
  intro c hc
  have hhex := uid.hex c hc
  constructor
  · rintro rfl
    exact absurd hhex (by decide)
  · rintro rfl
    exact absurd hhex (by decide)

theorem oneLine_fixed (name : String)
    (h : name.toList ≠ [] ∧ '\n' ∉ name.toList ∧ '\r' ∉ name.toList) : OneLine name.toList :=
  ⟨h.1, h.2.1, h.2.2⟩

theorem oneLine_cardLines : ∀ l ∈ cardLines uid c, OneLine l := by
  have hescaped : ∀ (name : String) (s : Text), ('\n' ∉ name.toList ∧ '\r' ∉ name.toList) →
      OneLine (property name (escapeText s)) :=
    fun name s hname => oneLine_property hname fun _ => escapeText_line _
  unfold cardLines
  simp only [List.forall_mem_append, List.forall_mem_cons]
  refine ⟨⟨⟨⟨⟨?_, ?_, ?_, ?_, ?_, ?_⟩, ?_⟩, ?_⟩, ?_⟩, ?_, ?_⟩
  · exact oneLine_fixed _ (by decide)
  · exact oneLine_fixed _ (by decide)
  · exact hescaped _ _ (by decide)
  · exact hescaped _ _ (by decide)
  · exact hescaped _ _ (by decide)
  · exact fun l hl => (List.not_mem_nil hl).elim
  · exact oneLine_optional (by decide)
  · exact oneLine_optional (by decide)
  · exact oneLine_optional (by decide)
  · exact oneLine_fixed _ (by decide)
  · exact fun l hl => (List.not_mem_nil hl).elim

theorem lines_of_oneLine {ls : List Text} (h : ∀ l ∈ ls, OneLine l) : lines (joinLines ls) = ls := by
  rcases List.eq_nil_or_concat ls with rfl | ⟨init, last, rfl⟩
  · rfl
  · rw [List.concat_eq_append] at h ⊢
    have hlast := h last (List.mem_append_right _ List.mem_cons_self)
    exact lines_joinLines hlast.nonempty fun l hl => (h l hl).lineFeed

theorem lineName_property {name : String} (hname : ':' ∉ name.toList) (v : Text) :
    lineName (property name v) = name.toList.takeWhile (· ≠ ';') := by
  unfold lineName property
  rw [takeWhile_append_cons hname]

theorem lineName_optional {name : String} (hname : ':' ∉ name.toList ∧ ';' ∉ name.toList) :
    (optionalLine name field).map lineName = fieldName name (givenText field) := by
  unfold optionalLine fieldName
  cases givenText field with
  | none => rfl
  | some s =>
    have htake : name.toList.takeWhile (· ≠ ';') = name.toList := by
      apply List.takeWhile_eq_self_iff.mpr
      intro x hx
      have hne : x ≠ ';' := fun h => hname.2 (h ▸ hx)
      simpa using hne
    rw [Option.map_some, Option.map_some, Option.toList_some, Option.toList_some, List.map_cons,
      lineName_property hname.1, htake, List.map_nil]

theorem names_cardLines : (cardLines uid c).map lineName = contactNames c := by
  unfold cardLines contactNames
  simp only [List.map_append, List.map_cons, List.map_nil]
  rw [lineName_optional (by decide), lineName_optional (by decide), lineName_optional (by decide),
    lineName_property (by decide), lineName_property (by decide), lineName_property (by decide)]
  rfl

end OneLine

theorem map_escapeText_eq {o : Option Text} :
    o.map escapeText = o ↔ ∀ s ∈ o, Unescaped s := by
  cases o with
  | none => simp
  | some s =>
    rw [Option.map_some, Option.some.injEq, escapeText_eq_self]
    constructor
    · intro h t ht
      cases ht
      exact h
    · intro h
      exact h s rfl

theorem toList_inj {o o' : Option Text} : o.toList = o'.toList ↔ o = o' := by
  cases o with
  | none => cases o' <;> simp
  | some a => cases o' <;> simp

/-! ## Contacts -/

section Contacts

variable {lib : TextLib} {uid : Uuid} {body : CreateContactRequest} {c : NewContact}

theorem newContact_trimmed (h : newContact body = .ok c) :
    trimText c.displayName = c.displayName := by
  unfold newContact at h
  split at h
  · cases h
  · cases h
    exact trimText_trimText body.displayName

theorem contact_properties : Properties (buildVcard uid c) (contactNames c) := by
  unfold Properties buildVcard
  rw [lines_of_oneLine oneLine_cardLines]
  exact ⟨names_cardLines, fun l hl => (oneLine_cardLines l hl).carriage⟩

theorem contact_kept_iff (h : newContact body = .ok c) :
    ContactKept lib c (buildVcard uid c) ↔ ContactPlain c := by
  obtain ⟨hname, hemails, hphones⟩ := @read_cardLines lib uid c (newContact_trimmed h)
  have hread : parseVcardFields lib (buildVcard uid c) =
      (cardLines uid c).foldl (VcardFields.read lib) {} := by
    unfold parseVcardFields buildVcard
    rw [lines_of_oneLine oneLine_cardLines]
  rw [← hread] at hname hemails hphones
  constructor
  · intro hkept
    have hdisplay := hname.symm.trans hkept.displayName
    have hemail := hemails.symm.trans hkept.emails
    have hphone := hphones.symm.trans hkept.phones
    exact
      { displayName := escapeText_eq_self.mp (Option.some.inj hdisplay)
        email := map_escapeText_eq.mp (toList_inj.mp hemail)
        phone := map_escapeText_eq.mp (toList_inj.mp hphone) }
  · intro hplain
    exact
      { displayName := by rw [hname, escapeText_eq_self.mpr hplain.displayName]
        emails := by rw [hemails, map_escapeText_eq.mpr hplain.email]
        phones := by rw [hphones, map_escapeText_eq.mpr hplain.phone]
        properties := contact_properties }

end Contacts

/-! ## Events -/

section Events

variable {lib : TextLib} {now : UtcTime} {uid : Uuid} {e : NewEvent} {s v text : Text}
  {w : Option Text}

theorem icalUtc_eq_ok : icalUtc lib s = .ok v ↔
    ∃ t, lib.parseRfc3339 s = some t ∧ v = formatUtc t := by
  unfold icalUtc
  cases ht : lib.parseRfc3339 s with
  | none => simp
  | some t => simp [eq_comm]

theorem trimText_of_white (h : ∀ c ∈ v, isWhite c = false) : trimText v = v :=
  trimText_eq_self (fun c hc => h c (List.mem_of_mem_head? hc))
    fun c hc => h c (List.mem_of_mem_getLast? hc)

theorem utc_iff (h : icalUtc lib s = .ok v) :
    (∃ t, lib.parseRfc3339 s = some t ∧ readUtc (trimText v) = some t) ↔
      ∀ t, lib.parseRfc3339 s = some t → t.nanos = 0 ∧ 0 ≤ t.date.year ∧ t.date.year ≤ 9999 := by
  obtain ⟨t, ht, rfl⟩ := icalUtc_eq_ok.mp h
  rw [trimText_of_white (isWhite_formatUtc t)]
  have hread := readUtc_iff (lib.valid s t ht)
  constructor
  · rintro ⟨t', ht', hsame⟩ t'' ht''
    cases ht.symm.trans ht'
    cases ht.symm.trans ht''
    exact hread.mp hsame
  · intro hplain
    exact ⟨t, ht, hread.mpr (hplain t ht)⟩

theorem icalValue_iff (h : icalValue lib e s = .ok v) :
    SameInstant lib e.isAllDay s (trimText v) ↔ PlainInstant lib e.isAllDay s := by
  unfold icalValue at h
  cases hday : e.isAllDay with
  | true =>
    rw [hday] at h
    exact date_iff h
  | false =>
    rw [hday] at h
    exact utc_iff h

theorem icalValue_white (h : icalValue lib e s = .ok v) (hplain : PlainInstant lib e.isAllDay s) :
    ∀ c ∈ v, isWhite c = false := by
  unfold icalValue at h
  cases hday : e.isAllDay with
  | true =>
    rw [hday] at h hplain
    obtain ⟨d, hd⟩ := hplain
    intro c hc
    obtain ⟨k, hk⟩ := (digits_of_readDate (readDate_of_dashedDate h hd).2).2 c hc
    exact isWhite_of_digitValue hk
  | false =>
    rw [hday] at h
    obtain ⟨t, -, rfl⟩ := icalUtc_eq_ok.mp h
    exact isWhite_formatUtc t

/-- The values of an event that is written. -/
structure Values (lib : TextLib) (e : NewEvent) (v : Text) (w : Option Text) : Prop where
  start : icalValue lib e e.dtstart = .ok v
  finish : Option.Rel (fun d x => icalValue lib e d = .ok x) e.givenEnd w

theorem buildVevent_eq_ok (h : buildVevent lib now uid e = .ok text) :
    ∃ v w, Values lib e v w ∧ text = joinLines (eventLines now uid e v (endLines e w)) := by
  unfold buildVevent at h
  split at h
  · cases h
  · obtain ⟨v, hv, h⟩ := bind_eq_ok.mp h
    obtain ⟨ends, hends, h⟩ := bind_eq_ok.mp h
    cases h
    unfold endLine at hends
    cases hgiven : e.givenEnd with
    | none =>
      rw [hgiven] at hends
      cases hends
      exact ⟨v, none, ⟨hv, by rw [hgiven]; exact .none⟩, rfl⟩
    | some d =>
      rw [hgiven] at hends
      cases hd : icalValue lib e d with
      | error err =>
        simp only [hd] at hends
        cases hends
      | ok x =>
        simp only [hd] at hends
        cases hends
        exact ⟨v, some x, ⟨hv, by rw [hgiven]; exact .some hd⟩, rfl⟩

theorem startsAllDay_eq (h : Values lib e v w) :
    startsAllDay lib (dateName e "DTSTART").toList (trimText v) = e.isAllDay := by
  have hstart := h.start
  unfold icalValue at hstart
  unfold startsAllDay
  rw [uppercase_eq (key_of_isInner (isInner_dateName e).1)]
  unfold dateName
  cases hday : e.isAllDay with
  | true =>
    have hno : contains "VALUE=DATE-TIME".toList
        ((allDayName "DTSTART").toList.map Char.toUpper) = false := by decide
    have hyes : contains "VALUE=DATE".toList
        ((allDayName "DTSTART").toList.map Char.toUpper) = true := by decide
    rw [if_pos rfl, hno, hyes]
    rfl
  | false =>
    rw [hday] at hstart
    obtain ⟨t, -, rfl⟩ := icalUtc_eq_ok.mp hstart
    have hlength := length_formatUtc t
    have hbytes := length_utf8_le (formatUtc t)
    have hno : contains "VALUE=DATE".toList ("DTSTART".toList.map Char.toUpper) = false := by decide
    have hlong : ((utf8 (formatUtc t)).length == 8) = false := beq_eq_false_iff_ne.mpr (by omega)
    rw [if_neg (by decide), trimText_of_white (isWhite_formatUtc t), hno, hlong]
    exact Bool.and_false _

theorem names_eventLines (h : Values lib e v w) :
    (eventLines now uid e v (endLines e w)).map lineName = eventNames e := by
  have hstart : lineName (property (dateName e "DTSTART") v) = "DTSTART".toList := by
    rw [lineName_property (key_of_isInner (isInner_dateName e).1).colon]
    unfold dateName
    cases e.isAllDay <;> decide
  have hend : ∀ x, lineName (property (dateName e "DTEND") x) = "DTEND".toList := by
    intro x
    rw [lineName_property (key_of_isInner (isInner_dateName e).2).colon]
    unfold dateName
    cases e.isAllDay <;> decide
  have hends : (endLines e w).map lineName = fieldName "DTEND" e.givenEnd := by
    have hrel := h.finish
    unfold endLines fieldName
    generalize e.givenEnd = given at hrel
    cases hrel with
    | none => rfl
    | some _ =>
      simp only [Option.map_some, Option.toList_some, List.map_cons, List.map_nil, hend]
  unfold eventLines eventNames
  simp only [List.map_append, List.map_cons, List.map_nil]
  rw [lineName_optional (by decide), lineName_optional (by decide), hends, hstart,
    lineName_property (by decide), lineName_property (by decide), lineName_property (by decide)]
  rfl

theorem oneLine_of_white (h : ∀ c ∈ v, isWhite c = false) : ∀ c ∈ v, c ≠ '\n' ∧ c ≠ '\r' := by
  intro c hc
  have hwhite := h c hc
  constructor
  · rintro rfl
    cases hwhite
  · rintro rfl
    cases hwhite

theorem oneLine_eventLines (hv : ∀ c ∈ v, isWhite c = false)
    (hw : ∀ x ∈ w, ∀ c ∈ x, isWhite c = false) :
    ∀ l ∈ eventLines now uid e v (endLines e w), OneLine l := by
  have hname : ∀ name : String, ('\n' ∉ name.toList ∧ '\r' ∉ name.toList) →
      ('\n' ∉ (allDayName name).toList ∧ '\r' ∉ (allDayName name).toList) →
      '\n' ∉ (dateName e name).toList ∧ '\r' ∉ (dateName e name).toList := by
    intro name h h'
    unfold dateName
    cases e.isAllDay with
    | true => exact h'
    | false => exact h
  unfold eventLines
  simp only [List.forall_mem_append, List.forall_mem_cons]
  refine ⟨⟨⟨⟨⟨?_, ?_, ?_, ?_, ?_, ?_, ?_, ?_⟩, ?_⟩, ?_⟩, ?_⟩, ?_, ?_, ?_, ?_⟩
  · exact oneLine_fixed _ (by decide)
  · exact oneLine_fixed _ (by decide)
  · exact oneLine_fixed _ (by decide)
  · exact oneLine_fixed _ (by decide)
  · exact oneLine_property (by decide) oneLine_uid
  · exact oneLine_property (by decide) fun _ => escapeText_line _
  · exact oneLine_property (hname _ (by decide) (by decide)) (oneLine_of_white hv)
  · exact fun l hl => (List.not_mem_nil hl).elim
  · intro l hl
    obtain ⟨x, hx, rfl⟩ := Option.map_eq_some_iff.mp (Option.mem_toList.mp hl)
    exact oneLine_property (hname _ (by decide) (by decide)) (oneLine_of_white (hw x hx))
  · exact oneLine_optional (by decide)
  · exact oneLine_optional (by decide)
  · exact oneLine_property (by decide) (oneLine_of_white (isWhite_formatUtc now))
  · exact oneLine_fixed _ (by decide)
  · exact oneLine_fixed _ (by decide)
  · exact fun l hl => (List.not_mem_nil hl).elim

/-- Where there are no more lines than were written, no line was torn apart. -/
theorem lines_eventLines
    (h : (lines (joinLines (eventLines now uid e v (endLines e w)))).length ≤
      (eventLines now uid e v (endLines e w)).length) :
    lines (joinLines (eventLines now uid e v (endLines e w))) =
      eventLines now uid e v (endLines e w) := by
  obtain ⟨init, hinit⟩ : ∃ init, eventLines now uid e v (endLines e w) =
      init ++ ["END:VCALENDAR".toList] := by
    have hassoc : ∀ (ls : List Text) (x y z : Text), ls ++ [x, y, z] = (ls ++ [x, y]) ++ [z] := by
      simp
    exact ⟨_, hassoc _ _ _ _⟩
  rw [hinit] at h ⊢
  rw [List.length_append, List.length_singleton] at h
  have hrest := lineFeed_not_mem_of_length (by decide) (by decide) h
  apply lines_joinLines (by decide)
  intro l hl
  rcases List.mem_append.mp hl with hl | hl
  · exact hrest l hl
  · rw [List.mem_singleton.mp hl]
    decide

theorem parse_eventLines (h : Values lib e v w)
    (hlines : lines text = eventLines now uid e v (endLines e w)) :
    parseVeventFields lib text =
      { summary := some (escapeText (trimText e.summary))
        description := (givenText e.description).map escapeText
        dtstart := some (trimText v)
        dtend := w.map trimText
        location := (givenText e.location).map escapeText
        isAllDay := e.isAllDay } := by
  unfold parseVeventFields
  rw [hlines, read_eventLines, startsAllDay_eq h]

theorem finish_iff (h : Values lib e v w) :
    Option.Rel (SameInstant lib e.isAllDay) e.givenEnd (w.map trimText) ↔
      ∀ s ∈ e.givenEnd, PlainInstant lib e.isAllDay s := by
  have hrel := h.finish
  generalize e.givenEnd = given at hrel
  cases hrel with
  | none => exact iff_of_true .none fun s hs => by cases hs
  | some hvalue =>
    constructor
    · intro hsame s hs
      cases hs
      cases hsame with
      | some hsame => exact (icalValue_iff hvalue).mp hsame
    · intro hplain
      exact .some ((icalValue_iff hvalue).mpr (hplain _ rfl))

theorem event_kept_iff (h : buildVevent lib now uid e = .ok text) :
    EventKept lib e text ↔ EventPlain lib e := by
  obtain ⟨v, w, hvalues, rfl⟩ := buildVevent_eq_ok h
  constructor
  · intro hkept
    -- As many lines as properties: so no value was torn apart.
    have hlength : (lines (joinLines (eventLines now uid e v (endLines e w)))).length ≤
        (eventLines now uid e v (endLines e w)).length := by
      have hnames := congrArg List.length hkept.properties.1
      rw [← @names_eventLines lib now uid e v w hvalues, List.length_map, List.length_map] at hnames
      exact Nat.le_of_eq hnames
    have hlines := lines_eventLines hlength
    have hparse := parse_eventLines hvalues hlines
    have hsummary := hkept.summary
    have hlocation := hkept.location
    have hdescription := hkept.description
    have hdtstart := hkept.dtstart
    have hdtend := hkept.dtend
    rw [hparse] at hsummary hlocation hdescription hdtstart hdtend
    have hstart : SameInstant lib e.isAllDay e.dtstart (trimText v) := by
      cases hdtstart with
      | some hsame => exact hsame
    exact
      { summary := escapeText_eq_self.mp (Option.some.inj hsummary)
        location := map_escapeText_eq.mp hlocation
        description := map_escapeText_eq.mp hdescription
        dtstart := (icalValue_iff hvalues.start).mp hstart
        dtend := (finish_iff hvalues).mp hdtend }
  · intro hplain
    have hv := icalValue_white hvalues.start hplain.dtstart
    have hw : ∀ x ∈ w, ∀ c ∈ x, isWhite c = false := by
      have hrel := hvalues.finish
      have hends := hplain.dtend
      generalize e.givenEnd = given at hrel hends
      cases hrel with
      | none =>
        intro x hx
        cases hx
      | some hvalue =>
        intro x hx
        cases hx
        exact icalValue_white hvalue (hends _ rfl)
    have hone : ∀ l ∈ eventLines now uid e v (endLines e w), OneLine l :=
      oneLine_eventLines hv hw
    have hlines := lines_of_oneLine hone
    have hparse := parse_eventLines hvalues hlines
    exact
      { summary := by rw [hparse, escapeText_eq_self.mpr hplain.summary]
        location := by rw [hparse, map_escapeText_eq.mpr hplain.location]
        description := by rw [hparse, map_escapeText_eq.mpr hplain.description]
        allDay := by rw [hparse]
        dtstart := by
          rw [hparse]
          exact .some ((icalValue_iff hvalues.start).mpr hplain.dtstart)
        dtend := by
          rw [hparse]
          exact (finish_iff hvalues).mpr hplain.dtend
        properties := by
          unfold Properties
          rw [hlines]
          exact ⟨names_eventLines hvalues, fun l hl => (hone l hl).carriage⟩ }

end Events

/-! ## Both -/

/-- Exactly when a new event, and a new contact, come back as they were given. -/
theorem round_trip_iff (lib : TextLib) (now : UtcTime) (uid : Uuid) :
    (∀ e text, buildVevent lib now uid e = .ok text →
      (EventKept lib e text ↔ EventPlain lib e)) ∧
    ∀ body c, newContact body = .ok c →
      (ContactKept lib c (buildVcard uid c) ↔ ContactPlain c) :=
  ⟨fun _ _ h => event_kept_iff h, fun _ _ h => contact_kept_iff h⟩

/-- A time that is written as `YYYY-MM-DDTHH:MM:SSZ`. -/
def readZulu (s : Text) : Option UtcTime :=
  match s.drop 10 with
  | ['T', a, b, ':', c, d, ':', e, f, 'Z'] => do
    return ⟨← dashedDate (s.take 10), ← readNat [a, b], ← readNat [c, d], ← readNat [e, f], 0⟩
  | _ => none

def inRange (t : UtcTime) : Bool :=
  t.date.month ≤ 12 && t.date.day ≤ 31 && t.hour ≤ 23 && t.minute ≤ 59 && t.second ≤ 60

/-- A library that knows the plainest forms only. -/
def plainLib : TextLib where
  toUppercase := fun s => s.map Char.toUpper
  parseRfc3339 := fun s => (readZulu s).filter inRange
  parseYmd := dashedDate
  toUppercase_ascii := fun _ _ => rfl
  valid := by
    intro s t h
    have hrange := (Option.filter_eq_some_iff.mp h).2
    simp only [inRange, Bool.and_eq_true, decide_eq_true_eq] at hrange
    obtain ⟨⟨⟨⟨hmonth, hday⟩, hhour⟩, hminute⟩, hsecond⟩ := hrange
    exact ⟨hmonth, hday, hhour, hminute, hsecond⟩
  parseYmd_digits := by
    intro s d d' h h'
    exact Option.some.inj (h'.symm.trans h)

def exampleUid : Uuid := ⟨"e1".toList, forall_mem_of_all (by decide), by decide⟩

def exampleNow : UtcTime := ⟨⟨2026, 9, 7⟩, 8, 0, 0, 0⟩

/-- A timed event with an end and a place. -/
def exampleEvent (summary : String) : NewEvent where
  summary := summary.toList
  dtstart := "2026-09-07T10:00:00Z".toList
  dtend := some "2026-09-07T11:00:00Z".toList
  isAllDay := false
  location := some " Room 1 ".toList
  description := none

def exampleContact : CreateContactRequest :=
  ⟨" Bob ".toList, some "bob@x".toList, none, some "Acme, Inc".toList⟩

theorem event_comes_back :
    (∃ text, buildVevent plainLib exampleNow exampleUid (exampleEvent "Lunch: all") = .ok text ∧
      EventKept plainLib (exampleEvent "Lunch: all") text) ∧
    ∃ c, newContact exampleContact = .ok c ∧ ContactKept plainLib c (buildVcard exampleUid c) := by
  have hboth := round_trip_iff plainLib exampleNow exampleUid
  refine ⟨⟨_, rfl, (hboth.1 _ _ rfl).mpr ?_⟩, ⟨_, rfl, (hboth.2 exampleContact _ rfl).mpr ?_⟩⟩
  · exact
      { summary := by decide +kernel
        location := by decide +kernel
        description := by decide +kernel
        dtstart := fun t ht => by
          cases Option.some.inj (ht.symm.trans (by rfl : _ = some ⟨⟨2026, 9, 7⟩, 10, 0, 0, 0⟩))
          decide
        dtend := fun s hs t ht => by
          cases hs
          cases Option.some.inj (ht.symm.trans (by rfl : _ = some ⟨⟨2026, 9, 7⟩, 11, 0, 0, 0⟩))
          decide }
  · exact
      { displayName := by decide +kernel
        email := by decide +kernel
        phone := by decide +kernel }

/-- The comma of a summary comes back with a backslash. -/
theorem comma_kept :
    ∃ text, buildVevent plainLib exampleNow exampleUid (exampleEvent "Lunch, all") = .ok text ∧
      ¬EventKept plainLib (exampleEvent "Lunch, all") text := by
  refine ⟨_, rfl, fun h => ?_⟩
  exact absurd h.summary (by decide +kernel)

end Lyra.Pim
