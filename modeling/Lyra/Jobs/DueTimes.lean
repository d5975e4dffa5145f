import Lyra.Dav.Write
import Lyra.Lib.TextOrder

/-!
# Due times as texts

The queue stores `run_at` as text and compares it with the text of now.  Every producer writes
`DateTime<Utc>::to_rfc3339`: the fraction has no digits, three, six or nine, the offset is
`+00:00`, and a year outside 0 to 9999 has a sign.

* `toRfc3339`: the text of an instant;
* `snoozeRunAt`, `clockRunAt`: what the producers write, and what the claim loop asks with;
* `textCompare_toRfc3339`: the order of two texts, from the order of the instants;
* `sameOrder_iff`: they agree exactly where the years are written in one way.
-/

namespace Lyra.Pim

open Lyra.Lib Lyra.Lib.TextOrder

/-! ## The text of an instant -/

/-- `SecondsFormat::AutoSi`: how many digits a fraction is written in. -/
def fractionDigits (nanos : Nat) : Nat :=
  if nanos = 0 then 0
  else if nanos % 10 ^ 6 = 0 then 3
  else if nanos % 10 ^ 3 = 0 then 6
  else 9

def formatFraction (nanos : Nat) : Text :=
  let width := fractionDigits nanos
  if width = 0 then [] else '.' :: digits width (nanos / 10 ^ (9 - width))

/-- `DateTime<Utc>::to_rfc3339`. -/
def toRfc3339 (t : UtcTime) : Text :=
  formatYear t.date.year ++ '-' :: (twoDigits t.date.month ++ '-' :: (twoDigits t.date.day ++
    'T' :: (twoDigits t.hour ++ ':' :: (twoDigits t.minute ++ ':' :: (twoDigits t.second ++
      (formatFraction t.nanos ++ '+' :: "00:00".toList))))))

/-- The order of instants: a leap second is after the second before it. -/
def compareInstants (a b : UtcTime) : Ordering :=
  (compare a.date.year b.date.year).then ((compare a.date.month b.date.month).then
    ((compare a.date.day b.date.day).then ((compare a.hour b.hour).then
      ((compare a.minute b.minute).then ((compare a.second b.second).then
        (compare a.nanos b.nanos))))))

/-! ## The writers -/

/-- An instant that is written: the clock runs after 1970 and as far as the library of dates goes,
and the local year of a snooze request has four digits. -/
structure Stamp extends UtcTime where
  valid : toUtcTime.Valid
  nanos_lt : nanos < 10 ^ 9
  year_ge : -1 ≤ date.year
  year_le : date.year ≤ 262142

/-- What the library of dates reads. -/
structure DateLib extends TextLib where
  nanos : ∀ s t, parseRfc3339 s = some t → t.nanos < 10 ^ 9
  /-- The year in the text has four digits, and the offset is less than a day. -/
  year : ∀ s t, parseRfc3339 s = some t → -1 ≤ t.date.year ∧ t.date.year ≤ 10000

/-- `run_at` of `snooze_message`. -/
def snoozeRunAt (lib : DateLib) (wanted : Text) : Option Text :=
  (lib.parseRfc3339 wanted).map toRfc3339

/-- `run_at` of the jobs for now or after a delay, and the now that claiming asks with. -/
def clockRunAt (now : Stamp) : Text := toRfc3339 now.toUtcTime

/-! ## Fractions -/

/-- A fraction is not written, or in digits that do not end in three zeros. -/
theorem fraction_shape {n : Nat} (hn : n < 10 ^ 9) :
    n = 0 ∧ formatFraction n = [] ∨ ∃ w q, (w = 3 ∨ w = 6 ∨ w = 9) ∧ q < 10 ^ w ∧
      q % 1000 ≠ 0 ∧ n = q * 10 ^ (9 - w) ∧ formatFraction n = '.' :: digits w q := by
  unfold formatFraction fractionDigits
  split
  case isTrue hzero => exact .inl ⟨hzero, by simp⟩
  case isFalse hzero =>
    right
    split
    case isTrue h6 => exact ⟨3, n / 10 ^ 6, .inl rfl, by omega, by omega, by omega, by simp⟩
    case isFalse h6 =>
      split
      case isTrue h3 =>
        exact ⟨6, n / 10 ^ 3, .inr (.inl rfl), by omega, by omega, by omega, by simp⟩
      case isFalse h3 =>
        exact ⟨9, n, .inr (.inr rfl), hn, by omega, by omega, by simp⟩

/-- The offset sorts below the digits of a longer fraction. -/
theorem textCompare_fraction_shorter {w w' p q : Nat} (hw : w = 3 ∨ w = 6 ∨ w = 9)
    (hw' : w' = 3 ∨ w' = 6 ∨ w' = 9) (hlt : w < w') (hp : p < 10 ^ w) (hq : q < 10 ^ w')
    (hrest : q % 1000 ≠ 0) (u v : Text) :
    textCompare (digits w p ++ '+' :: u) (digits w' q ++ '+' :: v) =
        compare (p * 10 ^ (9 - w)) (q * 10 ^ (9 - w')) ∧
      p * 10 ^ (9 - w) ≠ q * 10 ^ (9 - w') := by
  obtain ⟨k, rfl⟩ : ∃ k, w' = w + k := ⟨w' - w, by omega⟩
  have hk : k = 3 ∨ k = 6 := by omega
  have hdvd : 1000 ∣ 10 ^ k := by rcases hk with rfl | rfl <;> decide
  have hmod : q % 10 ^ k ≠ 0 := by
    intro h
    exact hrest (Nat.mod_eq_zero_of_dvd (Nat.dvd_trans hdvd (Nat.dvd_of_mod_eq_zero h)))
  have hscale : p * 10 ^ (9 - w) = p * 10 ^ k * 10 ^ (9 - (w + k)) := by
    rw [Nat.mul_assoc, ← Nat.pow_add]
    congr 2
    omega
  rw [hscale]
  refine ⟨?_, fun h => ?_⟩
  · rw [compare_mul_right _ _ (Nat.pow_pos (by decide))]
    exact textCompare_digits_shorter (by decide) hp hq hmod _ _
  · have hpq := Nat.eq_of_mul_eq_mul_right (Nat.pow_pos (by decide)) h
    exact hmod (hpq ▸ Nat.mul_mod_left _ _)

/-- The fractions are compared before what follows the offset's sign. -/
theorem textCompare_fraction {m n : Nat} (hm : m < 10 ^ 9) (hn : n < 10 ^ 9) (u : Text) :
    textCompare (formatFraction m ++ '+' :: u) (formatFraction n ++ '+' :: u) = compare m n := by
  rcases fraction_shape hm with ⟨rfl, hm⟩ | ⟨w, p, hw, hp, hp0, rfl, hm⟩
  · rcases fraction_shape hn with ⟨rfl, hn⟩ | ⟨w', q, hw', hq, hq0, rfl, hn⟩
    · simp [hm]
    · have hpos : 0 < q * 10 ^ (9 - w') := Nat.mul_pos (by omega) (Nat.pow_pos (by decide))
      rw [hm, hn, Nat.compare_eq_lt.mpr hpos]
      exact textCompare_cons_of_lt (by decide) _ _
  · rcases fraction_shape hn with ⟨rfl, hn⟩ | ⟨w', q, hw', hq, hq0, rfl, hn⟩
    · have hpos : 0 < p * 10 ^ (9 - w) := Nat.mul_pos (by omega) (Nat.pow_pos (by decide))
      rw [hm, hn, Nat.compare_eq_gt.mpr hpos, ← textCompare_swap]
      exact congrArg Ordering.swap (textCompare_cons_of_lt (by decide) _ _)
    · rw [hm, hn]
      show textCompare ('.' :: (digits w p ++ '+' :: u)) ('.' :: (digits w' q ++ '+' :: u)) = _
      rw [textCompare_cons_self]
      rcases Nat.lt_trichotomy w w' with hlt | rfl | hgt
      · exact (textCompare_fraction_shorter hw hw' hlt hp hq hq0 u u).1
      · rw [textCompare_append (by simp), textCompare_digits hp hq, textCompare_self,
          compare_mul_right _ _ (Nat.pow_pos (by decide)), Ordering.then_eq]
      · rw [← textCompare_swap, (textCompare_fraction_shorter hw' hw hgt hq hp hp0 u u).1,
          Nat.compare_swap]

/-! ## The fields behind the year -/

theorem twoDigits_eq (n : Nat) : twoDigits n = digits 2 n := rfl

theorem textCompare_twoDigits {m n : Nat} (hm : m < 100) (hn : n < 100) (c : Char) (u v : Text) :
    textCompare (twoDigits m ++ c :: u) (twoDigits n ++ c :: v) =
      (compare m n).then (textCompare u v) := by
  rw [twoDigits_eq, twoDigits_eq, textCompare_append (by simp), textCompare_digits hm hn,
    textCompare_cons_self]

/-- The fields behind the year are compared as they are written. -/
theorem textCompare_fields {a b : UtcTime} (ha : a.Valid) (hb : b.Valid) (hna : a.nanos < 10 ^ 9)
    (hnb : b.nanos < 10 ^ 9) :
    ∃ u v : Text, toRfc3339 a = formatYear a.date.year ++ '-' :: u ∧
      toRfc3339 b = formatYear b.date.year ++ '-' :: v ∧
      compareInstants a b = (compare a.date.year b.date.year).then (textCompare u v) := by
  refine ⟨_, _, rfl, rfl, ?_⟩
  have hsecond : textCompare (twoDigits a.second ++ (formatFraction a.nanos ++ '+' :: "00:00".toList))
      (twoDigits b.second ++ (formatFraction b.nanos ++ '+' :: "00:00".toList)) =
        (compare a.second b.second).then (compare a.nanos b.nanos) := by
    have h60 := ha.second
    have h60' := hb.second
    rw [twoDigits_eq, twoDigits_eq, textCompare_append (by simp),
      textCompare_digits (by omega) (by omega), textCompare_fraction hna hnb]
  have := ha.month
  have := hb.month
  have := ha.day
  have := hb.day
  have := ha.hour
  have := hb.hour
  have := ha.minute
  have := hb.minute
  rw [textCompare_twoDigits (by omega) (by omega), textCompare_twoDigits (by omega) (by omega),
    textCompare_twoDigits (by omega) (by omega), textCompare_twoDigits (by omega) (by omega),
    hsecond]
  rfl

/-! ## Years -/

theorem decimal_eq_digits {k n : Nat} (hle : 10 ^ k ≤ n) (hlt : n < 10 ^ (k + 1)) :
    decimal n = digits (k + 1) n := by
  induction k generalizing n with
  | zero =>
    rw [decimal, Nat.toDigits_of_lt_base (by omega)]
    simp [digits, lastDigit, Nat.mod_eq_of_lt (by omega : n < 10)]
  | succ k ih =>
    rw [Nat.pow_succ] at hle hlt
    have hten : 10 ≤ n := Nat.le_trans (Nat.le_mul_of_pos_left 10 (Nat.pow_pos (by decide))) hle
    have hih := ih (n := n / 10) (by omega) (by omega)
    rw [decimal, Nat.toDigits_of_base_le (by decide) hten, digits, ← hih]
    rfl

/-- The year -1, a year of four digits, and years of five and six digits behind a sign. -/
inductive YearShape : Int → Text → Prop
  | minusOne : YearShape (-1) ('-' :: digits 4 1)
  | four (n : Nat) : n < 10 ^ 4 → YearShape n (digits 4 n)
  | five (n : Nat) : 10 ^ 4 ≤ n → n < 10 ^ 5 → YearShape n ('+' :: digits 5 n)
  | six (n : Nat) : 10 ^ 5 ≤ n → n < 10 ^ 6 → YearShape n ('+' :: digits 6 n)

theorem fourDigits_eq (n : Nat) : fourDigits n = digits 4 n := by
  simp [fourDigits, twoDigits_eq, digits, Nat.div_div_eq_div_mul]

theorem yearShape {y : Int} (hge : -1 ≤ y) (hle : y ≤ 262142) : YearShape y (formatYear y) := by
  cases y with
  | negSucc n =>
    obtain rfl : n = 0 := by omega
    exact .minusOne
  | ofNat n =>
    have hle : n ≤ 262142 := Int.ofNat_le.mp hle
    show YearShape n (if n ≤ 9999 then fourDigits n else '+' :: decimal n)
    split
    case isTrue h4 =>
      rw [fourDigits_eq]
      exact .four n (by omega)
    case isFalse h4 =>
      by_cases h5 : n < 10 ^ 5
      · rw [decimal_eq_digits (by omega : 10 ^ 4 ≤ n) h5]
        exact .five n (by omega) h5
      · rw [decimal_eq_digits (by omega : 10 ^ 5 ≤ n) (by omega : n < 10 ^ 6)]
        exact .six n (by omega) (by omega)

/-- A year of six digits that sorts before one of five. -/
def Crossed (y z : Int) : Prop := 10000 ≤ y ∧ y ≤ 99999 ∧ 100000 ≤ z ∧ z < 10 * y

instance (y z : Int) : Decidable (Crossed y z) := inferInstanceAs (Decidable (_ ∧ _))

/-- Both years are written with a sign, or none is above 9999; and their digits do not cross. -/
def SameForm (y z : Int) : Prop := (y ≤ 9999 ↔ z ≤ 9999) ∧ ¬Crossed y z ∧ ¬Crossed z y

instance (y z : Int) : Decidable (SameForm y z) := inferInstanceAs (Decidable (_ ∧ _))

/-- The order of two years as they are written. -/
def writtenOrder (y z : Int) : Ordering :=
  if SameForm y z then compare y z else (compare y z).swap

theorem compare_natCast (m n : Nat) : compare (m : Int) (n : Int) = compare m n := by
  simp only [compare, compareOfLessAndEq, Int.ofNat_lt, Int.natCast_inj]

theorem sameForm_self (y : Int) : SameForm y y := by
  have hcrossed : ¬Crossed y y := by
    unfold Crossed
    omega
  exact ⟨Iff.rfl, hcrossed, hcrossed⟩

theorem sameForm_comm (y z : Int) : SameForm y z ↔ SameForm z y := by
  unfold SameForm
  tauto

theorem writtenOrder_swap (y z : Int) : (writtenOrder y z).swap = writtenOrder z y := by
  have hswap : compare z y = (compare y z).swap := (Int.compare_swap y z).symm
  unfold writtenOrder
  by_cases h : SameForm y z
  · rw [if_pos h, if_pos ((sameForm_comm y z).mp h), hswap]
  · rw [if_neg h, if_neg (fun h' => h ((sameForm_comm z y).mp h')), hswap]

/-- Where the digits agree, the five-digit year is before the one of six digits. -/
theorem textCompare_five_six {m n : Nat} (hm : m < 10 ^ 5) (hn : n < 10 ^ 6) (u v : Text) :
    textCompare (digits 5 m ++ '-' :: u) (digits 6 n ++ v) = if m ≤ n / 10 then .lt else .gt := by
  have hsplit : digits 6 n = digits 5 (n / 10) ++ [lastDigit n] := rfl
  have hsign : textCompare ('-' :: u) ([lastDigit n] ++ v) = .lt := by
    refine textCompare_cons_of_lt ?_ _ _
    rw [toNat_lastDigit]
    show 45 < 48 + n % 10
    omega
  rw [hsplit, List.append_assoc, textCompare_append (by simp), textCompare_digits hm (by omega), hsign]
  rcases Nat.lt_trichotomy m (n / 10) with h | h | h
  · rw [Nat.compare_eq_lt.mpr h, if_pos (Nat.le_of_lt h)]
    rfl
  · rw [Nat.compare_eq_eq.mpr h, if_pos (Nat.le_of_eq h)]
    rfl
  · rw [Nat.compare_eq_gt.mpr h, if_neg (by omega)]
    rfl

theorem textCompare_digits_year {k m n : Nat} (hm : m < 10 ^ k) (hn : n < 10 ^ k)
    (hsame : SameForm m n) (u v : Text) :
    textCompare (digits k m ++ '-' :: u) (digits k n ++ '-' :: v) =
      (writtenOrder m n).then (textCompare u v) := by
  rw [textCompare_append (by simp), textCompare_digits hm hn, textCompare_cons_self, writtenOrder,
    if_pos hsame, compare_natCast]

theorem writtenOrder_of_lt {y z : Int} (hlt : y < z) (hsame : SameForm y z) :
    writtenOrder y z = .lt := by
  rw [writtenOrder, if_pos hsame]
  exact Int.compare_eq_lt.mpr hlt

theorem writtenOrder_of_gt {y z : Int} (hgt : z < y) (hform : ¬SameForm y z) :
    writtenOrder y z = .lt := by
  rw [writtenOrder, if_neg hform, Int.compare_eq_gt.mpr hgt]
  rfl

/-- The years are compared before what follows them. -/
def Decides (y : Int) (s : Text) (z : Int) (t : Text) : Prop :=
  ∀ u v : Text, textCompare (s ++ '-' :: u) (t ++ '-' :: v) =
    (writtenOrder y z).then (textCompare u v)

theorem Decides.symm {y z : Int} {s t : Text} (h : Decides y s z t) : Decides z t y s := by
  intro u v
  rw [← textCompare_swap, h v u, Ordering.swap_then, writtenOrder_swap, textCompare_swap]

theorem decides_of_first {y z : Int} {a b : Char} (hlt : a.toNat < b.toNat)
    (horder : writtenOrder y z = .lt) (s t : Text) : Decides y (a :: s) z (b :: t) := by
  intro u v
  rw [horder]
  exact textCompare_cons_of_lt hlt _ _

theorem digits_cons (k n : Nat) : ∃ c rest, digits (k + 1) n = c :: rest ∧ 48 ≤ c.toNat := by
  cases h : digits (k + 1) n with
  | nil =>
    have hlen := congrArg List.length h
    simp at hlen
  | cons c rest => exact ⟨c, rest, rfl, digit_of_mem_digits (h ▸ List.mem_cons_self)⟩

theorem decides_four (y : Int) {a : Char} (ha : a.toNat < 48) (s : Text) (n : Nat)
    (horder : writtenOrder y n = .lt) : Decides y (a :: s) n (digits 4 n) := by
  obtain ⟨c, rest, hdigits, hc⟩ := digits_cons 3 n
  rw [hdigits]
  exact decides_of_first (by omega) horder _ _

theorem decides_five_six {m n : Nat} (hm : 10 ^ 4 ≤ m) (hm' : m < 10 ^ 5) (hn : 10 ^ 5 ≤ n)
    (hn' : n < 10 ^ 6) : Decides m ('+' :: digits 5 m) n ('+' :: digits 6 n) := by
  intro u v
  rw [List.cons_append, List.cons_append, textCompare_cons_self, textCompare_five_six hm' hn']
  split
  case isTrue h =>
    rw [writtenOrder_of_lt (by omega) (by simp only [SameForm, Crossed]; omega)]
    rfl
  case isFalse h =>
    rw [← writtenOrder_swap, writtenOrder_of_gt (by omega) (by simp only [SameForm, Crossed]; omega)]
    rfl

theorem decides {y z : Int} {s t : Text} (hs : YearShape y s) (ht : YearShape z t) :
    Decides y s z t := by
  cases hs with
  | minusOne =>
    cases ht with
    | minusOne =>
      intro u v
      rw [textCompare_append_left, textCompare_cons_self]
      rfl
    | four n hn =>
      exact decides_four _ (by decide) _ _
        (writtenOrder_of_lt (by omega) (by simp only [SameForm, Crossed]; omega))
    | five n hn hn' =>
      exact (decides_of_first (by decide)
        (writtenOrder_of_gt (by omega) (by simp only [SameForm, Crossed]; omega)) _ _).symm
    | six n hn hn' =>
      exact (decides_of_first (by decide)
        (writtenOrder_of_gt (by omega) (by simp only [SameForm, Crossed]; omega)) _ _).symm
  | four m hm =>
    cases ht with
    | minusOne =>
      exact (decides_four _ (by decide) _ _
        (writtenOrder_of_lt (by omega) (by simp only [SameForm, Crossed]; omega))).symm
    | four n hn =>
      exact textCompare_digits_year hm hn (by simp only [SameForm, Crossed]; omega)
    | five n hn hn' =>
      exact (decides_four _ (by decide) _ _
        (writtenOrder_of_gt (by omega) (by simp only [SameForm, Crossed]; omega))).symm
    | six n hn hn' =>
      exact (decides_four _ (by decide) _ _
        (writtenOrder_of_gt (by omega) (by simp only [SameForm, Crossed]; omega))).symm
  | five m hm hm' =>
    cases ht with
    | minusOne =>
      exact decides_of_first (by decide)
        (writtenOrder_of_gt (by omega) (by simp only [SameForm, Crossed]; omega)) _ _
    | four n hn =>
      exact decides_four _ (by decide) _ _
        (writtenOrder_of_gt (by omega) (by simp only [SameForm, Crossed]; omega))
    | five n hn hn' =>
      intro u v
      rw [List.cons_append, List.cons_append, textCompare_cons_self]
      exact textCompare_digits_year hm' hn' (by simp only [SameForm, Crossed]; omega) u v
    | six n hn hn' => exact decides_five_six hm hm' hn hn'
  | six m hm hm' =>
    cases ht with
    | minusOne =>
      exact decides_of_first (by decide)
        (writtenOrder_of_gt (by omega) (by simp only [SameForm, Crossed]; omega)) _ _
    | four n hn =>
      exact decides_four _ (by decide) _ _
        (writtenOrder_of_gt (by omega) (by simp only [SameForm, Crossed]; omega))
    | five n hn hn' => exact (decides_five_six hn hn' hm hm').symm
    | six n hn hn' =>
      intro u v
      rw [List.cons_append, List.cons_append, textCompare_cons_self]
      exact textCompare_digits_year hm' hn' (by simp only [SameForm, Crossed]; omega) u v

/-! ## The order of due times -/

/-- The order of two texts: the years as they are written, then the other fields. -/
theorem textCompare_toRfc3339 (a b : Stamp) :
    ∃ o, textCompare (toRfc3339 a.toUtcTime) (toRfc3339 b.toUtcTime) =
        (writtenOrder a.date.year b.date.year).then o ∧
      compareInstants a.toUtcTime b.toUtcTime = (compare a.date.year b.date.year).then o := by
  obtain ⟨u, v, ha, hb, horder⟩ := textCompare_fields a.valid b.valid a.nanos_lt b.nanos_lt
  refine ⟨textCompare u v, ?_, horder⟩
  rw [ha, hb]
  exact decides (yearShape a.year_ge a.year_le) (yearShape b.year_ge b.year_le) u v

/-- The queue and the clock agree on the order of two times. -/
def SameOrder (a b : Stamp) : Prop :=
  textCompare (clockRunAt a) (clockRunAt b) = compareInstants a.toUtcTime b.toUtcTime

/-- What a snooze request writes is the text of such a time. -/
theorem snoozeRunAt_stamp {lib : DateLib} {wanted text : Text}
    (h : snoozeRunAt lib wanted = some text) : ∃ t : Stamp, clockRunAt t = text := by
  obtain ⟨t, hread, rfl⟩ := Option.map_eq_some_iff.mp h
  have hyear := lib.year wanted t hread
  exact ⟨⟨t, lib.valid wanted t hread, lib.nanos wanted t hread, hyear.1, by omega⟩, rfl⟩

/-- Two written times compare as instants exactly where their years are written in one form. -/
theorem sameOrder_iff (a b : Stamp) : SameOrder a b ↔ SameForm a.date.year b.date.year := by
  obtain ⟨o, htext, hinstants⟩ := textCompare_toRfc3339 a b
  have hsame : SameOrder a b ↔ (writtenOrder a.date.year b.date.year).then o =
      (compare a.date.year b.date.year).then o := by
    rw [← htext, ← hinstants]
    rfl
  rw [hsame]
  constructor
  · intro h
    by_contra hform
    have hne : a.date.year ≠ b.date.year := by
      intro heq
      rw [heq] at hform
      exact hform (sameForm_self _)
    rw [writtenOrder, if_neg hform] at h
    rcases Int.lt_or_gt_of_ne hne with hlt | hgt
    · rw [Int.compare_eq_lt.mpr hlt] at h
      cases h
    · rw [Int.compare_eq_gt.mpr hgt] at h
      cases h
  · intro hform
    rw [writtenOrder, if_pos hform]

/-- 00:59:59 on 1 January 10000, which `9999-12-31T23:59:59-01:00` asks for. -/
def afterYear9999 : Stamp :=
  ⟨⟨⟨10000, 1, 1⟩, 0, 59, 59, 0⟩, ⟨by decide, by decide, by decide, by decide, by decide⟩,
    by decide, by decide, by decide⟩

/-- A clock in 2026. -/
def clockIn2026 : Stamp :=
  ⟨⟨⟨2026, 9, 4⟩, 12, 0, 0, 123456000⟩, ⟨by decide, by decide, by decide, by decide, by decide⟩,
    by decide, by decide, by decide⟩

/-- A job that is due in the year 10000 is claimed at once. -/
theorem not_sameOrder_yearTenThousand :
    compareInstants clockIn2026.toUtcTime afterYear9999.toUtcTime = .lt ∧
      textCompare (clockRunAt afterYear9999) (clockRunAt clockIn2026) = .lt ∧
      ¬SameOrder afterYear9999 clockIn2026 := by
  refine ⟨by decide, by decide, ?_⟩
  unfold SameOrder
  decide

end Lyra.Pim
