import Mathlib.Algebra.GroupWithZero.Nat
import Mathlib.Order.Compare
import Mathlib.Order.Basic

/-!
# Numbers as texts, in order

Texts are compared character by character.  Numbers of a fixed number of digits compare as the
texts that write them, and a text compares in the order of its parts as long as the parts of one
text are as long as those of the other.

* `digits`: a number in a fixed number of digits;
* `textCompare_append`: the parts one after the other;
* `textCompare_digits`: the order of numbers is the order of their texts;
* `textCompare_digits_shorter`: a number with trailing zeros left out, before a sign that sorts
  below the digits.
-/

namespace Lyra.Lib.TextOrder

/-! ## Comparisons -/

/-- The order of texts, character by character. -/
def textCompare : List Char → List Char → Ordering
  | [], [] => .eq
  | [], _ :: _ => .lt
  | _ :: _, [] => .gt
  | a :: s, b :: t => (compare a.toNat b.toNat).then (textCompare s t)

@[simp] theorem textCompare_self (s : List Char) : textCompare s s = .eq := by
  induction s with
  | nil => rfl
  | cons a s ih => simp [textCompare, ih]

theorem textCompare_cons_self (c : Char) (s t : List Char) :
    textCompare (c :: s) (c :: t) = textCompare s t := by
  simp [textCompare]

theorem textCompare_swap (s t : List Char) : (textCompare s t).swap = textCompare t s := by
  induction s generalizing t with
  | nil => cases t <;> rfl
  | cons a s ih =>
    cases t with
    | nil => rfl
    | cons b t => simp [textCompare, Ordering.swap_then, ih, Nat.compare_swap]

/-- Parts of one length are compared before what follows them. -/
theorem textCompare_append {s t : List Char} (h : s.length = t.length) (u v : List Char) :
    textCompare (s ++ u) (t ++ v) = (textCompare s t).then (textCompare u v) := by
  induction s generalizing t with
  | nil =>
    obtain rfl : t = [] := List.length_eq_zero_iff.mp h.symm
    rfl
  | cons a s ih =>
    cases t with
    | nil => simp at h
    | cons b t =>
      have hih := ih (by simpa using h : s.length = t.length)
      simp only [List.cons_append, textCompare, hih, Ordering.then_assoc]

theorem textCompare_append_left (s u v : List Char) :
    textCompare (s ++ u) (s ++ v) = textCompare u v := by
  rw [textCompare_append rfl, textCompare_self]
  rfl

theorem textCompare_cons_of_lt {a b : Char} (h : a.toNat < b.toNat) (s t : List Char) :
    textCompare (a :: s) (b :: t) = .lt := by
  rw [textCompare, Nat.compare_eq_lt.mpr h]
  rfl

/-! ## Numbers -/

/-- The quotients are compared before the remainders. -/
theorem compare_divMod (m n k : Nat) (hk : 0 < k) :
    compare m n = (compare (m / k) (n / k)).then (compare (m % k) (n % k)) := by
  have hm := Nat.div_add_mod m k
  have hn := Nat.div_add_mod n k
  have hmk := Nat.mod_lt m hk
  have hnk := Nat.mod_lt n hk
  rcases Nat.lt_trichotomy (m / k) (n / k) with hlt | heq | hgt
  · rw [Nat.compare_eq_lt.mpr hlt, Nat.compare_eq_lt.mpr (Nat.lt_of_div_lt_div hlt)]
    rfl
  · rw [Nat.compare_eq_eq.mpr heq]
    rw [heq] at hm
    rcases Nat.lt_trichotomy (m % k) (n % k) with h | h | h
    · rw [Nat.compare_eq_lt.mpr h, Nat.compare_eq_lt.mpr (by omega)]
      rfl
    · rw [Nat.compare_eq_eq.mpr h, Nat.compare_eq_eq.mpr (by omega)]
      rfl
    · rw [Nat.compare_eq_gt.mpr h, Nat.compare_eq_gt.mpr (by omega)]
      rfl
  · rw [Nat.compare_eq_gt.mpr hgt, Nat.compare_eq_gt.mpr (Nat.lt_of_div_lt_div hgt)]
    rfl

theorem compare_mul_right (m n : Nat) {k : Nat} (hk : 0 < k) :
    compare (m * k) (n * k) = compare m n := by
  rw [compare_divMod _ _ k hk, Nat.mul_div_cancel m hk, Nat.mul_div_cancel n hk]
  simp

/-- The last decimal digit. -/
def lastDigit (n : Nat) : Char := Nat.digitChar (n % 10)

theorem toNat_lastDigit (n : Nat) : (lastDigit n).toNat = 48 + n % 10 :=
  Nat.toNat_digitChar_of_lt_ten (Nat.mod_lt n (by decide))

theorem compare_lastDigit (m n : Nat) :
    compare (lastDigit m).toNat (lastDigit n).toNat = compare (m % 10) (n % 10) := by
  rw [toNat_lastDigit, toNat_lastDigit]
  simp only [Nat.compare_eq_ite_lt, Nat.add_lt_add_iff_left]

/-- `n` in `k` digits. -/
def digits : Nat → Nat → List Char
  | 0, _ => []
  | k + 1, n => digits k (n / 10) ++ [lastDigit n]

@[simp] theorem length_digits (k n : Nat) : (digits k n).length = k := by
  induction k generalizing n with
  | zero => rfl
  | succ k ih => simp [digits, ih]

theorem digit_of_mem_digits {k n : Nat} {c : Char} (h : c ∈ digits k n) : 48 ≤ c.toNat := by
  induction k generalizing n with
  | zero => cases h
  | succ k ih =>
    rcases List.mem_append.mp h with h | h
    · exact ih h
    · rw [List.mem_singleton.mp h, toNat_lastDigit]
      omega

/-- The order of numbers is the order of their texts. -/
theorem textCompare_digits {k m n : Nat} (hm : m < 10 ^ k) (hn : n < 10 ^ k) :
    textCompare (digits k m) (digits k n) = compare m n := by
  induction k generalizing m n with
  | zero =>
    obtain rfl : m = 0 := by omega
    obtain rfl : n = 0 := by omega
    rfl
  | succ k ih =>
    rw [Nat.pow_succ] at hm hn
    have hih := ih (Nat.div_lt_of_lt_mul (by omega) : m / 10 < 10 ^ k)
      (Nat.div_lt_of_lt_mul (by omega) : n / 10 < 10 ^ k)
    rw [digits, digits, textCompare_append (by simp), hih, compare_divMod m n 10 (by decide)]
    simp [textCompare, compare_lastDigit]

theorem digits_add (j k n : Nat) : digits (j + k) n = digits j (n / 10 ^ k) ++ digits k n := by
  induction k generalizing n with
  | zero => simp [digits]
  | succ k ih =>
    rw [← Nat.add_assoc, digits, ih, digits, List.append_assoc, Nat.div_div_eq_div_mul, Nat.pow_succ,
      Nat.mul_comm]

/-- A number whose zeros at the end are left out, before a sign that sorts below the digits. -/
theorem textCompare_digits_shorter {j k m n : Nat} {sign : Char} (hsign : sign.toNat < 48)
    (hm : m < 10 ^ j) (hn : n < 10 ^ (j + k)) (hrest : n % 10 ^ k ≠ 0) (s t : List Char) :
    textCompare (digits j m ++ sign :: s) (digits (j + k) n ++ t) = compare (m * 10 ^ k) n := by
  have hpos : 0 < 10 ^ k := Nat.pow_pos (by decide)
  have hquot : n / 10 ^ k < 10 ^ j := Nat.div_lt_of_lt_mul (by rwa [Nat.mul_comm, ← Nat.pow_add])
  have hsmaller : compare ((m * 10 ^ k) % 10 ^ k) (n % 10 ^ k) = .lt := by
    rw [Nat.mul_mod_left]
    exact Nat.compare_eq_lt.mpr (Nat.pos_of_ne_zero hrest)
  rw [digits_add, List.append_assoc, textCompare_append (by simp), textCompare_digits hm hquot,
    compare_divMod (m * 10 ^ k) n _ hpos, Nat.mul_div_cancel m hpos, hsmaller]
  congr 1
  -- the sign stands against a digit
  cases hdigits : digits k n with
  | nil =>
    have hzero : k = 0 := by rw [← length_digits k n, hdigits, List.length_nil]
    subst hzero
    exact absurd (Nat.mod_one n) hrest
  | cons c rest =>
    have hc : 48 ≤ c.toNat := digit_of_mem_digits (hdigits ▸ List.mem_cons_self)
    exact textCompare_cons_of_lt (by omega) _ _

end Lyra.Lib.TextOrder
