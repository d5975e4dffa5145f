import Lyra.Lib.Lines
import Mathlib.Data.Char

/-!
# Base64

RFC 4648 with padding: three bytes are four digits.

* `decode_encode`: what was encoded is decoded;
* `length_encode`, `mem_encode`: how long a text it is, and of which characters.
-/

namespace Lyra.Lib.Base64

def digits : List Char := "ABCDEFGHIJKLMNOPQRSTUVWXYZabcdefghijklmnopqrstuvwxyz0123456789+/".toList

def digit (n : Nat) : Char := digits.getD n 'A'

/-- The number of a digit. -/
def value (c : Char) : Option Nat :=
  if c ∈ digits then some (digits.idxOf c) else none

/-- The first to fourth digit of three bytes. -/
def first (a : UInt8) : Char := digit (a.toNat / 4)

def second (a b : UInt8) : Char := digit (a.toNat % 4 * 16 + b.toNat / 16)

def third (b c : UInt8) : Char := digit (b.toNat % 16 * 4 + c.toNat / 64)

def fourth (c : UInt8) : Char := digit (c.toNat % 64)

def encode : List UInt8 → List Char
  | [] => []
  | [a] => [first a, second a 0, '=', '=']
  | [a, b] => [first a, second a b, third b 0, '=']
  | a :: b :: c :: rest => first a :: second a b :: third b c :: fourth c :: encode rest

/-- One to three bytes, from the numbers of their digits. -/
def byte1 (w x : Nat) : UInt8 := UInt8.ofNat (w * 4 + x / 16)

def byte2 (x y : Nat) : UInt8 := UInt8.ofNat (x % 16 * 16 + y / 4)

def byte3 (y z : Nat) : UInt8 := UInt8.ofNat (y % 4 * 64 + z)

def decode : List Char → Option (List UInt8)
  | [] => some []
  | w :: x :: y :: z :: rest => do
    let w ← value w
    let x ← value x
    if y = '=' ∧ z = '=' ∧ rest = [] then return [byte1 w x]
    let y ← value y
    if z = '=' ∧ rest = [] then return [byte1 w x, byte2 x y]
    let z ← value z
    return byte1 w x :: byte2 x y :: byte3 y z :: (← decode rest)
  | _ => none

/-! ## Digits -/

theorem digits_eq : digits =
    ['A', 'B', 'C', 'D', 'E', 'F', 'G', 'H', 'I', 'J', 'K', 'L', 'M', 'N', 'O', 'P', 'Q', 'R', 'S',
      'T', 'U', 'V', 'W', 'X', 'Y', 'Z', 'a', 'b', 'c', 'd', 'e', 'f', 'g', 'h', 'i', 'j', 'k', 'l',
      'm', 'n', 'o', 'p', 'q', 'r', 's', 't', 'u', 'v', 'w', 'x', 'y', 'z', '0', '1', '2', '3', '4',
      '5', '6', '7', '8', '9', '+', '/'] := String.toList_ofList

theorem nodup_digits : digits.Nodup := by
  have hnumbers : (digits.map Char.toNat).Nodup := by
    rw [digits_eq]
    decide +kernel
  exact (List.pairwise_map.mp hnumbers).imp fun h e => h (congrArg _ e)

theorem value_digit {n : Nat} (h : n < 64) : value (digit n) = some n := by
  have hlen : digits.length = 64 := by
    rw [digits_eq]
    rfl
  have hn : n < digits.length := by rw [hlen]; exact h
  have hget : digit n = digits[n] := by
    rw [digit, List.getD_eq_getElem?_getD, List.getElem?_eq_getElem hn, Option.getD_some]
  rw [hget, value, if_pos (List.getElem_mem hn), nodup_digits.idxOf_getElem]

theorem digit_mem {n : Nat} (h : n < 64) : digit n ∈ digits := by
  have hvalue := value_digit h
  unfold value at hvalue
  by_contra hmem
  rw [if_neg hmem] at hvalue
  cases hvalue

theorem digit_ne_pad {n : Nat} (h : n < 64) : digit n ≠ '=' := by
  refine ne_of_mem_of_not_mem (digit_mem h) ?_
  rw [digits_eq]
  decide

section Bytes

variable (a b c : UInt8)

theorem first_lt : a.toNat / 4 < 64 := by
  have := a.toNat_lt
  omega

theorem second_lt : a.toNat % 4 * 16 + b.toNat / 16 < 64 := by
  have := b.toNat_lt
  omega

theorem third_lt : b.toNat % 16 * 4 + c.toNat / 64 < 64 := by
  have := c.toNat_lt
  omega

theorem fourth_lt : c.toNat % 64 < 64 := Nat.mod_lt _ (by decide)

theorem byte1_of_digits : byte1 (a.toNat / 4) (a.toNat % 4 * 16 + b.toNat / 16) = a := by
  have := b.toNat_lt
  have hsum : a.toNat / 4 * 4 + (a.toNat % 4 * 16 + b.toNat / 16) / 16 = a.toNat := by omega
  unfold byte1
  rw [hsum, UInt8.ofNat_toNat]

theorem byte2_of_digits :
    byte2 (a.toNat % 4 * 16 + b.toNat / 16) (b.toNat % 16 * 4 + c.toNat / 64) = b := by
  have := b.toNat_lt
  have := c.toNat_lt
  have hsum : (a.toNat % 4 * 16 + b.toNat / 16) % 16 * 16 +
      (b.toNat % 16 * 4 + c.toNat / 64) / 4 = b.toNat := by omega
  unfold byte2
  rw [hsum, UInt8.ofNat_toNat]

theorem byte3_of_digits : byte3 (b.toNat % 16 * 4 + c.toNat / 64) (c.toNat % 64) = c := by
  have := c.toNat_lt
  have hsum : (b.toNat % 16 * 4 + c.toNat / 64) % 4 * 64 + c.toNat % 64 = c.toNat := by omega
  unfold byte3
  rw [hsum, UInt8.ofNat_toNat]

end Bytes

/-! ## The round trip -/

theorem decode_encode (bytes : List UInt8) : decode (encode bytes) = some bytes := by
  fun_induction encode bytes with
  | case1 => rfl
  | case2 a =>
    have hbyte := byte1_of_digits a 0
    simp only [decode, first, second, value_digit (first_lt a), value_digit (second_lt a 0)]
    simpa using hbyte
  | case3 a b =>
    have hbyte1 := byte1_of_digits a b
    have hbyte2 := byte2_of_digits a b 0
    have hpad := digit_ne_pad (third_lt b 0)
    simp only [decode, first, second, third, value_digit (first_lt a), value_digit (second_lt a b),
      value_digit (third_lt b 0)]
    rw [UInt8.toNat_zero, Nat.zero_div, Nat.add_zero] at hbyte2 hpad
    simp [hbyte1, hbyte2, hpad]
  | case4 a b c rest ih =>
    have hpad3 := digit_ne_pad (third_lt b c)
    have hpad4 := digit_ne_pad (fourth_lt c)
    simp only [decode, first, second, third, fourth, value_digit (first_lt a),
      value_digit (second_lt a b), value_digit (third_lt b c), value_digit (fourth_lt c), ih]
    simp [byte1_of_digits, byte2_of_digits, byte3_of_digits, hpad3, hpad4]

theorem length_encode (bytes : List UInt8) :
    (encode bytes).length = 4 * ((bytes.length + 2) / 3) := by
  fun_induction encode bytes with
  | case1 => rfl
  | case2 a => simp
  | case3 a b => simp
  | case4 a b c rest ih =>
    simp only [List.length_cons, ih]
    omega

theorem mem_encode {bytes : List UInt8} {ch : Char} (h : ch ∈ encode bytes) :
    ch ∈ '=' :: digits := by
  fun_induction encode bytes with
  | case1 => cases h
  | case2 a =>
    simp only [List.mem_cons, List.not_mem_nil, or_false] at h
    rcases h with rfl | rfl | rfl | rfl
    · exact List.mem_cons_of_mem _ (digit_mem (first_lt a))
    · exact List.mem_cons_of_mem _ (digit_mem (second_lt a 0))
    · exact List.mem_cons_self
    · exact List.mem_cons_self
  | case3 a b =>
    simp only [List.mem_cons, List.not_mem_nil, or_false] at h
    rcases h with rfl | rfl | rfl | rfl
    · exact List.mem_cons_of_mem _ (digit_mem (first_lt a))
    · exact List.mem_cons_of_mem _ (digit_mem (second_lt a b))
    · exact List.mem_cons_of_mem _ (digit_mem (third_lt b 0))
    · exact List.mem_cons_self
  | case4 a b c rest ih =>
    simp only [List.mem_cons] at h
    rcases h with rfl | rfl | rfl | rfl | h
    · exact List.mem_cons_of_mem _ (digit_mem (first_lt a))
    · exact List.mem_cons_of_mem _ (digit_mem (second_lt a b))
    · exact List.mem_cons_of_mem _ (digit_mem (third_lt b c))
    · exact List.mem_cons_of_mem _ (digit_mem (fourth_lt c))
    · exact ih h

end Lyra.Lib.Base64
