import Mathlib.Data.Nat.Digits.Lemmas

/-! # Decimal notation, most significant digit first

A number is written as the list of its decimal digits as they are read, from the left:
without leading zeros (`Decimal.canonical`) or filled with zeros to a width
(`Decimal.fixed`). Both are told apart by their length and their value only: of digit
lists of one length, each has a value of its own (`Decimal.eq_of_value_eq`).
-/

namespace Decimal

/-- The number that a list of digits denotes. -/
def value (digits : List ℕ) : ℕ := Nat.ofDigits 10 digits.reverse

/-- The digits of a number, with no leading zero but at least one digit. -/
def canonical (n : ℕ) : List ℕ := if n = 0 then [0] else (Nat.digits 10 n).reverse

/-- The digits of a number, filled with zeros on the left to a width. -/
def fixed (width n : ℕ) : List ℕ :=
  List.replicate (width - (Nat.digits 10 n).length) 0 ++ (Nat.digits 10 n).reverse

/-- No digits make nothing. -/
@[simp] theorem value_nil : value [] = 0 := rfl

/-- The digits in front count the powers of ten behind them. -/
theorem value_append (front back : List ℕ) :
    value (front ++ back) = value front * 10 ^ back.length + value back := by
  unfold value
  rw [List.reverse_append, Nat.ofDigits_append, List.length_reverse]
  ring

/-- The first digit counts the power of ten behind it. -/
theorem value_cons (digit : ℕ) (rest : List ℕ) :
    value (digit :: rest) = digit * 10 ^ rest.length + value rest := by
  have single : value [digit] = digit := by simp [value]
  rw [← List.singleton_append, value_append, single]

/-- Zeros make nothing. -/
theorem value_replicate_zero (n : ℕ) : value (List.replicate n 0) = 0 := by
  unfold value
  rw [List.reverse_replicate, Nat.ofDigits_replicate_zero]

/-- Zeros in front count nothing. -/
theorem value_zeros_append (n : ℕ) (digits : List ℕ) :
    value (List.replicate n 0 ++ digits) = value digits := by
  rw [value_append, value_replicate_zero, Nat.zero_mul, Nat.zero_add]

/-- Only zeros make nothing. -/
theorem value_eq_zero_iff {digits : List ℕ} : value digits = 0 ↔ ∀ digit ∈ digits, digit = 0 := by
  induction digits with
  | nil => exact iff_of_true rfl nofun
  | cons digit rest ih =>
      have positive : 10 ^ rest.length ≠ 0 := (Nat.pow_pos (by decide)).ne'
      rw [value_cons, List.forall_mem_cons, ← ih, Nat.add_eq_zero_iff, Nat.mul_eq_zero]
      exact and_congr_left fun _ => or_iff_left positive

/-- Digits make less than the power of ten of their number. -/
theorem value_lt {digits : List ℕ} (decimal : ∀ digit ∈ digits, digit < 10) :
    value digits < 10 ^ digits.length := by
  rw [← List.length_reverse]
  apply Nat.ofDigits_lt_base_pow_length (by decide)
  intro digit member
  exact decimal digit (List.mem_reverse.mp member)

/-- Digit lists of one length are told apart by their values. -/
theorem eq_of_value_eq {first second : List ℕ} (length : first.length = second.length)
    (decimal : ∀ digit ∈ first, digit < 10) (decimal' : ∀ digit ∈ second, digit < 10)
    (same : value first = value second) : first = second := by
  apply List.reverse_injective
  apply Nat.ofDigits_inj_of_len_eq (b := 10) (by decide)
  · rw [List.length_reverse, List.length_reverse, length]
  · intro digit member
    exact decimal digit (List.mem_reverse.mp member)
  · intro digit member
    exact decimal' digit (List.mem_reverse.mp member)
  · exact same

/-! ## Writing a number -/

/-- Mathlib's digits, read from the other end, make the number. -/
theorem value_digits_reverse (n : ℕ) : value (Nat.digits 10 n).reverse = n := by
  unfold value
  rw [List.reverse_reverse, Nat.ofDigits_digits]

/-- A number has a digit. -/
theorem canonical_ne_nil (n : ℕ) : canonical n ≠ [] := by
  unfold canonical
  by_cases zero : n = 0
  · rw [if_pos zero]
    exact List.cons_ne_nil _ _
  · rw [if_neg zero]
    intro empty
    exact Nat.digits_ne_nil_iff_ne_zero.mpr zero (List.reverse_eq_nil_iff.mp empty)

/-- The digits of a number make the number. -/
theorem value_canonical (n : ℕ) : value (canonical n) = n := by
  unfold canonical
  by_cases zero : n = 0
  · rw [if_pos zero, zero]
    rfl
  · rw [if_neg zero, value_digits_reverse]

/-- The digits of a number are below ten. -/
theorem canonical_lt (n : ℕ) : ∀ digit ∈ canonical n, digit < 10 := by
  intro digit member
  unfold canonical at member
  by_cases zero : n = 0
  · rw [if_pos zero, List.mem_singleton] at member
    omega
  · rw [if_neg zero, List.mem_reverse] at member
    exact Nat.digits_lt_base (by decide) member

/-- A number below a power of ten has no more digits than that. -/
theorem length_canonical_le {width n : ℕ} (room : 0 < width) (fits : n < 10 ^ width) :
    (canonical n).length ≤ width := by
  unfold canonical
  by_cases zero : n = 0
  · rw [if_pos zero]
    exact room
  · rw [if_neg zero, List.length_reverse]
    exact (Nat.digits_length_le_iff (by decide) n).mpr fits

/-- The digits of a fixed width make the number. -/
theorem value_fixed (width n : ℕ) : value (fixed width n) = n := by
  unfold fixed
  rw [value_zeros_append, value_digits_reverse]

/-- A number that fits has the width. -/
theorem length_fixed {width n : ℕ} (fits : n < 10 ^ width) : (fixed width n).length = width := by
  have short := (Nat.digits_length_le_iff (by decide : 1 < 10) n).mpr fits
  unfold fixed
  rw [List.length_append, List.length_replicate, List.length_reverse]
  omega

/-- The digits of a fixed width are below ten. -/
theorem fixed_lt (width n : ℕ) : ∀ digit ∈ fixed width n, digit < 10 := by
  intro digit member
  unfold fixed at member
  rcases List.mem_append.mp member with zero | member
  · rw [List.eq_of_mem_replicate zero]
    decide
  · exact Nat.digits_lt_base (by decide) (List.mem_reverse.mp member)

end Decimal
