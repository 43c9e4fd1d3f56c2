import Pqfh.Postgres.Value

/-! # Numerals

When a plain numeral is zero, what its sign is, and what a point put into it does.
-/

namespace Pqfh

/-- A text without a digit from 1 to 9. -/
def AllZero (text : List Byte) : Prop := ∀ byte ∈ text, isDigit byte → byte = 48

instance (text : List Byte) : Decidable (AllZero text) :=
  inferInstanceAs (Decidable (∀ byte ∈ text, _ → _))

theorem AllZero.append {front back : List Byte} :
    AllZero (front ++ back) ↔ AllZero front ∧ AllZero back :=
  List.forall_mem_append

theorem allZero_cons {first : Byte} {rest : List Byte} :
    AllZero (first :: rest) ↔ (isDigit first → first = 48) ∧ AllZero rest :=
  List.forall_mem_cons

theorem allZero_cons_of_not_digit {first : Byte} {rest : List Byte} (other : ¬ isDigit first) :
    AllZero (first :: rest) ↔ AllZero rest := by
  rw [allZero_cons]
  exact and_iff_right fun digit => (other digit).elim

/-- Digits stand for zero just when they all are. -/
theorem value_textDigits_eq_zero_iff {text : List Byte} (digits : ∀ byte ∈ text, isDigit byte) :
    Decimal.value (textDigits text) = 0 ↔ AllZero text := by
  rw [Decimal.value_eq_zero_iff]
  unfold textDigits
  rw [List.forall_mem_map]
  apply forall₂_congr
  intro byte member
  obtain ⟨low, _⟩ := isDigit_iff.mp (digits byte member)
  constructor
  · intro zero _
    apply Fin.ext
    change byte.val = 48
    omega
  · intro zero
    rw [zero (digits byte member)]
    rfl

/-! ## Unsigned numerals -/

/-- An unsigned numeral is a run of digits, or two with a point between them. -/
theorem unsignedNumeral_cases {text : List Byte} {number : ℚ}
    (denotes : unsignedNumeral text = some number) :
    (text ≠ [] ∧ (∀ byte ∈ text, isDigit byte) ∧
      number = (Decimal.value (textDigits text) : ℚ)) ∨
    ∃ int frac, text = int ++ 46 :: frac ∧ (∀ byte ∈ int ++ frac, isDigit byte) ∧
      int ++ frac ≠ [] ∧
      number = (Decimal.value (textDigits (int ++ frac)) / 10 ^ frac.length : ℚ) := by
  have split := List.takeWhile_append_dropWhile (p := isDigit) (l := text)
  have digits : ∀ byte ∈ text.takeWhile isDigit, isDigit byte :=
    fun byte member => List.mem_takeWhile_imp member
  simp only [unsignedNumeral] at denotes
  split at denotes
  · rename_i whole
    rw [whole, List.append_nil] at split
    rw [split] at denotes digits
    split at denotes
    · cases denotes
    · rename_i nonempty
      cases denotes
      exact Or.inl ⟨nonempty, digits, rfl⟩
  · rename_i point frac pointed
    split at denotes
    case isFalse => cases denotes
    case isTrue valid =>
      obtain ⟨rfl, decimals, nonempty⟩ := valid
      cases denotes
      refine Or.inr ⟨text.takeWhile isDigit, frac, ?_, ?_, ?_, rfl⟩
      · rw [← pointed, split]
      · intro byte member
        rcases List.mem_append.mp member with member | member
        · exact digits byte member
        · exact List.all_eq_true.mp decimals byte member
      · intro empty
        exact nonempty (List.append_eq_nil_iff.mp empty)

/-- Digits denote their value. -/
theorem unsignedNumeral_of_digits {text : List Byte} (nonempty : text ≠ [])
    (digits : ∀ byte ∈ text, isDigit byte) :
    unsignedNumeral text = some (Decimal.value (textDigits text) : ℚ) := by
  have taken : text.takeWhile isDigit = text := List.takeWhile_eq_self_iff.mpr digits
  have dropped : text.dropWhile isDigit = [] := List.dropWhile_eq_nil_iff.mpr digits
  simp only [unsignedNumeral, taken, dropped, nonempty, ↓reduceIte]

theorem not_isDigit_point : ¬ isDigit 46 := by decide

theorem unsignedNumeral_nonneg {text : List Byte} {number : ℚ}
    (denotes : unsignedNumeral text = some number) : 0 ≤ number := by
  rcases unsignedNumeral_cases denotes with ⟨_, _, rfl⟩ | ⟨_, _, _, _, _, rfl⟩
  · positivity
  · positivity

theorem unsignedNumeral_eq_zero_iff {text : List Byte} {number : ℚ}
    (denotes : unsignedNumeral text = some number) : number = 0 ↔ AllZero text := by
  rcases unsignedNumeral_cases denotes with ⟨_, digits, rfl⟩ | ⟨int, frac, rfl, digits, _, rfl⟩
  · rw [Nat.cast_eq_zero, value_textDigits_eq_zero_iff digits]
  · have scale : (10 ^ frac.length : ℚ) ≠ 0 := by positivity
    rw [div_eq_zero_iff, or_iff_left scale, Nat.cast_eq_zero, value_textDigits_eq_zero_iff digits,
      AllZero.append, AllZero.append, allZero_cons_of_not_digit not_isDigit_point]

/-- Taking the point out of a numeral multiplies it. -/
theorem unsignedNumeral_without_point {text : List Byte} {place : ℕ} {number : ℚ}
    (none : 46 ∉ text)
    (denotes : unsignedNumeral (text.take place ++ 46 :: text.drop place) = some number) :
    unsignedNumeral text = some (number * 10 ^ (text.length - place) : ℚ) := by
  rcases unsignedNumeral_cases denotes with
    ⟨_, digits, _⟩ | ⟨int, frac, shape, digits, nonempty, rfl⟩
  · exact absurd (digits 46 (by simp)) not_isDigit_point
  · obtain ⟨front, _, back⟩ := (List.append_cons_inj_of_notMem
      (fun member => none (List.mem_of_mem_take member))
      (fun member => none (List.mem_of_mem_drop member))).mp shape
    have whole : int ++ frac = text := by rw [← front, ← back, List.take_append_drop]
    have scale : frac.length = text.length - place := by rw [← back, List.length_drop]
    rw [whole] at digits nonempty
    rw [unsignedNumeral_of_digits nonempty digits, whole, scale,
      div_mul_cancel₀ _ (by positivity)]

/-! ## Signed numerals -/

theorem plainNumeral_cons (first : Byte) (rest : List Byte) :
    plainNumeral (first :: rest) =
      if first = 45 then (unsignedNumeral rest).map Neg.neg
      else if first = 43 then unsignedNumeral rest
      else unsignedNumeral (first :: rest) := rfl

/-- A numeral with a minus is not positive, any other not negative. -/
theorem plainNumeral_sign {text : List Byte} {number : ℚ}
    (denotes : plainNumeral text = some number) :
    (text.head? = some 45 → number ≤ 0) ∧ (text.head? ≠ some 45 → 0 ≤ number) := by
  cases text with
  | nil => cases denotes
  | cons first rest =>
      rw [plainNumeral_cons] at denotes
      rw [List.head?_cons, Option.some.injEq, ne_eq, Option.some.injEq]
      split at denotes
      · rename_i minus
        obtain ⟨positive, denoted, rfl⟩ := Option.map_eq_some_iff.mp denotes
        have nonneg := unsignedNumeral_nonneg denoted
        exact ⟨fun _ => neg_nonpos.mpr nonneg, fun plus => (plus minus).elim⟩
      · rename_i plus
        refine ⟨fun minus => (plus minus).elim, fun _ => ?_⟩
        split at denotes
        · exact unsignedNumeral_nonneg denotes
        · exact unsignedNumeral_nonneg denotes

theorem plainNumeral_eq_zero_iff {text : List Byte} {number : ℚ}
    (denotes : plainNumeral text = some number) : number = 0 ↔ AllZero text := by
  cases text with
  | nil => cases denotes
  | cons first rest =>
      rw [plainNumeral_cons] at denotes
      split at denotes
      · rename_i minus
        obtain ⟨positive, denoted, rfl⟩ := Option.map_eq_some_iff.mp denotes
        rw [neg_eq_zero, unsignedNumeral_eq_zero_iff denoted, minus,
          allZero_cons_of_not_digit (by decide)]
      · split at denotes
        · rename_i plus
          rw [unsignedNumeral_eq_zero_iff denotes, plus, allZero_cons_of_not_digit (by decide)]
        · exact unsignedNumeral_eq_zero_iff denotes

theorem unsignedNumeral_head {first : Byte} {rest : List Byte} {number : ℚ}
    (denotes : unsignedNumeral (first :: rest) = some number) : isDigit first ∨ first = 46 := by
  rcases unsignedNumeral_cases denotes with ⟨_, digits, _⟩ | ⟨int, frac, shape, digits, _, _⟩
  · exact Or.inl (digits first List.mem_cons_self)
  · cases int with
    | nil => exact Or.inr (List.cons.inj shape).1
    | cons digit int =>
        rw [(List.cons.inj shape).1]
        exact Or.inl (digits digit List.mem_cons_self)

theorem plainNumeral_of_unsigned {text : List Byte} {number : ℚ}
    (denotes : unsignedNumeral text = some number) : plainNumeral text = some number := by
  cases text with
  | nil => cases denotes
  | cons first rest =>
      have head := unsignedNumeral_head denotes
      have minus : first ≠ 45 := by
        rintro rfl
        exact absurd head (by decide)
      have plus : first ≠ 43 := by
        rintro rfl
        exact absurd head (by decide)
      rw [plainNumeral_cons, if_neg minus, if_neg plus, denotes]

/-- Taking the point out of a numeral multiplies it. -/
theorem plainNumeral_without_point {text : List Byte} {place : ℕ} {number : ℚ} (none : 46 ∉ text)
    (denotes : plainNumeral (text.take place ++ 46 :: text.drop place) = some number) :
    plainNumeral text = some (number * 10 ^ (text.length - place) : ℚ) := by
  match text, place with
  | [], _ =>
      rw [List.take_nil, List.drop_nil] at denotes
      exact absurd denotes
        (by rw [(by decide +kernel : plainNumeral ([] ++ [46]) = Option.none)]; exact nofun)
  | first :: rest, 0 =>
      exact plainNumeral_of_unsigned (unsignedNumeral_without_point none denotes)
  | first :: rest, place + 1 =>
      have none' : 46 ∉ rest := fun member => none (List.mem_cons_of_mem _ member)
      have length : (first :: rest).length - (place + 1) = rest.length - place := by
        rw [List.length_cons, Nat.add_sub_add_right]
      rw [List.take_succ_cons, List.drop_succ_cons, List.cons_append, plainNumeral_cons] at denotes
      rw [plainNumeral_cons]
      split at denotes
      · rename_i minus
        obtain ⟨positive, denoted, rfl⟩ := Option.map_eq_some_iff.mp denotes
        rw [if_pos minus, unsignedNumeral_without_point none' denoted, Option.map_some, length,
          neg_mul]
      · rename_i minus
        rw [if_neg minus]
        split at denotes
        · rename_i plus
          rw [if_pos plus, unsignedNumeral_without_point none' denotes, length]
        · rename_i plus
          rw [if_neg plus]
          exact unsignedNumeral_without_point none denotes

/-- A numeral has at most one point. -/
theorem plainNumeral_count_point {text : List Byte} {number : ℚ}
    (denotes : plainNumeral text = some number) : text.count 46 ≤ 1 := by
  have unsigned : ∀ {rest : List Byte} {positive : ℚ}, unsignedNumeral rest = some positive →
      rest.count 46 ≤ 1 := by
    intro rest positive denoted
    have digits : ∀ {part : List Byte}, (∀ byte ∈ part, isDigit byte) → part.count 46 = 0 :=
      fun all => List.count_eq_zero.mpr fun member => not_isDigit_point (all 46 member)
    rcases unsignedNumeral_cases denoted with ⟨_, all, _⟩ | ⟨int, frac, rfl, all, _, _⟩
    · rw [digits all]
      exact Nat.zero_le 1
    · rw [List.count_append, List.count_cons_self,
        digits fun byte member => all byte (List.mem_append_left _ member),
        digits fun byte member => all byte (List.mem_append_right _ member)]
  cases text with
  | nil => cases denotes
  | cons first rest =>
      rw [plainNumeral_cons] at denotes
      split at denotes
      · rename_i minus
        obtain ⟨positive, denoted, _⟩ := Option.map_eq_some_iff.mp denotes
        rw [List.count_cons_of_ne (by rw [minus]; decide)]
        exact unsigned denoted
      · split at denotes
        · rename_i plus
          rw [List.count_cons_of_ne (by rw [plus]; decide)]
          exact unsigned denotes
        · exact unsigned denotes

end Pqfh
