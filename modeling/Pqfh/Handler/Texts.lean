import Pqfh.Handler.Params

/-! # What the texts of well-formed fields stand for

A field written with its point is the numeral of the field's value, unless the number is
negative: the sign takes the place of the first digit. So the value stored is the value of
the field just when a negative field starts with the digit 0
(`Pqfh.store_writeChars_iff`).
-/

namespace Pqfh

/-! ## Numerals of digits -/

/-- The digits of the bytes of digits are the digits. -/
theorem textDigits_map_digitByte {digits : List ℕ} (decimal : ∀ digit ∈ digits, digit < 10) :
    textDigits (digits.map digitByte) = digits := by
  unfold textDigits
  rw [List.map_map]
  conv_rhs => rw [← List.map_id digits]
  apply List.map_congr_left
  intro digit member
  rw [Function.comp_apply, digitByte_val (decimal digit member), Nat.add_sub_cancel_left, id]

/-- The bytes of digits are digits. -/
theorem all_isDigit {digits : List ℕ} (decimal : ∀ digit ∈ digits, digit < 10) :
    ∀ byte ∈ digits.map digitByte, isDigit byte := by
  intro byte member
  obtain ⟨digit, present, rfl⟩ := List.mem_map.mp member
  exact isDigit_digitByte (decimal digit present)

/-- Digits read as the number they write. -/
theorem unsignedNumeral_digits {digits : List ℕ} (decimal : ∀ digit ∈ digits, digit < 10)
    (nonempty : digits ≠ []) :
    unsignedNumeral (digits.map digitByte) = some (Decimal.value digits : ℚ) := by
  have all := all_isDigit decimal
  have taken : (digits.map digitByte).takeWhile isDigit = digits.map digitByte :=
    List.takeWhile_eq_self_iff.mpr all
  have dropped : (digits.map digitByte).dropWhile isDigit = [] :=
    List.dropWhile_eq_nil_iff.mpr all
  have some : digits.map digitByte ≠ [] := fun empty => nonempty (List.map_eq_nil_iff.mp empty)
  simp only [unsignedNumeral, taken, dropped, some, ↓reduceIte, textDigits_map_digitByte decimal]

/-- Digits with a point between them read as a decimal fraction. -/
theorem unsignedNumeral_point {int frac : List ℕ} (decimal : ∀ digit ∈ int, digit < 10)
    (decimal' : ∀ digit ∈ frac, digit < 10) (nonempty : int ++ frac ≠ []) :
    unsignedNumeral (int.map digitByte ++ 46 :: frac.map digitByte) =
      some (Decimal.value (int ++ frac) / 10 ^ frac.length : ℚ) := by
  have all := all_isDigit decimal
  have taken : (int.map digitByte ++ 46 :: frac.map digitByte).takeWhile isDigit =
      int.map digitByte := by
    rw [List.takeWhile_append_of_pos all]
    exact List.append_nil _
  have dropped : (int.map digitByte ++ 46 :: frac.map digitByte).dropWhile isDigit =
      46 :: frac.map digitByte := by
    rw [List.dropWhile_append_of_pos all]
    rfl
  have all' : (frac.map digitByte).all isDigit := List.all_eq_true.mpr (all_isDigit decimal')
  have some : ¬ (int.map digitByte = [] ∧ frac.map digitByte = []) := fun both =>
    nonempty (List.append_eq_nil_iff.mpr
      ⟨List.map_eq_nil_iff.mp both.1, List.map_eq_nil_iff.mp both.2⟩)
  have decimals : ∀ digit ∈ int ++ frac, digit < 10 := by
    intro digit member
    rcases List.mem_append.mp member with member | member
    · exact decimal digit member
    · exact decimal' digit member
  simp only [unsignedNumeral, taken, dropped, all', some, not_false_eq_true, and_self, ↓reduceIte,
    ← List.map_append, textDigits_map_digitByte decimals, List.length_map]

/-- A numeral that begins with a digit has no sign. -/
theorem plainNumeral_of_digit {digit : ℕ} {rest : List Byte} (decimal : digit < 10) :
    plainNumeral (digitByte digit :: rest) = unsignedNumeral (digitByte digit :: rest) := by
  have val := digitByte_val decimal
  have minus : digitByte digit ≠ 45 := by
    intro equal
    rw [equal] at val
    change 45 = 48 + digit at val
    omega
  have plus : digitByte digit ≠ 43 := by
    intro equal
    rw [equal] at val
    change 43 = 48 + digit at val
    omega
  simp only [plainNumeral, minus, plus, ↓reduceIte]

/-- A minus in front makes the number negative. -/
theorem plainNumeral_minus (rest : List Byte) :
    plainNumeral (45 :: rest) = (unsignedNumeral rest).map Neg.neg := rfl

/-! ## Storing numbers -/

/-- A number with few enough decimals is stored exactly. -/
theorem roundTo_exact (dec : ℕ) (n : ℤ) : roundTo dec (n / 10 ^ dec) = n / 10 ^ dec := by
  have scale : (10 ^ dec : ℚ) ≠ 0 := by positivity
  have half : ∀ m : ℤ, ⌊(m : ℚ) + 1 / 2⌋ = m := by
    intro m
    rw [Int.floor_eq_iff]
    constructor <;> linarith
  unfold roundTo
  split
  · rw [div_mul_cancel₀ _ scale, half]
  · have flipped : -(n / 10 ^ dec : ℚ) * 10 ^ dec = ((-n : ℤ) : ℚ) := by
      rw [neg_mul, div_mul_cancel₀ _ scale, Int.cast_neg]
    rw [flipped, half, Int.cast_neg, neg_div, neg_neg]

/-- A number with the decimals of its column is stored as it is. -/
theorem store_exact {pg : Postgres} {col : Column} (numeric : col.tp = .numeric) {text : List Byte}
    {n : ℤ} (denotes : plainNumeral text = some (n / 10 ^ col.dec : ℚ))
    (fits : n.natAbs < 10 ^ col.len) :
    pg.store col text = some (.num (n / 10 ^ col.dec)) := by
  have scale : (0 : ℚ) < 10 ^ col.dec := by positivity
  have small : |(n / 10 ^ col.dec : ℚ)| * 10 ^ col.dec < 10 ^ col.len := by
    rw [abs_div, abs_of_pos scale, div_mul_cancel₀ _ scale.ne', ← Int.cast_abs,
      Int.abs_eq_natAbs, Int.cast_natCast]
    exact_mod_cast fits
  simp only [Postgres.store, numeric, Postgres.numeral, denotes, roundTo_exact, small, ↓reduceIte]

/-! ## The text of a well-formed numeric field -/

/-- The point stands before the last byte, whatever it is. -/
theorem pointed_concat {col : Column} {front : List Byte}
    (length : front.length + 1 = col.len) (last : Byte) :
    pointed col (front ++ [last]) =
      (if 0 < col.dec then front.take (col.len - col.dec) ++ 46 :: front.drop (col.len - col.dec)
        else front) ++ [last] := by
  unfold pointed
  by_cases point : 0 < col.dec
  · rw [if_pos point, if_pos point, List.take_append_of_le_length (by omega),
      List.drop_append_of_le_length (by omega), List.append_assoc, List.cons_append]
  · rw [if_neg point, if_neg point]

/-- The sign of a negative number replaces the first character of its digits. -/
theorem writeChars_numericField {col : Column} (numeric : col.tp = .numeric)
    (digits : col.dec < col.len) {n : ℤ} (fits : n.natAbs < 10 ^ col.len) :
    writeChars col (numericField col.len n) =
      if n < 0 then (pointed col ((Decimal.fixed col.len n.natAbs).map digitByte)).set 0
        (if 1 < col.len then 45 else 48)
      else pointed col ((Decimal.fixed col.len n.natAbs).map digitByte) := by
  obtain ⟨front, last, shape, decimal, decimals, length, field⟩ :=
    numericField_eq col.len_pos fits
  have bit := negativeField_numericField col.len_pos fits
  have mapped : (front.map digitByte).length + 1 = col.len := by rw [List.length_map, length]
  unfold writeChars
  simp only [numeric, bit, decide_eq_true_iff]
  by_cases negative : n < 0
  · simp only [negative, ↓reduceIte] at field ⊢
    rw [field, shape, List.map_append, List.map_singleton, pointed_concat mapped,
      pointed_concat mapped]
    generalize chars : (if 0 < col.dec then (front.map digitByte).take (col.len - col.dec) ++
      46 :: (front.map digitByte).drop (col.len - col.dec) else front.map digitByte) = init
    have place : (if 0 < col.dec then col.len else col.len - 1) = init.length := by
      rw [← chars]
      split
      · rw [List.length_append, List.length_cons, List.length_take, List.length_drop]
        omega
      · omega
    rw [place]
    cases init with
    | nil =>
        -- a single digit: the sign is lost with it
        have single : ¬ 1 < col.len := by
          split at place <;> simp only [List.length_nil] at place <;> omega
        simp only [single, ↓reduceIte]
        rfl
    | cons first init =>
        simp only [List.cons_append, List.set_cons_zero]
        have modified := modify_length ((if 1 < col.len then 45 else 48) :: init)
          (setSign (digitByte last)) clearSign
        rw [clearSign_setSign_digitByte decimal] at modified
        exact modified
  · simp only [negative, ↓reduceIte] at field ⊢
    rw [field, shape, List.map_append, List.map_singleton]

/-- Digits with the point of a column are the number scaled down. -/
theorem plainNumeral_pointed {col : Column} (digits : col.dec < col.len) {values : List ℕ}
    (decimal : ∀ digit ∈ values, digit < 10) (length : values.length = col.len) :
    plainNumeral (pointed col (values.map digitByte)) =
      some (Decimal.value values / 10 ^ col.dec : ℚ) := by
  obtain ⟨first, rest, rfl⟩ := List.exists_cons_of_length_pos (length ▸ col.len_pos)
  unfold pointed
  by_cases point : 0 < col.dec
  · obtain ⟨k, before⟩ := Nat.exists_eq_succ_of_ne_zero (by omega : col.len - col.dec ≠ 0)
    have fracs : (first :: rest).drop (col.len - col.dec) ≠ [] := by
      apply List.ne_nil_of_length_pos
      rw [List.length_drop]
      omega
    have taken : ∀ digit ∈ (first :: rest).take (col.len - col.dec), digit < 10 :=
      fun digit member => decimal digit (List.mem_of_mem_take member)
    have dropped : ∀ digit ∈ (first :: rest).drop (col.len - col.dec), digit < 10 :=
      fun digit member => decimal digit (List.mem_of_mem_drop member)
    have numeral := unsignedNumeral_point taken dropped
      (List.append_ne_nil_of_right_ne_nil _ fracs)
    have scale : ((first :: rest).drop (col.len - col.dec)).length = col.dec := by
      rw [List.length_drop]
      omega
    rw [List.take_append_drop, scale] at numeral
    rw [if_pos point, ← List.map_take, ← List.map_drop, ← numeral, before, Nat.succ_eq_add_one,
      List.take_succ_cons, List.map_cons, List.cons_append]
    exact plainNumeral_of_digit (decimal first List.mem_cons_self)
  · have whole : col.dec = 0 := by omega
    rw [if_neg point, whole, pow_zero, div_one, ← unsignedNumeral_digits decimal (by simp),
      List.map_cons]
    exact plainNumeral_of_digit (decimal first List.mem_cons_self)

/-- With the first digit replaced by a minus sign, the digits after it count. -/
theorem plainNumeral_set_minus {col : Column} (digits : col.dec < col.len) {first : ℕ}
    {rest : List ℕ} (decimal : ∀ digit ∈ first :: rest, digit < 10)
    (length : (first :: rest).length = col.len) :
    plainNumeral ((pointed col ((first :: rest).map digitByte)).set 0
      (if 1 < col.len then 45 else 48)) = some (-Decimal.value rest / 10 ^ col.dec : ℚ) := by
  have decimal' : ∀ digit ∈ rest, digit < 10 :=
    fun digit member => decimal digit (List.mem_cons_of_mem _ member)
  rw [List.length_cons] at length
  unfold pointed
  by_cases point : 0 < col.dec
  · obtain ⟨k, before⟩ := Nat.exists_eq_succ_of_ne_zero (by omega : col.len - col.dec ≠ 0)
    have fracs : rest.drop k ≠ [] := by
      apply List.ne_nil_of_length_pos
      rw [List.length_drop]
      omega
    have scale : (rest.drop k).length = col.dec := by
      rw [List.length_drop]
      omega
    have taken : ∀ digit ∈ rest.take k, digit < 10 :=
      fun digit member => decimal' digit (List.mem_of_mem_take member)
    have dropped : ∀ digit ∈ rest.drop k, digit < 10 :=
      fun digit member => decimal' digit (List.mem_of_mem_drop member)
    have numeral := unsignedNumeral_point taken dropped
      (List.append_ne_nil_of_right_ne_nil _ fracs)
    rw [List.take_append_drop, scale] at numeral
    rw [if_pos point, if_pos (by omega), ← List.map_take, ← List.map_drop, before,
      Nat.succ_eq_add_one, List.take_succ_cons, List.drop_succ_cons, List.map_cons,
      List.cons_append, List.set_cons_zero, plainNumeral_minus, numeral, Option.map_some,
      neg_div]
  · have whole : col.dec = 0 := by omega
    rw [if_neg point, List.map_cons, List.set_cons_zero, whole, pow_zero, div_one]
    by_cases more : 1 < col.len
    · rw [if_pos more, plainNumeral_minus, unsignedNumeral_digits decimal'
        (List.ne_nil_of_length_pos (by omega)), Option.map_some]
    · have empty : rest = [] := List.length_eq_zero_iff.mp (by omega)
      rw [if_neg more, empty]
      decide +kernel

/-- A negative number whose first digit is not 0 loses it on the way. -/
def SignFits (field : List Byte) : Prop :=
  negativeField field = true → (fieldDigits field).head? = some 0

instance (field : List Byte) : Decidable (SignFits field) := inferInstanceAs (Decidable (_ → _))

/-- The number that WRITE writes for a well-formed numeric field. -/
theorem plainNumeral_writeChars {col : Column} (numeric : col.tp = .numeric)
    (digits : col.dec < col.len) {n : ℤ} (fits : n.natAbs < 10 ^ col.len) :
    ∃ m : ℤ, plainNumeral (writeChars col (numericField col.len n)) = some (m / 10 ^ col.dec : ℚ) ∧
      m.natAbs < 10 ^ col.len ∧
      (m = n ↔ (n < 0 → (Decimal.fixed col.len n.natAbs).head? = some 0)) := by
  have decimal := Decimal.fixed_lt col.len n.natAbs
  have length := Decimal.length_fixed fits
  have value := Decimal.value_fixed col.len n.natAbs
  rw [writeChars_numericField numeric digits fits]
  generalize Decimal.fixed col.len n.natAbs = values at decimal length value ⊢
  by_cases negative : n < 0
  · obtain ⟨first, rest, rfl⟩ := List.exists_cons_of_length_pos (length ▸ col.len_pos)
    have numeral := plainNumeral_set_minus digits decimal length
    rw [Decimal.value_cons] at value
    refine ⟨-(Decimal.value rest : ℤ), ?_, ?_, ?_⟩
    · rw [if_pos negative, numeral]
      push_cast
      rfl
    · omega
    · have positive : 0 < 10 ^ rest.length := Nat.pow_pos (by decide)
      simp only [negative, true_imp_iff, List.head?_cons, Option.some.injEq]
      constructor
      · intro equal
        have product : first * 10 ^ rest.length = 0 := by omega
        exact (Nat.mul_eq_zero.mp product).resolve_right positive.ne'
      · rintro rfl
        omega
  · refine ⟨n, ?_, fits, by simp only [negative, false_imp_iff]⟩
    rw [if_neg negative, plainNumeral_pointed digits decimal length, value]
    congr 2
    rw [← Int.cast_natCast, Int.natAbs_of_nonneg (by omega)]

/-- What is stored for a well-formed numeric field. -/
theorem store_writeChars_numericField (pg : Postgres) {col : Column} (numeric : col.tp = .numeric)
    (digits : col.dec < col.len) {n : ℤ} (fits : n.natAbs < 10 ^ col.len) :
    ∃ m : ℤ, pg.store col (writeChars col (numericField col.len n)) =
        some (.num (m / 10 ^ col.dec)) ∧
      (m = n ↔ (n < 0 → (Decimal.fixed col.len n.natAbs).head? = some 0)) := by
  obtain ⟨m, numeral, small, same⟩ := plainNumeral_writeChars numeric digits fits
  exact ⟨m, store_exact numeric numeral small, same⟩

/-- The sign of a well-formed field fits when the digits of its number begin with 0. -/
theorem signFits_numericField {len : ℕ} {n : ℤ} (room : 0 < len) (fits : n.natAbs < 10 ^ len) :
    SignFits (numericField len n) ↔ (n < 0 → (Decimal.fixed len n.natAbs).head? = some 0) := by
  unfold SignFits
  rw [negativeField_numericField room fits, decide_eq_true_iff, fieldDigits_numericField room fits]

/-- A field is stored with its own value just when its sign fits: for a negative number,
when its first digit is 0. -/
theorem store_writeChars_iff {pg : Postgres} {col : Column} {field : List Byte}
    (wellFormed : FieldOk col field) (full : field.length = col.len) :
    pg.store col (writeChars col field) = some (fieldValue col field) ↔
      (col.tp = .numeric → SignFits field) := by
  unfold FieldOk at wellFormed
  cases type : col.tp with
  | numeric =>
      simp only [type] at wellFormed
      obtain ⟨digits, wellFormed⟩ := wellFormed
      obtain ⟨shape, fits⟩ := wellFormed.eq (List.ne_nil_of_length_pos (full ▸ col.len_pos))
      rw [full] at shape fits
      obtain ⟨m, stored, same⟩ := store_writeChars_numericField pg type digits fits
      have sign := signFits_numericField col.len_pos fits
      rw [← shape] at sign
      have scale : (10 ^ col.dec : ℚ) ≠ 0 := by positivity
      rw [← shape] at stored
      rw [stored, sign, ← same]
      simp only [fieldValue, type, Option.some.injEq, Value.num.injEq, true_imp_iff]
      rw [div_left_inj' scale, Int.cast_inj]
  | character =>
      simp only [Postgres.store, writeChars, fieldValue, type, reduceCtorEq, false_imp_iff,
        iff_true]
      rw [List.drop_eq_nil_of_le full.le, List.take_of_length_le full.le]
      rfl

/-- A field whose sign fits denotes its own value. -/
theorem denote_writeChars {pg : Postgres} {col : Column} {field : List Byte}
    (wellFormed : FieldOk col field) (full : field.length = col.len)
    (sign : col.tp = .numeric → SignFits field) :
    pg.denote col (writeChars col field) = some (fieldValue col field) := by
  unfold FieldOk at wellFormed
  unfold Postgres.denote fieldValue
  cases type : col.tp with
  | numeric =>
      simp only [type] at wellFormed ⊢
      obtain ⟨digits, wellFormed⟩ := wellFormed
      obtain ⟨shape, fits⟩ := wellFormed.eq (List.ne_nil_of_length_pos (full ▸ col.len_pos))
      rw [full] at shape fits
      obtain ⟨m, numeral, _, same⟩ := plainNumeral_writeChars type digits fits
      have fitting := signFits_numericField col.len_pos fits
      rw [← shape] at numeral fitting
      rw [Postgres.numeral, numeral, same.mpr (fitting.mp (sign type))]
      rfl
  | character =>
      simp only [writeChars, type]

/-! ## The check leaves well-formed texts alone -/

/-- Digits are passed over by the check of a number. -/
theorem scanNumero_digits {real sinal decimal : Bool} {rest : List Byte} :
    ∀ {digits : List ℕ}, (∀ digit ∈ digits, digit < 10) →
      scanNumero real sinal decimal (digits.map digitByte ++ rest) =
        scanNumero real sinal decimal rest := by
  intro digits
  induction digits with
  | nil => intro _; rfl
  | cons digit digits ih =>
      intro decimals
      rw [List.map_cons, List.cons_append, scanNumero,
        if_pos (isDigit_digitByte (decimals digit List.mem_cons_self))]
      exact ih fun other member => decimals other (List.mem_cons_of_mem _ member)

/-- A text that passes the check has no NUL in it. -/
theorem scanNumero_clean {real : Bool} :
    ∀ {text : List Byte} {sinal decimal : Bool}, scanNumero real sinal decimal text → 0 ∉ text := by
  intro text
  induction text with
  | nil => intro _ _ _; exact List.not_mem_nil
  | cons p text ih =>
      intro sinal decimal valid member
      have nonzero : p ≠ 0 := by
        rintro rfl
        simp [scanNumero, isDigit] at valid
      have later : 0 ∈ text := by
        rcases List.mem_cons.mp member with equal | later
        · exact (nonzero equal.symm).elim
        · exact later
      unfold scanNumero at valid
      split at valid
      · exact ih valid later
      · split at valid
        · exact ih valid later
        · split at valid
          · exact ih valid later
          · cases valid

/-- Only characters of numerals pass the check. -/
theorem scanNumero_numeralChar {real : Bool} :
    ∀ {text : List Byte} {sinal decimal : Bool}, scanNumero real sinal decimal text →
      text.all numeralChar = true := by
  intro text
  induction text with
  | nil => intro _ _ _; rfl
  | cons p text ih =>
      intro sinal decimal valid
      rw [List.all_cons, Bool.and_eq_true]
      unfold numeralChar
      unfold scanNumero at valid
      split at valid
      · rename_i digit
        exact ⟨by rw [digit]; rfl, ih valid⟩
      · split at valid
        · rename_i sign
          refine ⟨?_, ih valid⟩
          rcases Bool.or_eq_true_iff.mp (Bool.and_eq_true_iff.mp sign).2 with minus | plus
          · simp only [minus, Bool.or_true, Bool.true_or]
          · simp only [plus, Bool.or_true, Bool.true_or]
        · split at valid
          · rename_i point
            refine ⟨?_, ih valid⟩
            have dot := (Bool.and_eq_true_iff.mp (Bool.and_eq_true_iff.mp point).1).2
            simp only [dot, Bool.or_true]
          · cases valid

/-- A number that passes where a point was met before passes anywhere. -/
theorem scanNumero_decimal {real : Bool} :
    ∀ {text : List Byte} {sinal : Bool} (decimal : Bool), scanNumero real sinal true text →
      scanNumero real sinal decimal text := by
  intro text
  induction text with
  | nil => intro _ _ _; rfl
  | cons p text ih =>
      intro sinal decimal valid
      unfold scanNumero at valid ⊢
      split at valid
      · rename_i digit
        rw [if_pos digit]
        exact ih decimal valid
      · rename_i other
        rw [if_neg other]
        split at valid
        · rename_i sign
          rw [if_pos sign]
          exact ih decimal valid
        · simp only [Bool.not_true, Bool.false_and, Bool.false_eq_true, ↓reduceIte] at valid

/-- A number that passes the check still passes without its point. -/
theorem scanNumero_without_point {real : Bool} {back : List Byte} :
    ∀ {front : List Byte} {sinal decimal : Bool}, 46 ∉ front →
      scanNumero real sinal decimal (front ++ 46 :: back) →
      scanNumero real sinal decimal (front ++ back) := by
  intro front
  induction front with
  | nil =>
      intro sinal decimal _ valid
      have point : scanNumero real sinal decimal (46 :: back) =
          if !decimal && real then scanNumero real sinal true back else false := by
        simp [scanNumero, isDigit]
      rw [List.nil_append, point] at valid
      split at valid
      · exact scanNumero_decimal decimal valid
      · cases valid
  | cons p front ih =>
      intro sinal decimal none valid
      have none' : 46 ∉ front := fun member => none (List.mem_cons_of_mem _ member)
      rw [List.cons_append] at valid ⊢
      unfold scanNumero at valid ⊢
      split at valid
      · rename_i digit
        rw [if_pos digit]
        exact ih none' valid
      · rename_i other
        rw [if_neg other]
        split at valid
        · rename_i sign
          rw [if_pos sign]
          exact ih none' valid
        · rename_i plain
          rw [if_neg plain]
          split at valid
          · rename_i point
            rw [if_pos point]
            exact ih none' valid
          · cases valid

/-- A number that passes the check is read as a plain numeral or not at all. -/
theorem numeral_eq_plainNumeral {pg : Postgres} {real : Bool} {text : List Byte}
    (valid : scanNumero real false false text) : pg.numeral text = plainNumeral text := by
  unfold Postgres.numeral
  split
  · rename_i number denotes
    exact denotes.symm
  · rename_i none
    rw [none]
    exact pg.other_plain text (scanNumero_numeralChar valid)

/-- Nothing but digits passes the check. -/
theorem scanNumero_all_digits (real sinal decimal : Bool) {digits : List ℕ}
    (decimals : ∀ digit ∈ digits, digit < 10) :
    scanNumero real sinal decimal (digits.map digitByte) := by
  rw [← List.append_nil (digits.map digitByte), scanNumero_digits decimals]
  rfl

/-- Digits with one point between them pass the check of a real number. -/
theorem scanNumero_point (sinal : Bool) {int frac : List ℕ}
    (decimals : ∀ digit ∈ int, digit < 10) (decimals' : ∀ digit ∈ frac, digit < 10) :
    scanNumero true sinal false (int.map digitByte ++ 46 :: frac.map digitByte) := by
  have after := scanNumero_all_digits true sinal true decimals'
  rw [scanNumero_digits decimals]
  cases sinal with
  | false => simpa [scanNumero, isDigit] using after
  | true => simpa [scanNumero, isDigit] using after

/-- One minus is passed over. -/
theorem scanNumero_minus (real decimal : Bool) (rest : List Byte) :
    scanNumero real false decimal (45 :: rest) = scanNumero real true decimal rest := by
  simp [scanNumero, isDigit]

/-- Digits with the point of their column pass the check. -/
theorem scanNumero_pointed {col : Column} {values : List ℕ}
    (decimals : ∀ digit ∈ values, digit < 10) :
    scanNumero (0 < col.dec) false false (pointed col (values.map digitByte)) := by
  unfold pointed
  by_cases point : 0 < col.dec
  · rw [if_pos point, ← List.map_take, ← List.map_drop, decide_eq_true point]
    exact scanNumero_point false (fun digit member => decimals digit (List.mem_of_mem_take member))
      (fun digit member => decimals digit (List.mem_of_mem_drop member))
  · rw [if_neg point]
    exact scanNumero_all_digits _ _ _ decimals

/-- Digits whose first one is overwritten by the sign pass the check. -/
theorem scanNumero_set_minus {col : Column} (digits : col.dec < col.len) {first : ℕ}
    {rest : List ℕ} (decimals : ∀ digit ∈ first :: rest, digit < 10)
    (length : (first :: rest).length = col.len) :
    scanNumero (0 < col.dec) false false ((pointed col ((first :: rest).map digitByte)).set 0
      (if 1 < col.len then 45 else 48)) := by
  have decimals' : ∀ digit ∈ rest, digit < 10 :=
    fun digit member => decimals digit (List.mem_cons_of_mem _ member)
  unfold pointed
  by_cases point : 0 < col.dec
  · obtain ⟨k, before⟩ := Nat.exists_eq_succ_of_ne_zero (by omega : col.len - col.dec ≠ 0)
    rw [if_pos point, if_pos (by omega), ← List.map_take, ← List.map_drop, before,
      Nat.succ_eq_add_one, List.take_succ_cons, List.drop_succ_cons, List.map_cons,
      List.cons_append, List.set_cons_zero, scanNumero_minus, decide_eq_true point]
    exact scanNumero_point true (fun digit member => decimals' digit (List.mem_of_mem_take member))
      (fun digit member => decimals' digit (List.mem_of_mem_drop member))
  · rw [if_neg point, List.map_cons, List.set_cons_zero]
    by_cases more : 1 < col.len
    · rw [if_pos more, scanNumero_minus]
      exact scanNumero_all_digits _ _ _ decimals'
    · rw [if_neg more]
      have zero : ∀ digit ∈ 0 :: rest, digit < 10 :=
        List.forall_mem_cons.mpr ⟨by decide, decimals'⟩
      change scanNumero _ _ _ ((0 :: rest).map digitByte) = true
      exact scanNumero_all_digits _ _ _ zero

/-- The point adds a byte to the field. -/
theorem length_pointed {col : Column} {field : List Byte} (full : field.length = col.len) :
    (pointed col field).length = if 0 < col.dec then col.len + 1 else col.len := by
  have small := col.dec_le
  unfold pointed
  split
  · rw [List.length_append, List.length_cons, List.length_take, List.length_drop]
    omega
  · exact full

/-- WRITE sends a byte more than the field when the column has decimals. -/
theorem length_writeChars {col : Column} {field : List Byte} (full : field.length = col.len) :
    (writeChars col field).length =
      if col.tp = .numeric ∧ 0 < col.dec then col.len + 1 else col.len := by
  unfold writeChars
  cases type : col.tp with
  | numeric =>
      simp only [true_and]
      split
      · rw [List.length_modify, List.length_set, length_pointed full]
      · exact length_pointed full
  | character => simpa only [reduceCtorEq, false_and, ↓reduceIte] using full

/-- The text of a well-formed field passes the check unchanged. -/
theorem checked_write (chave : Bool) {col : Column} {field : List Byte}
    (wellFormed : FieldOk col field) (full : field.length = col.len) :
    (Param.write col chave).checked field = (writeChars col field, false) ∧
      0 ∉ writeChars col field := by
  unfold FieldOk at wellFormed
  unfold Param.checked Param.write writeBlock
  cases type : col.tp with
  | numeric =>
      simp only [type] at wellFormed ⊢
      obtain ⟨digits, wellFormed⟩ := wellFormed
      obtain ⟨shape, fits⟩ := wellFormed.eq (List.ne_nil_of_length_pos (full ▸ col.len_pos))
      rw [full] at shape fits
      have decimal := Decimal.fixed_lt col.len (fieldInt field).natAbs
      have length := Decimal.length_fixed fits
      have valid : scanNumero (0 < col.dec) false false (writeChars col field) := by
        rw [shape, writeChars_numericField type digits fits]
        by_cases negative : fieldInt field < 0
        · rw [if_pos negative]
          obtain ⟨first, rest, values⟩ := List.exists_cons_of_length_pos (length ▸ col.len_pos)
          rw [values] at decimal length ⊢
          exact scanNumero_set_minus digits decimal length
        · rw [if_neg negative]
          exact scanNumero_pointed decimal
      have clean := scanNumero_clean valid
      have nonempty : writeChars col field ≠ [] := by
        apply List.ne_nil_of_length_pos
        have positive := col.len_pos
        rw [length_writeChars full]
        split <;> omega
      refine ⟨?_, clean⟩
      rw [cstr_append_zero clean]
      simp only [validaNumero, nonempty, ↓reduceIte, valid]
  | character =>
      have same : writeChars col field = field := by
        unfold writeChars
        simp only [type]
      simp only [type] at wellFormed ⊢
      rw [same]
      exact ⟨by rw [cstr_append_zero wellFormed], wellFormed⟩

/-! ## Stored values -/

/-- What a column stores, it can hold. -/
theorem store_fits {pg : Postgres} {col : Column} {text : List Byte} {value : Value}
    (clean : 0 ∉ text) (stored : pg.store col text = some value) :
    value.Fits col ∧ value ≠ .null := by
  unfold Postgres.store at stored
  cases type : col.tp with
  | numeric =>
      simp only [type] at stored
      split at stored
      · cases stored
      · rename_i number _
        split at stored
        case isFalse => cases stored
        case isTrue small =>
          cases stored
          have scale : (0 : ℚ) < 10 ^ col.dec := by positivity
          obtain ⟨scaled, shape⟩ : ∃ scaled : ℤ, roundTo col.dec number =
              scaled / 10 ^ col.dec := by
            unfold roundTo
            split
            · exact ⟨_, rfl⟩
            · exact ⟨-⌊-number * 10 ^ col.dec + 1 / 2⌋, by push_cast; ring⟩
          refine ⟨⟨type, scaled, shape, ?_⟩, Value.noConfusion⟩
          rw [shape, abs_div, abs_of_pos scale, div_mul_cancel₀ _ scale.ne', ← Int.cast_abs,
            Int.abs_eq_natAbs, Int.cast_natCast] at small
          exact_mod_cast small
  | character =>
      simp only [type] at stored
      split at stored
      case isFalse => cases stored
      case isTrue =>
        cases stored
        have sub : rtrim (text.take col.len) <+: text.take col.len := List.rdropWhile_prefix _ _
        refine ⟨⟨type, ?_, ?_, ?_⟩, Value.noConfusion⟩
        · have short := sub.length_le
          rw [List.length_take] at short
          omega
        · exact List.rdropWhile_idempotent _ _
        · intro member
          exact clean (List.mem_of_mem_take (sub.subset member))

end Pqfh
