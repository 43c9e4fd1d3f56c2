import Pqfh.Postgres.Value

/-! # Record fields

A numeric field of a record is a run of digits; the last byte of a negative number has the
bit 0x40 set (the sign overpunch). `numericField` writes a number as such a field, and
`fieldInt` reads it back. A character field is a text, filled with blanks.
-/

namespace Pqfh

/-- The sign bit 0x40 of a byte. -/
def signed (byte : Byte) : Bool := byte.val / 64 % 2 = 1

/-- `byte | 0x40`. -/
def setSign (byte : Byte) : Byte := if signed byte then byte else byte + 64

/-- `byte & ~0x40`. -/
def clearSign (byte : Byte) : Byte := if signed byte then byte - 64 else byte

/-- The field of `len` digits that holds a number. -/
def numericField (len : ℕ) (n : ℤ) : List Byte :=
  let digits := (Decimal.fixed len n.natAbs).map digitByte
  if n < 0 then digits.modify (len - 1) setSign else digits

/-- The digits of a numeric field. -/
def fieldDigits (field : List Byte) : List ℕ := field.map fun byte => byte.val % 16

/-- Whether a numeric field holds a negative number. -/
def negativeField (field : List Byte) : Bool := (field.getLast?.map signed).getD false

/-- The digits of a numeric field read as a whole number, with the sign. -/
def fieldInt (field : List Byte) : ℤ :=
  if negativeField field then -(Decimal.value (fieldDigits field))
  else Decimal.value (fieldDigits field)

/-- Digits, with the last byte optionally carrying the sign; negative zero is not written. -/
def NumericField (field : List Byte) : Prop :=
  (∀ byte ∈ field.dropLast, isDigit byte) ∧
    (∀ byte ∈ field.getLast?, isDigit (clearSign byte)) ∧
    ¬ (negativeField field ∧ fieldInt field = 0)

/-- A field that a COBOL program fills for a column. -/
def FieldOk (col : Column) (field : List Byte) : Prop :=
  match col.tp with
  | .numeric => col.dec < col.len ∧ NumericField field
  | .character => 0 ∉ field

instance (field : List Byte) : Decidable (NumericField field) :=
  inferInstanceAs (Decidable (_ ∧ _ ∧ ¬ _))

instance (col : Column) (field : List Byte) : Decidable (FieldOk col field) :=
  decidable_of_iff ((col.tp = .numeric ∧ col.dec < col.len ∧ NumericField field) ∨
    (col.tp = .character ∧ 0 ∉ field)) (by
      unfold FieldOk
      cases col.tp <;> simp)

/-- The value that a field stands for. -/
def fieldValue (col : Column) (field : List Byte) : Value :=
  match col.tp with
  | .numeric => .num (fieldInt field / 10 ^ col.dec)
  | .character => .chr (rtrim field)

/-! ## Bytes -/

/-- The byte of a digit is numbered from that of zero. -/
theorem digitByte_val {digit : ℕ} (decimal : digit < 10) : (digitByte digit).val = 48 + digit := by
  unfold digitByte
  rw [Fin.val_ofNat]
  omega

/-- The byte of a digit is a digit. -/
theorem isDigit_digitByte {digit : ℕ} (decimal : digit < 10) : isDigit (digitByte digit) := by
  rw [isDigit_iff, digitByte_val decimal]
  omega

/-- A digit is the byte of a number below ten. -/
theorem isDigit_iff_exists {byte : Byte} : isDigit byte ↔ ∃ digit < 10, byte = digitByte digit := by
  constructor
  · intro digit
    rw [isDigit_iff] at digit
    refine ⟨byte.val - 48, by omega, Fin.ext ?_⟩
    rw [digitByte_val (by omega)]
    omega
  · rintro ⟨digit, decimal, rfl⟩
    exact isDigit_digitByte decimal

/-- The low half of the byte is the digit. -/
theorem digitByte_low {digit : ℕ} (decimal : digit < 10) : (digitByte digit).val % 16 = digit := by
  rw [digitByte_val decimal]
  omega

/-- A digit carries no sign. -/
theorem not_signed_digitByte {digit : ℕ} (decimal : digit < 10) : ¬ signed (digitByte digit) := by
  unfold signed
  rw [digitByte_val decimal, decide_eq_true_iff]
  omega

/-- The sign adds 64 to the byte. -/
theorem setSign_digitByte_val {digit : ℕ} (decimal : digit < 10) :
    (setSign (digitByte digit)).val = 112 + digit := by
  unfold setSign
  rw [if_neg (not_signed_digitByte decimal), Fin.val_add, digitByte_val decimal]
  change (48 + digit + 64) % 256 = _
  omega

/-- A digit with the sign carries it. -/
theorem signed_setSign_digitByte {digit : ℕ} (decimal : digit < 10) :
    signed (setSign (digitByte digit)) := by
  unfold signed
  rw [setSign_digitByte_val decimal, decide_eq_true_iff]
  omega

/-- The sign that is set can be cleared. -/
theorem clearSign_setSign_digitByte {digit : ℕ} (decimal : digit < 10) :
    clearSign (setSign (digitByte digit)) = digitByte digit := by
  unfold clearSign
  rw [if_pos (signed_setSign_digitByte decimal)]
  apply Fin.ext
  rw [Fin.sub_def, digitByte_val decimal]
  change (256 - 64 + (setSign (digitByte digit)).val) % 256 = _
  rw [setSign_digitByte_val decimal]
  omega

/-- The sign that is cleared can be set. -/
theorem setSign_clearSign {byte : Byte} (negative : signed byte) :
    setSign (clearSign byte) = byte := by
  revert byte
  decide +kernel

/-! ## Numeric fields -/

/-- A number that fits fills its field. -/
theorem length_numericField {len : ℕ} {n : ℤ} (fits : n.natAbs < 10 ^ len) :
    (numericField len n).length = len := by
  unfold numericField
  by_cases negative : n < 0
  · simp only [negative, ↓reduceIte, List.length_modify, List.length_map, Decimal.length_fixed fits]
  · simp only [negative, ↓reduceIte, List.length_map, Decimal.length_fixed fits]

/-- The digits of a number in two parts, the last apart from the others. -/
theorem exists_last_digit {len : ℕ} {n : ℕ} (room : 0 < len) (fits : n < 10 ^ len) :
    ∃ front last, Decimal.fixed len n = front ++ [last] ∧ front.length = len - 1 ∧ last < 10 ∧
      ∀ digit ∈ front, digit < 10 := by
  have length := Decimal.length_fixed fits
  have decimal := Decimal.fixed_lt len n
  obtain ⟨front, last, shape⟩ := List.eq_nil_or_concat (Decimal.fixed len n) |>.resolve_left (by
    intro empty
    rw [empty] at length
    exact room.ne length)
  rw [List.concat_eq_append] at shape
  rw [shape] at length decimal
  refine ⟨front, last, shape, ?_, decimal last (by simp),
    fun digit member => decimal digit (by simp [member])⟩
  rw [List.length_append, List.length_singleton] at length
  omega

/-- The last byte is the one that is modified. -/
theorem modify_length (front : List Byte) (last : Byte) (f : Byte → Byte) :
    (front ++ [last]).modify front.length f = front ++ [f last] := by
  rw [List.modify_eq_take_drop, List.take_left, List.drop_left, List.modifyHead_cons]

/-- A numeric field, byte by byte. -/
theorem numericField_eq {len : ℕ} {n : ℤ} (room : 0 < len) (fits : n.natAbs < 10 ^ len) :
    ∃ front last, Decimal.fixed len n.natAbs = front ++ [last] ∧ last < 10 ∧
      (∀ digit ∈ front, digit < 10) ∧ front.length + 1 = len ∧
      numericField len n = front.map digitByte ++
        [if n < 0 then setSign (digitByte last) else digitByte last] := by
  obtain ⟨front, last, shape, length, decimal, decimals⟩ := exists_last_digit room fits
  refine ⟨front, last, shape, decimal, decimals, by omega, ?_⟩
  unfold numericField
  rw [shape, List.map_append, List.map_singleton]
  by_cases negative : n < 0
  · have place : len - 1 = (front.map digitByte).length := by
      rw [List.length_map, length]
    simp only [negative, ↓reduceIte]
    rw [place, modify_length]
  · simp only [negative, ↓reduceIte]

/-- The digits of the bytes of digits are the digits. -/
theorem map_low_digitByte {digits : List ℕ} (decimal : ∀ digit ∈ digits, digit < 10) :
    fieldDigits (digits.map digitByte) = digits := by
  unfold fieldDigits
  rw [List.map_map]
  conv_rhs => rw [← List.map_id digits]
  apply List.map_congr_left
  intro digit member
  exact digitByte_low (decimal digit member)

/-- The digits of two fields follow one another. -/
theorem fieldDigits_append (front back : List Byte) :
    fieldDigits (front ++ back) = fieldDigits front ++ fieldDigits back :=
  List.map_append

/-- The sign of a field is that of its last byte. -/
theorem negativeField_concat (front : List Byte) (last : Byte) :
    negativeField (front ++ [last]) = signed last := by
  unfold negativeField
  rw [List.getLast?_append, List.getLast?_singleton, Option.some_or, Option.map_some,
    Option.getD_some]

/-- A field is negative when its number is. -/
theorem negativeField_numericField {len : ℕ} {n : ℤ} (room : 0 < len)
    (fits : n.natAbs < 10 ^ len) : negativeField (numericField len n) = decide (n < 0) := by
  obtain ⟨front, last, _, decimal, _, _, field⟩ := numericField_eq room fits
  rw [field, negativeField_concat]
  by_cases negative : n < 0
  · simp only [negative, ↓reduceIte, decide_true, signed_setSign_digitByte decimal]
  · simp only [negative, ↓reduceIte, decide_false]
    exact Bool.eq_false_iff.mpr (not_signed_digitByte decimal)

/-- The digits of a field are those of the size of its number. -/
theorem fieldDigits_numericField {len : ℕ} {n : ℤ} (room : 0 < len)
    (fits : n.natAbs < 10 ^ len) :
    fieldDigits (numericField len n) = Decimal.fixed len n.natAbs := by
  obtain ⟨front, last, shape, decimal, decimals, _, field⟩ := numericField_eq room fits
  rw [field, fieldDigits_append, map_low_digitByte decimals, shape]
  congr 1
  simp only [fieldDigits, List.map_singleton, List.cons.injEq, and_true]
  by_cases negative : n < 0
  · rw [if_pos negative, setSign_digitByte_val decimal]
    omega
  · rw [if_neg negative, digitByte_low decimal]

/-- A number that fits is read back from its field. -/
theorem fieldInt_numericField {len : ℕ} {n : ℤ} (room : 0 < len) (fits : n.natAbs < 10 ^ len) :
    fieldInt (numericField len n) = n := by
  unfold fieldInt
  rw [negativeField_numericField room fits, fieldDigits_numericField room fits,
    Decimal.value_fixed]
  by_cases negative : n < 0
  · simp only [negative, decide_true, ↓reduceIte]
    omega
  · simp only [negative, decide_false, Bool.false_eq_true, ↓reduceIte]
    omega

/-- Every well-formed numeric field holds a number. -/
theorem NumericField.eq {field : List Byte} (wellFormed : NumericField field)
    (nonempty : field ≠ []) :
    field = numericField field.length (fieldInt field) ∧
      (fieldInt field).natAbs < 10 ^ field.length := by
  obtain ⟨digits, sign, zero⟩ := wellFormed
  obtain ⟨front, last, rfl⟩ : ∃ front last, field = front ++ [last] :=
    ⟨field.dropLast, field.getLast nonempty, (List.dropLast_append_getLast nonempty).symm⟩
  rw [List.dropLast_concat] at digits
  have sign' : isDigit (clearSign last) := sign last (by simp)
  obtain ⟨digit, decimal, clear⟩ := isDigit_iff_exists.mp sign'
  obtain ⟨values, shape, decimals⟩ : ∃ values : List ℕ, front = values.map digitByte ∧
      ∀ digit ∈ values, digit < 10 := by
    refine ⟨fieldDigits front, ?_, ?_⟩
    · unfold fieldDigits
      rw [List.map_map]
      conv_lhs => rw [← List.map_id front]
      apply List.map_congr_left
      intro byte member
      obtain ⟨digit, decimal, rfl⟩ := isDigit_iff_exists.mp (digits byte member)
      exact (congrArg digitByte (digitByte_low decimal)).symm
    · intro digit member
      obtain ⟨byte, present, rfl⟩ := List.mem_map.mp member
      obtain ⟨digit, decimal, rfl⟩ := isDigit_iff_exists.mp (digits byte present)
      rw [digitByte_low decimal]
      exact decimal
  have low : last.val % 16 = digit := by
    by_cases negative : signed last
    · have restored :
        last = setSign (digitByte digit) := by rw [← clear, setSign_clearSign negative]
      rw [restored, setSign_digitByte_val decimal]
      omega
    · unfold clearSign at clear
      rw [if_neg negative] at clear
      rw [clear, digitByte_low decimal]
  have read : fieldDigits (front ++ [last]) = values ++ [digit] := by
    rw [fieldDigits_append, shape, map_low_digitByte decimals]
    simp only [fieldDigits, List.map_singleton, low]
  have small : Decimal.value (values ++ [digit]) < 10 ^ (front ++ [last]).length := by
    have length : (front ++ [last]).length = (values ++ [digit]).length := by
      rw [shape, List.length_append, List.length_append, List.length_map]
      rfl
    rw [length]
    apply Decimal.value_lt
    intro d member
    rcases List.mem_append.mp member with member | member
    · exact decimals d member
    · rw [List.mem_singleton.mp member]
      exact decimal
  have size : (fieldInt (front ++ [last])).natAbs = Decimal.value (values ++ [digit]) := by
    unfold fieldInt
    rw [read]
    split <;> omega
  refine ⟨?_, size ▸ small⟩
  have fixed : Decimal.fixed (front ++ [last]).length (fieldInt (front ++ [last])).natAbs =
      values ++ [digit] := by
    rw [size]
    apply Decimal.eq_of_value_eq
    · rw [Decimal.length_fixed small, shape, List.length_append, List.length_append,
        List.length_map]
      rfl
    · exact Decimal.fixed_lt _ _
    · intro d member
      rcases List.mem_append.mp member with member | member
      · exact decimals d member
      · rw [List.mem_singleton.mp member]
        exact decimal
    · rw [Decimal.value_fixed]
  obtain ⟨front', last', shape', _, _, _, field⟩ :=
    numericField_eq (by simp) (size ▸ small : (fieldInt (front ++ [last])).natAbs < _)
  rw [fixed] at shape'
  obtain ⟨rfl, equal⟩ := List.append_inj' shape' rfl
  cases equal
  rw [field, ← shape]
  congr 2
  have bit := negativeField_concat front last
  by_cases negative : signed last
  · have below : fieldInt (front ++ [last]) < 0 := by
      have notZero : fieldInt (front ++ [last]) ≠ 0 :=
        fun none => zero ⟨by rw [bit]; exact negative, none⟩
      unfold fieldInt at notZero ⊢
      rw [bit, if_pos negative] at notZero ⊢
      omega
    rw [if_pos below, ← clear, setSign_clearSign negative]
  · have above : ¬ fieldInt (front ++ [last]) < 0 := by
      unfold fieldInt
      rw [bit, if_neg negative]
      omega
    unfold clearSign at clear
    rw [if_neg negative] at clear
    rw [if_neg above, clear]

end Pqfh
