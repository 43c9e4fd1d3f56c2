import Pqfh.Table.Field

/-! # From a row to the record area

`pq2cob` writes the texts of a row over the record area, column by column: numbers as
digits filled with zeros, the sign as an overpunch, texts filled with blanks.

`Pqfh.fieldBytes_eq_iff`: a column reads back as a well-formed field just when its value
is the value of that field. `Pqfh.readsBack_iff` takes a row apart into its columns.
-/

namespace Pqfh

/-- The digits that `pq2cob` writes for a number without its sign, `col->len` of them,
filled with zeros. A text that does not fit makes a length negative. -/
def digitBytes (col : Column) (p : List Byte) : Except Stop (List Byte) :=
  let len := p.length
  if col.dec = 0 then
    if len ≤ col.len then .ok (List.replicate (col.len - len) 48 ++ p) else .error .undefined
  else
    if len ≤ col.len + 1 ∧ col.dec + 1 ≤ len then
      .ok (List.replicate (col.len + 1 - len) 48 ++ p.take (len - col.dec - 1) ++
        p.drop (len - col.dec))
    else .error .undefined

/-- The bytes that `pq2cob` writes for a column with a text, `col->len` of them. -/
def fieldBytes (col : Column) (text : List Byte) : Except Stop (List Byte) :=
  match col.tp with
  | .numeric =>
      if text.head? = some 45 then
        (fun bytes => bytes.modify (col.len - 1) setSign) <$> digitBytes col text.tail
      else digitBytes col text
  | .character =>
      if text.length ≤ col.len then .ok (blankFill col.len text) else .error .undefined

/-- The loop of `pq2cob` from the column at `offset` on. -/
def pq2cobFrom : List Column → Row → ℕ → List Byte → Except Stop (List Byte)
  | [], _, _, record => .ok record
  | _ :: _, [], _, _ => .error .undefined
  | col :: cols, value :: row, offset, record => do
      let bytes ← fieldBytes col (printValue col value)
      let record ← writeAt record offset bytes
      pq2cobFrom cols row (offset + col.len) record

/-- `pq2cob`. -/
def pq2cob (cols : List Column) (row : Row) (record : List Byte) : Except Stop (List Byte) :=
  pq2cobFrom cols row 0 record

/-- The rows a table can hold. -/
def RowFits (cols : List Column) (row : Row) : Prop := List.Forall₂ Value.Fits cols row

/-! ## One column -/

theorem isDigit_printNat_head (dec n : ℕ) : ∃ digit rest, digit < 10 ∧
    printNat dec n = digitByte digit :: rest := by
  have first : ∀ m, ∃ digit rest, digit < 10 ∧ Decimal.canonical m = digit :: rest := by
    intro m
    obtain ⟨digit, rest, shape⟩ := List.exists_cons_of_ne_nil (Decimal.canonical_ne_nil m)
    exact ⟨digit, rest, Decimal.canonical_lt m digit (by rw [shape]; simp), shape⟩
  unfold printNat
  by_cases whole : dec = 0
  · obtain ⟨digit, rest, decimal, shape⟩ := first n
    refine ⟨digit, rest.map digitByte, decimal, ?_⟩
    rw [if_pos whole, shape, List.map_cons]
  · obtain ⟨digit, rest, decimal, shape⟩ := first (n / 10 ^ dec)
    refine ⟨digit, rest.map digitByte ++
      46 :: (Decimal.fixed dec (n % 10 ^ dec)).map digitByte, decimal, ?_⟩
    rw [if_neg whole, shape, List.map_cons, List.cons_append]

theorem digitByte_ne_minus {digit : ℕ} (decimal : digit < 10) : digitByte digit ≠ 45 := by
  intro equal
  have small := digitByte_val decimal
  rw [equal] at small
  change 45 = 48 + digit at small
  omega

/-- Digits filled with zeros on the left are the digits of the number at that width. -/
theorem zeros_append_eq_fixed (width : ℕ) {digits : List ℕ} (decimal : ∀ digit ∈ digits, digit < 10)
    (short : digits.length ≤ width) :
    (List.replicate (width - digits.length) 48 ++ digits.map digitByte : List Byte) =
      (Decimal.fixed width (Decimal.value digits)).map digitByte := by
  have zeros : (List.replicate (width - digits.length) 48 : List Byte) =
      (List.replicate (width - digits.length) 0).map digitByte := by
    rw [List.map_replicate]
    rfl
  have decimals : ∀ digit ∈ List.replicate (width - digits.length) 0 ++ digits, digit < 10 := by
    intro digit member
    rcases List.mem_append.mp member with zero | member
    · rw [List.eq_of_mem_replicate zero]
      decide
    · exact decimal digit member
  have length : (List.replicate (width - digits.length) 0 ++ digits).length = width := by
    rw [List.length_append, List.length_replicate]
    omega
  have value := Decimal.value_zeros_append (width - digits.length) digits
  have small := Decimal.value_lt decimals
  rw [length, value] at small
  rw [zeros, ← List.map_append]
  congr 1
  apply Decimal.eq_of_value_eq
  · rw [length, Decimal.length_fixed small]
  · exact decimals
  · exact Decimal.fixed_lt _ _
  · rw [value, Decimal.value_fixed]

/-- The digits before and after the point of a number with `dec` decimals. -/
theorem value_canonical_append_fixed (dec m : ℕ) :
    Decimal.value (Decimal.canonical (m / 10 ^ dec) ++ Decimal.fixed dec (m % 10 ^ dec)) = m := by
  have small : m % 10 ^ dec < 10 ^ dec := Nat.mod_lt _ (Nat.pow_pos (by decide))
  rw [Decimal.value_append, Decimal.value_canonical, Decimal.value_fixed,
    Decimal.length_fixed small]
  exact Nat.div_add_mod' m (10 ^ dec)

theorem length_canonical_div_le {len dec m : ℕ} (digits : dec < len) (fits : m < 10 ^ len) :
    (Decimal.canonical (m / 10 ^ dec)).length ≤ len - dec := by
  apply Decimal.length_canonical_le (by omega)
  rw [Nat.div_lt_iff_lt_mul (Nat.pow_pos (by decide)), ← Nat.pow_add]
  have whole : len - dec + dec = len := by omega
  rw [whole]
  exact fits

/-- A number printed without a sign is copied as the digits of the field. -/
theorem digitBytes_printNat {col : Column} (digits : col.dec < col.len) {m : ℕ}
    (fits : m < 10 ^ col.len) :
    digitBytes col (printNat col.dec m) = .ok ((Decimal.fixed col.len m).map digitByte) := by
  unfold digitBytes printNat
  by_cases whole : col.dec = 0
  · have length := Decimal.length_canonical_le col.len_pos fits
    have filled := zeros_append_eq_fixed col.len (Decimal.canonical_lt m) length
    rw [Decimal.value_canonical] at filled
    simp only [whole, ↓reduceIte, List.length_map, length, filled]
  · have small : m % 10 ^ col.dec < 10 ^ col.dec := Nat.mod_lt _ (Nat.pow_pos (by decide))
    have length := length_canonical_div_le digits fits
    have fixedLength := Decimal.length_fixed small
    have decimal : ∀ digit ∈ Decimal.canonical (m / 10 ^ col.dec) ++
        Decimal.fixed col.dec (m % 10 ^ col.dec), digit < 10 := by
      intro digit member
      rcases List.mem_append.mp member with member | member
      · exact Decimal.canonical_lt _ digit member
      · exact Decimal.fixed_lt _ _ digit member
    have filled := zeros_append_eq_fixed col.len decimal (by
      rw [List.length_append, fixedLength]
      omega)
    rw [value_canonical_append_fixed, List.map_append, List.length_append, fixedLength] at filled
    rw [← List.length_map digitByte] at length filled fixedLength
    rw [if_neg whole, if_neg whole, ← filled]
    generalize (Decimal.canonical (m / 10 ^ col.dec)).map digitByte = int at length ⊢
    generalize (Decimal.fixed col.dec (m % 10 ^ col.dec)).map digitByte = frac at fixedLength ⊢
    have total : (int ++ 46 :: frac).length = int.length + 1 + col.dec := by
      rw [List.length_append, List.length_cons, fixedLength]
      omega
    have taken : (int ++ 46 :: frac).take (int.length + 1 + col.dec - col.dec - 1) = int :=
      List.take_left' (by omega)
    have dropped : (int ++ 46 :: frac).drop (int.length + 1 + col.dec - col.dec) = frac := by
      rw [← List.singleton_append, ← List.append_assoc]
      apply List.drop_left'
      rw [List.length_append, List.length_singleton]
      omega
    have zeros : col.len + 1 - (int.length + 1 + col.dec) = col.len - (int.length + col.dec) := by
      omega
    rw [total, if_pos (by omega), taken, dropped, zeros, List.append_assoc]

/-- A stored number reads back as the field that holds it. -/
theorem fieldBytes_num {col : Column} (numeric : col.tp = .numeric) (digits : col.dec < col.len)
    {n : ℤ} (fits : n.natAbs < 10 ^ col.len) :
    fieldBytes col (printValue col (.num (n / 10 ^ col.dec))) = .ok (numericField col.len n) := by
  have scaled : ⌊(n / 10 ^ col.dec : ℚ) * 10 ^ col.dec⌋ = n := by
    rw [div_mul_cancel₀ _ (by positivity), Int.floor_intCast]
  have copied := digitBytes_printNat digits fits
  unfold fieldBytes printValue numericField
  simp only [numeric, scaled]
  by_cases negative : n < 0
  · simp only [negative, ↓reduceIte, List.head?_cons, List.tail_cons, copied]
    rfl
  · obtain ⟨digit, rest, decimal, shape⟩ := isDigit_printNat_head col.dec n.natAbs
    have first : (printNat col.dec n.natAbs).head? ≠ some 45 := by
      rw [shape, List.head?_cons]
      intro equal
      exact digitByte_ne_minus decimal (Option.some.inj equal)
    simp only [negative, ↓reduceIte, first, copied]

/-- A column whose digits are all decimals is never read. -/
theorem dec_lt_of_fieldBytes {col : Column} (numeric : col.tp = .numeric) {number : ℚ}
    {field : List Byte} (read : fieldBytes col (printValue col (.num number)) = .ok field) :
    col.dec < col.len := by
  by_contra whole
  have positive := col.len_pos
  have small := col.dec_le
  have equal : col.dec = col.len := by omega
  have long : ∀ m bytes, digitBytes col (printNat col.dec m) ≠ .ok bytes := by
    intro m bytes read
    have int := List.length_pos_of_ne_nil (Decimal.canonical_ne_nil (m / 10 ^ col.dec))
    have frac : (Decimal.fixed col.dec (m % 10 ^ col.dec)).length = col.dec :=
      Decimal.length_fixed (Nat.mod_lt _ (Nat.pow_pos (by decide)))
    have length : (printNat col.dec m).length =
        (Decimal.canonical (m / 10 ^ col.dec)).length + (1 + col.dec) := by
      unfold printNat
      rw [if_neg (by omega), List.length_append, List.length_map, List.length_cons,
        List.length_map, frac, Nat.add_comm col.dec]
    simp only [digitBytes] at read
    rw [if_neg (by omega), if_neg (by omega)] at read
    cases read
  unfold fieldBytes printValue at read
  simp only [numeric] at read
  by_cases negative : ⌊number * 10 ^ col.dec⌋ < 0
  · simp only [negative, ↓reduceIte, List.head?_cons, List.tail_cons] at read
    obtain ⟨bytes, digits, _⟩ := map_eq_ok.mp read
    exact long _ _ digits
  · simp only [negative, ↓reduceIte] at read
    split at read
    · rename_i minus
      obtain ⟨digit, rest, decimal, shape⟩ :=
        isDigit_printNat_head col.dec ⌊number * 10 ^ col.dec⌋.natAbs
      rw [shape, List.head?_cons] at minus
      exact digitByte_ne_minus decimal (Option.some.inj minus)
    · exact long _ _ read

/-! ## Character columns -/

theorem rtrim_append_blanks (text : List Byte) (n : ℕ) :
    rtrim (text ++ List.replicate n 32) = rtrim text := by
  unfold rtrim
  induction n with
  | zero => rw [List.replicate_zero, List.append_nil]
  | succ n ih =>
      rw [List.replicate_succ', ← List.append_assoc, List.rdropWhile_concat_pos _ _ _ (by decide),
        ih]

theorem exists_blanks (text : List Byte) : ∃ n, text = rtrim text ++ List.replicate n 32 := by
  induction text using List.reverseRecOn with
  | nil => exact ⟨0, rfl⟩
  | append_singleton front last ih =>
      by_cases blank : last = 32
      · obtain ⟨n, shape⟩ := ih
        refine ⟨n + 1, ?_⟩
        have trimmed : rtrim (front ++ [last]) = rtrim front := by
          rw [blank]
          exact rtrim_append_blanks front 1
        rw [trimmed, List.replicate_succ', ← List.append_assoc, ← shape, blank]
      · refine ⟨0, ?_⟩
        unfold rtrim
        rw [List.rdropWhile_concat_neg _ _ _ (by simpa using blank), List.replicate_zero,
          List.append_nil]

theorem length_blankFill {len : ℕ} {text : List Byte} (short : text.length ≤ len) :
    (blankFill len text).length = len := by
  unfold blankFill
  rw [List.length_append, List.length_replicate]
  omega

theorem blankFill_rtrim {len : ℕ} {text : List Byte} (full : text.length = len) :
    blankFill len (rtrim text) = text := by
  obtain ⟨n, shape⟩ := exists_blanks text
  have lengths := congrArg List.length shape
  rw [List.length_append, List.length_replicate] at lengths
  have count : len - (rtrim text).length = n := by omega
  unfold blankFill
  rw [count]
  exact shape.symm

/-- A stored text reads back as itself, filled with blanks. -/
theorem fieldBytes_chr {col : Column} (character : col.tp = .character) {text : List Byte}
    (short : text.length ≤ col.len) :
    fieldBytes col (printValue col (.chr text)) = .ok (blankFill col.len text) := by
  have full := length_blankFill short
  unfold fieldBytes printValue
  simp only [character, full, le_refl, ↓reduceIte]
  congr 1
  rw [blankFill, full, Nat.sub_self, List.replicate_zero, List.append_nil]

/-! ## Reading back -/

/-- A column reads back as a well-formed field just when it holds the field's value. -/
theorem fieldBytes_eq_iff {col : Column} {value : Value} {field : List Byte}
    (fits : value.Fits col) (present : value ≠ .null) (wellFormed : FieldOk col field)
    (full : field.length = col.len) :
    fieldBytes col (printValue col value) = .ok field ↔ value = fieldValue col field := by
  unfold FieldOk at wellFormed
  unfold fieldValue
  cases value with
  | null => exact (present rfl).elim
  | num number =>
      obtain ⟨numeric, n, rfl, small⟩ := fits
      simp only [numeric] at wellFormed ⊢
      obtain ⟨digits, wellFormed⟩ := wellFormed
      obtain ⟨shape, small'⟩ := wellFormed.eq (List.ne_nil_of_length_pos (full ▸ col.len_pos))
      rw [full] at shape small'
      rw [fieldBytes_num numeric digits small, Except.ok.injEq, Value.num.injEq]
      constructor
      · intro same
        rw [← same, fieldInt_numericField col.len_pos small]
      · intro same
        have scale : (10 ^ col.dec : ℚ) ≠ 0 := by positivity
        rw [div_left_inj' scale] at same
        rw [Int.cast_injective same]
        exact shape.symm
  | chr text =>
      obtain ⟨character, short, trimmed, _⟩ := fits
      simp only [character] at wellFormed ⊢
      rw [fieldBytes_chr character short, Except.ok.injEq, Value.chr.injEq]
      constructor
      · rintro rfl
        unfold blankFill
        rw [rtrim_append_blanks, trimmed]
      · rintro rfl
        exact blankFill_rtrim full

/-- A value that a column can hold always reads back as a full field. -/
theorem exists_fieldBytes {col : Column} {value : Value} (fits : value.Fits col)
    (present : value ≠ .null) (digits : col.tp = .numeric → col.dec < col.len) :
    ∃ field, fieldBytes col (printValue col value) = .ok field ∧ field.length = col.len := by
  cases value with
  | null => exact (present rfl).elim
  | num number =>
      obtain ⟨numeric, n, rfl, small⟩ := fits
      exact ⟨_, fieldBytes_num numeric (digits numeric) small, length_numericField small⟩
  | chr text =>
      obtain ⟨character, short, _, _⟩ := fits
      exact ⟨_, fieldBytes_chr character short, length_blankFill short⟩

theorem totalLen_cons (col : Column) (cols : List Column) :
    totalLen (col :: cols) = col.len + totalLen cols := by
  unfold totalLen
  rw [List.map_cons, List.sum_cons]

/-! ## Fields written one after the other -/

/-- A write to the record area made for a column. -/
structure Written where
  col : Column
  place : ℕ
  bytes : List Byte
  deriving DecidableEq

/-- The writes, one after the other. -/
def writeAll : List Written → List Byte → Except Stop (List Byte)
  | [], record => .ok record
  | written :: rest, record => do
      let record ← writeAt record written.place written.bytes
      writeAll rest record

/-- A column is written in its own bytes. -/
def Written.InPlace (written : Written) : Prop :=
  written.place = written.col.offset ∧ written.bytes.length = written.col.len

/-- Columns written in place keep what was written and touch no other byte. -/
theorem writeAll_spec :
    ∀ {writes : List Written} {offset : ℕ} {record : List Byte},
      Contiguous offset (writes.map Written.col) → (∀ written ∈ writes, written.InPlace) →
      offset + totalLen (writes.map Written.col) ≤ record.length →
      ∃ record', writeAll writes record = .ok record' ∧
        record'.length = record.length ∧ record'.take offset = record.take offset ∧
        record'.drop (offset + totalLen (writes.map Written.col)) =
          record.drop (offset + totalLen (writes.map Written.col)) ∧
        ∀ written ∈ writes, slice record' written.col.offset written.col.len = written.bytes := by
  intro writes
  induction writes with
  | nil =>
      intro offset record _ _ _
      exact ⟨record, rfl, rfl, rfl, rfl, nofun⟩
  | cons written writes ih =>
      intro offset record laid placed room
      obtain ⟨place, full⟩ := placed written List.mem_cons_self
      rw [List.map_cons, totalLen_cons] at room ⊢
      have start : written.place = offset := place.trans laid.1
      have put : writeAt record offset written.bytes =
          .ok (record.take offset ++ written.bytes ++
            record.drop (offset + written.bytes.length)) :=
        writeAt_eq_ok.mpr ⟨by omega, rfl⟩
      have front : (record.take offset).length = offset := by
        rw [List.length_take]
        omega
      have length : (record.take offset ++ written.bytes ++
          record.drop (offset + written.bytes.length)).length = record.length := by
        rw [List.length_append, List.length_append, front, List.length_drop]
        omega
      obtain ⟨record', rest', length', kept, after, fields⟩ :=
        ih laid.2 (fun other member => placed other (List.mem_cons_of_mem _ member))
          (by rw [length]; omega)
      have upTo : record'.take (offset + written.col.len) =
          record.take offset ++ written.bytes := by
        rw [kept]
        apply List.take_left'
        rw [List.length_append, front, full]
      refine ⟨record', ?_, length'.trans length, ?_, ?_, List.forall_mem_cons.mpr ⟨?_, fields⟩⟩
      · unfold writeAll
        rw [start, put, ok_bind]
        exact rest'
      · calc record'.take offset = (record'.take (offset + written.col.len)).take offset := by
              rw [List.take_take, Nat.min_eq_left (Nat.le_add_right _ _)]
          _ = record.take offset := by
              rw [upTo]
              exact List.take_left' front
      · rw [← Nat.add_assoc, after, full]
        calc (record.take offset ++ written.bytes ++ record.drop (offset + written.col.len)).drop
                (offset + written.col.len + totalLen (writes.map Written.col))
            = ((record.take offset ++ written.bytes ++ record.drop (offset + written.col.len)).drop
                (offset + written.col.len)).drop (totalLen (writes.map Written.col)) := by
              rw [List.drop_drop]
          _ = (record.drop (offset + written.col.len)).drop
              (totalLen (writes.map Written.col)) := by
              congr 1
              apply List.drop_left'
              rw [List.length_append, front, full]
          _ = _ := by rw [List.drop_drop]
      · rw [laid.1]
        calc slice record' offset written.col.len
            = (record'.take (offset + written.col.len)).drop offset := by
              unfold slice
              rw [List.drop_take, Nat.add_sub_cancel_left]
          _ = written.bytes := by
              rw [upTo]
              exact List.drop_left' front

/-- The loop of `pq2cob` writes each column in place. -/
theorem pq2cobFrom_writes :
    ∀ {cols : List Column} {row : Row} {offset : ℕ}, Contiguous offset cols →
      List.Forall₂ (fun col value => ∃ field,
        fieldBytes col (printValue col value) = .ok field ∧ field.length = col.len) cols row →
      ∃ writes : List Written, writes.map Written.col = cols ∧
        (∀ written ∈ writes, written.InPlace) ∧
        List.Forall₂ (fun written value =>
          fieldBytes written.col (printValue written.col value) = .ok written.bytes) writes row ∧
        ∀ record, pq2cobFrom cols row offset record = writeAll writes record := by
  intro cols
  induction cols with
  | nil =>
      intro row offset _ printed
      cases printed
      exact ⟨[], rfl, nofun, List.Forall₂.nil, fun _ => rfl⟩
  | cons col cols ih =>
      intro row offset laid printed
      cases printed with
      | cons first rest =>
          obtain ⟨field, bytes, full⟩ := first
          obtain ⟨writes, columns, placed, fields, same⟩ := ih laid.2 rest
          refine ⟨⟨col, offset, field⟩ :: writes, ?_, ?_, List.Forall₂.cons bytes fields, ?_⟩
          · rw [List.map_cons, columns]
          · exact List.forall_mem_cons.mpr ⟨⟨laid.1.symm, full⟩, placed⟩
          · intro record
            unfold pq2cobFrom writeAll
            rw [bytes, ok_bind]
            exact congrArg (writeAt record offset field >>= ·) (funext same)

/-- The loop of `pq2cob` writes each column's field over its own bytes and touches no
other byte. -/
theorem pq2cobFrom_spec {cols : List Column} {row : Row} {offset : ℕ} {record : List Byte}
    (laid : Contiguous offset cols)
    (printed : List.Forall₂ (fun col value => ∃ field,
      fieldBytes col (printValue col value) = .ok field ∧ field.length = col.len) cols row)
    (room : offset + totalLen cols ≤ record.length) :
    ∃ record', pq2cobFrom cols row offset record = .ok record' ∧
      record'.length = record.length ∧ record'.take offset = record.take offset ∧
      record'.drop (offset + totalLen cols) = record.drop (offset + totalLen cols) ∧
      List.Forall₂ (fun col value => fieldBytes col (printValue col value) =
        .ok (slice record' col.offset col.len)) cols row := by
  obtain ⟨writes, rfl, placed, fields, same⟩ := pq2cobFrom_writes laid printed
  obtain ⟨record', written, length, before, after, slices⟩ := writeAll_spec laid placed room
  refine ⟨record', (same record).trans written, length, before, after, ?_⟩
  rw [List.forall₂_map_left_iff]
  rw [List.forall₂_iff_zip] at fields ⊢
  refine ⟨fields.1, fun {one value} member => ?_⟩
  rw [slices one (List.of_mem_zip member).1]
  exact fields.2 member

/-- Reading a row gives the bytes of a record in every column. -/
def ReadsBack (cols : List Column) (row : Row) (record : List Byte) : Prop :=
  ∀ area : List Byte, totalLen cols ≤ area.length → ∃ area', pq2cob cols row area = .ok area' ∧
    ∀ col ∈ cols, slice area' col.offset col.len = slice record col.offset col.len

theorem Contiguous.end_le :
    ∀ {cols : List Column} {offset : ℕ}, Contiguous offset cols → ∀ col ∈ cols,
      col.offset + col.len ≤ offset + totalLen cols := by
  intro cols
  induction cols with
  | nil => intro offset _ col member; cases member
  | cons first rest ih =>
      intro offset laid col member
      rw [totalLen_cons]
      rcases List.mem_cons.mp member with rfl | member
      · have start := laid.1
        omega
      · have further := ih laid.2 col member
        omega

theorem length_digitBytes {col : Column} {text bytes : List Byte}
    (read : digitBytes col text = .ok bytes) : bytes.length = col.len := by
  have small := col.dec_le
  simp only [digitBytes] at read
  split at read
  · split at read
    case isTrue short =>
      cases read
      rw [List.length_append, List.length_replicate]
      omega
    case isFalse => cases read
  · split at read
    case isTrue short =>
      cases read
      rw [List.length_append, List.length_append, List.length_replicate, List.length_take,
        List.length_drop]
      omega
    case isFalse => cases read

/-- A column is always written in full. -/
theorem length_fieldBytes {col : Column} {text field : List Byte}
    (read : fieldBytes col text = .ok field) : field.length = col.len := by
  unfold fieldBytes at read
  split at read
  · split at read
    · obtain ⟨bytes, digits, rfl⟩ := map_eq_ok.mp read
      rw [List.length_modify, length_digitBytes digits]
    · exact length_digitBytes read
  · split at read
    case isTrue short =>
      cases read
      exact length_blankFill short
    case isFalse => cases read

/-- A row that was read had a field for each column. -/
theorem pq2cobFrom_printed :
    ∀ {cols : List Column} {row : Row} {offset : ℕ} {record record' : List Byte},
      row.length = cols.length → pq2cobFrom cols row offset record = .ok record' →
      List.Forall₂ (fun col value => ∃ field,
        fieldBytes col (printValue col value) = .ok field ∧ field.length = col.len) cols row := by
  intro cols
  induction cols with
  | nil =>
      intro row offset record record' length _
      rw [List.length_eq_zero_iff.mp length]
      exact List.Forall₂.nil
  | cons col cols ih =>
      intro row offset record record' length read
      cases row with
      | nil => cases length
      | cons value row =>
          unfold pq2cobFrom at read
          obtain ⟨field, bytes, read⟩ := bind_eq_ok.mp read
          obtain ⟨record₁, _, read⟩ := bind_eq_ok.mp read
          exact List.Forall₂.cons ⟨field, bytes, length_fieldBytes bytes⟩
            (ih (Nat.succ.inj length) read)

/-- Reading keeps the size of the record area, which had room for every column. -/
theorem pq2cobFrom_room :
    ∀ {cols : List Column} {row : Row} {offset : ℕ} {record record' : List Byte},
      offset ≤ record.length → pq2cobFrom cols row offset record = .ok record' →
      record'.length = record.length ∧ offset + totalLen cols ≤ record.length := by
  intro cols
  induction cols with
  | nil =>
      intro row offset record record' start read
      cases read
      exact ⟨rfl, start⟩
  | cons col cols ih =>
      intro row offset record record' start read
      cases row with
      | nil => cases read
      | cons value row =>
          unfold pq2cobFrom at read
          obtain ⟨field, bytes, read⟩ := bind_eq_ok.mp read
          obtain ⟨record₁, written, read⟩ := bind_eq_ok.mp read
          obtain ⟨room, rfl⟩ := writeAt_eq_ok.mp written
          have full := length_fieldBytes bytes
          have length : (record.take offset ++ field ++
              record.drop (offset + field.length)).length = record.length := by
            rw [List.length_append, List.length_append, List.length_take, List.length_drop]
            omega
          obtain ⟨same, rest⟩ := ih (by omega) read
          rw [totalLen_cons]
          exact ⟨same.trans length, by omega⟩

/-- A row reads back as a record just when each of its columns does. -/
theorem readsBack_iff {cols : List Column} {row : Row} {record : List Byte}
    (laid : Contiguous 0 cols) (length : row.length = cols.length)
    (whole : totalLen cols ≤ record.length) :
    ReadsBack cols row record ↔ List.Forall₂ (fun col value =>
      fieldBytes col (printValue col value) = .ok (slice record col.offset col.len)) cols row := by
  constructor
  · intro reads
    obtain ⟨area, read, same⟩ := reads record whole
    obtain ⟨area', read', _, _, _, fields⟩ := pq2cobFrom_spec laid (pq2cobFrom_printed length read)
      (by omega : 0 + totalLen cols ≤ record.length)
    obtain rfl := Except.ok.inj (read.symm.trans read')
    rw [List.forall₂_iff_zip] at fields ⊢
    refine ⟨length.symm, fun {col value} member => ?_⟩
    rw [← same col (List.of_mem_zip member).1]
    exact fields.2 member
  · intro columns area room
    have printed : List.Forall₂ (fun col value => ∃ field,
        fieldBytes col (printValue col value) = .ok field ∧ field.length = col.len) cols row :=
      columns.imp fun col value bytes => ⟨_, bytes, length_fieldBytes bytes⟩
    obtain ⟨area', read, _, _, _, fields⟩ := pq2cobFrom_spec laid printed
      (by omega : 0 + totalLen cols ≤ area.length)
    refine ⟨area', read, fun col member => ?_⟩
    rw [← List.map_fst_zip length.ge] at member
    obtain ⟨pair, paired, rfl⟩ := List.mem_map.mp member
    have here := (List.forall₂_iff_zip.mp fields).2 paired
    exact Except.ok.inj (here.symm.trans ((List.forall₂_iff_zip.mp columns).2 paired))

end Pqfh
