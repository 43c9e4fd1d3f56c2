import Mathlib.Tactic.MkIffOfInductiveProp
import Pqfh.Handler.KeyTexts
import Pqfh.Sync.Cmp

/-! # Fields that SYNC settles

SYNC writes the ISAM record into the database; the next CMP reads it back and compares. On the
way a field is normalised three times, and never in the same manner: its text ends at the first
NUL and its wrong characters become zeros, `pq2cob` fills what comes back with blanks or zeros,
and `reccmp` takes each NUL for a blank, each NUL or blank of a number for a zero
(`Pqfh.isamField`).

`Pqfh.field_settles_iff` says for which bytes the three coincide.
-/

namespace Pqfh

/-! ## A field on the way -/

/-- A field of the ISAM record as `reccmp` takes it when the column differs. -/
def isamField (col : Column) (field : List Byte) : List Byte := field.map (isamByte col.tp)

/-- The text that is sent for a field that is not fatal. -/
def sentText (col : Column) (field : List Byte) : List Byte :=
  ((Param.write col false).checked field).1

/-- The bytes of a numeric field with its sign as a character, in the place of the first. -/
def signChars (field : List Byte) : List Byte :=
  if negativeField field then
    (field.set 0 (if 1 < field.length then 45 else 48)).modify (field.length - 1) clearSign
  else field

/-- A number comes back as `reccmp` takes it: its sign takes no digit away, and a NUL cuts off
zeros only, decimals or all there is. -/
def NumberSettles (col : Column) (field : List Byte) : Prop :=
  SignFits (isamField col field) ∧
    (∀ digit ∈ (fieldDigits (isamField col field)).drop (cstr (signChars field)).length,
      digit = 0) ∧
    (col.len - col.dec ≤ (cstr (signChars field)).length ∨
      ∀ digit ∈ fieldDigits (isamField col field), digit = 0)

/-- A text comes back as `reccmp` takes it: what follows its first NUL is NULs and blanks. -/
def TextSettles (field : List Byte) : Prop :=
  ∀ byte ∈ field.drop (cstr field).length, byte = 0 ∨ byte = 32

/-- A field whose text fits its row comes back as `reccmp` takes it. -/
def ShortSettles (col : Column) (field : List Byte) : Prop :=
  match col.tp with
  | .numeric => NumberSettles col field
  | .character => TextSettles field

/-- A field comes back as `reccmp` takes it. Where its text outruns its row and there is a next
row, what it runs into must happen to stand for the same. -/
def FieldSettles (pg : Postgres) (col : Column) (field : List Byte) (later : List (List Byte)) :
    Prop :=
  FieldOk col (isamField col field) ∧
    if (sentText col field).length < rowSize ∨ later = [] then ShortSettles col field
    else pg.store col (runInto (sentText col field) later) =
      some (fieldValue col (isamField col field))

instance (col : Column) (field : List Byte) : Decidable (NumberSettles col field) :=
  inferInstanceAs (Decidable (_ ∧ _ ∧ (_ ∨ _)))

instance (field : List Byte) : Decidable (TextSettles field) :=
  inferInstanceAs (Decidable (∀ byte ∈ _, _))

instance (col : Column) (field : List Byte) : Decidable (ShortSettles col field) :=
  decidable_of_iff ((col.tp = .numeric ∧ NumberSettles col field) ∨
    (col.tp = .character ∧ TextSettles field)) (by
      unfold ShortSettles
      cases col.tp <;> simp)

instance (pg : Postgres) (col : Column) (field : List Byte) (later : List (List Byte)) :
    Decidable (FieldSettles pg col field later) :=
  inferInstanceAs (Decidable (FieldOk col (isamField col field) ∧
    if (sentText col field).length < rowSize ∨ later = [] then ShortSettles col field
    else pg.store col (runInto (sentText col field) later) =
      some (fieldValue col (isamField col field))))

/-- A column agrees with a field of the ISAM record. -/
def Agrees (col : Column) (value : Value) (field : List Byte) : Prop :=
  ∃ bytes, fieldBytes col (printValue col value) = .ok bytes ∧
    (field = bytes ∨ isamField col field = bytes)

theorem length_isamField (col : Column) (field : List Byte) :
    (isamField col field).length = field.length :=
  List.length_map _

/-- What `valida_numero` puts for a character. -/
def repaired (p : Byte) : Byte := if numberChar p then p else 48

/-- A number outside the keys is repaired. -/
theorem validaNumero_unkeyed (real : Bool) (conteudo : List Byte) :
    validaNumero false real conteudo =
      (if scanNumero real false false (orZero conteudo) then orZero conteudo
        else (orZero conteudo).map repaired, false) := by
  change (if scanNumero real false false (orZero conteudo) = true then (orZero conteudo, false)
    else _) = _
  by_cases valid : scanNumero real false false (orZero conteudo) = true
  · rw [if_pos valid, if_pos valid]
  · rw [if_neg valid, if_neg valid]
    rfl

/-- A parameter that is not fatal is sent as if it belonged to no key. -/
theorem checked_sentText {col : Column} {chave : Bool} {field : List Byte}
    (passes : ((Param.write col chave).checked field).2 = false) :
    ((Param.write col chave).checked field).1 = sentText col field := by
  unfold sentText
  cases chave with
  | false => rfl
  | true =>
      unfold Param.checked Param.write at passes ⊢
      cases type : col.tp with
      | character => rfl
      | numeric =>
          simp only [type] at passes ⊢
          rw [validaNumero_key] at passes ⊢
          have valid : scanNumero (0 < col.dec) false false
              (orZero (cstr (writeBlock col field))) = true := by simpa using passes
          rw [validaNumero_unkeyed, valid]
          rfl

/-! ## What agrees -/

/-- A numeric field that `pq2cob` writes is well-formed. -/
theorem numericField_ok {len : ℕ} (room : 0 < len) {n : ℤ} (fits : n.natAbs < 10 ^ len) :
    NumericField (numericField len n) := by
  obtain ⟨front, last, _, decimal, decimals, _, field⟩ := numericField_eq room fits
  refine ⟨?_, ?_, ?_⟩
  · intro byte member
    rw [field, List.dropLast_concat] at member
    exact all_isDigit decimals byte member
  · intro byte member
    rw [field, List.getLast?_concat, Option.mem_def, Option.some.injEq] at member
    rw [← member]
    split
    · rw [clearSign_setSign_digitByte decimal]
      exact isDigit_digitByte decimal
    · unfold clearSign
      rw [if_neg (not_signed_digitByte decimal)]
      exact isDigit_digitByte decimal
  · intro both
    rw [negativeField_numericField room fits, fieldInt_numericField room fits,
      decide_eq_true_iff] at both
    omega

theorem fieldBytes_ok {col : Column} {value : Value} {bytes : List Byte} (fits : value.Fits col)
    (present : value ≠ .null) (read : fieldBytes col (printValue col value) = .ok bytes) :
    FieldOk col bytes := by
  unfold FieldOk
  cases value with
  | null => exact (present rfl).elim
  | num number =>
      obtain ⟨numeric, n, rfl, small⟩ := fits
      have digits := dec_lt_of_fieldBytes numeric read
      rw [fieldBytes_num numeric digits small] at read
      cases read
      simp only [numeric]
      exact ⟨digits, numericField_ok col.len_pos small⟩
  | chr text =>
      obtain ⟨character, short, _, clean⟩ := fits
      rw [fieldBytes_chr character short] at read
      cases read
      simp only [character]
      unfold blankFill
      intro member
      rcases List.mem_append.mp member with member | member
      · exact clean member
      · exact absurd (List.eq_of_mem_replicate member) (by decide)

/-- What `reccmp` makes of a byte, and what the check of numbers makes of it. -/
@[mk_iff] structure ByteTaken (byte : Byte) : Prop where
  digit : isDigit byte = true → isamByte .numeric byte = byte
  sign : isDigit (clearSign byte) = true → isamByte .numeric byte = byte
  blank : isamByte .character byte = 32 ↔ byte = 0 ∨ byte = 32
  repairs : isDigit (isamByte .numeric byte) = true →
    isamByte .numeric byte = repaired byte ∧ byte ≠ 43
  positive : signed byte = false → isDigit (clearSign (isamByte .numeric byte)) = true →
    isamByte .numeric byte = repaired byte ∧ byte ≠ 43
  negative : signed byte = true → isDigit (clearSign (isamByte .numeric byte)) = true →
    clearSign (isamByte .numeric byte) = repaired (clearSign byte) ∧ clearSign byte ≠ 43
  kept : signed (isamByte .numeric byte) = signed byte
  numeral : numeralChar byte = true → byte ≠ 43 → repaired byte = byte

instance (byte : Byte) : Decidable (ByteTaken byte) := decidable_of_iff' _ (byteTaken_iff byte)

theorem byteTaken : ∀ byte : Byte, ByteTaken byte := by decide +kernel

/-- `reccmp` takes a well-formed field for itself. -/
theorem isamField_of_ok {col : Column} {field : List Byte} (wellFormed : FieldOk col field) :
    isamField col field = field := by
  unfold FieldOk at wellFormed
  unfold isamField
  conv_rhs => rw [← List.map_id field]
  apply List.map_congr_left
  intro byte member
  cases type : col.tp with
  | character =>
      simp only [type] at wellFormed
      have nonzero : byte ≠ 0 := fun zero => wellFormed (zero ▸ member)
      exact if_neg nonzero
  | numeric =>
      simp only [type] at wellFormed
      obtain ⟨_, digits, last, _⟩ := wellFormed
      have nonempty := List.ne_nil_of_mem member
      rw [← List.dropLast_append_getLast nonempty] at member
      rcases List.mem_append.mp member with member | member
      · exact (byteTaken byte).digit (digits byte member)
      · obtain rfl := List.mem_singleton.mp member
        exact (byteTaken _).sign (last _ (List.getLast?_eq_getLast_of_ne_nil nonempty))

/-- A column agrees with a field just when it holds the value of what `reccmp` takes the field
for. -/
theorem agrees_iff {col : Column} {value : Value} {field : List Byte} (fits : value.Fits col)
    (present : value ≠ .null) (full : field.length = col.len) :
    Agrees col value field ↔
      FieldOk col (isamField col field) ∧ value = fieldValue col (isamField col field) := by
  have full' := (length_isamField col field).trans full
  constructor
  · intro agrees
    obtain ⟨bytes, read, same⟩ := agrees
    have wellFormed := fieldBytes_ok fits present read
    have taken : isamField col field = bytes := by
      rcases same with rfl | taken
      · exact isamField_of_ok wellFormed
      · exact taken
    rw [taken] at full' ⊢
    exact ⟨wellFormed, (fieldBytes_eq_iff fits present wellFormed full').mp read⟩
  · intro both
    obtain ⟨wellFormed, same⟩ := both
    exact ⟨_, (fieldBytes_eq_iff fits present wellFormed full').mpr same, Or.inr rfl⟩

/-! ## Texts -/

theorem blankFill_rtrim_of_le {len : ℕ} {text : List Byte} (short : text.length ≤ len) :
    blankFill len (rtrim text) = blankFill len text := by
  have filled := blankFill_rtrim (length_blankFill short)
  unfold blankFill at filled ⊢
  rw [rtrim_append_blanks] at filled
  exact filled

/-- A text comes back as `reccmp` takes it just when NULs and blanks follow its first NUL. -/
theorem text_settles_iff {col : Column} (character : col.tp = .character) {field : List Byte}
    (full : field.length = col.len) :
    rtrim (cstr field) = rtrim (isamField col field) ↔ TextSettles field := by
  have length := length_cstr_le field
  obtain ⟨rest, shape⟩ : cstr field <+: field := List.takeWhile_prefix _
  have dropped : field.drop (cstr field).length = rest :=
    (congrArg (List.drop (cstr field).length) shape).symm.trans List.drop_left
  have kept : (cstr field).map (isamByte .character) = cstr field := by
    conv_rhs => rw [← List.map_id (cstr field)]
    apply List.map_congr_left
    intro byte member
    exact if_neg (show ¬ byte = 0 from fun zero => zero_notMem_cstr field (zero ▸ member))
  have taken : isamField col field = cstr field ++ rest.map (isamByte .character) := by
    unfold isamField
    rw [character]
    conv_lhs => rw [← shape, List.map_append, kept]
  have settles : TextSettles field ↔
      rest.map (isamByte .character) = List.replicate
          (rest.map (isamByte .character)).length 32 := by
    unfold TextSettles
    rw [dropped, List.eq_replicate_iff, and_iff_right rfl, List.forall_mem_map]
    exact forall₂_congr fun byte _ => (byteTaken byte).blank.symm
  rw [settles]
  constructor
  · intro same
    have filled := blankFill_rtrim ((length_isamField col field).trans full)
    rw [← same, blankFill_rtrim_of_le (by omega), taken, blankFill] at filled
    have tail := List.append_cancel_left filled
    rw [← tail, List.length_replicate]
  · intro blanks
    rw [taken, blanks, rtrim_append_blanks]

/-! ## The text of a number -/

section Numeric

variable {col : Column} {field : List Byte}

theorem length_signChars (field : List Byte) : (signChars field).length = field.length := by
  unfold signChars
  split
  · rw [List.length_modify, List.length_set]
  · rfl

/-- The sign of a field of two or more bytes. -/
theorem signChars_cons (first : Byte) (front : List Byte) {last : Byte} (sign : signed last) :
    signChars (first :: front ++ [last]) = 45 :: front ++ [clearSign last] := by
  have modified := modify_length (45 :: front) last clearSign
  have length : (first :: front ++ [last]).length = (45 :: front).length + 1 :=
    List.length_append
  unfold signChars
  rw [negativeField_concat, if_pos sign, length, Nat.add_sub_cancel, if_pos (by simp)]
  exact modified

/-- A field that is negative on its only byte. -/
theorem signChars_singleton {last : Byte} (sign : signed last) : signChars [last] = [48] := by
  unfold signChars
  rw [show negativeField [last] = signed last from rfl, if_pos sign, List.set_cons_zero]
  change [48].modify 0 clearSign = ([48] : List Byte)
  decide

theorem writeChars_eq_pointed (numeric : col.tp = .numeric) (digits : col.dec < col.len)
    (full : field.length = col.len) : writeChars col field = pointed col (signChars field) := by
  by_cases negative : negativeField field = true
  · obtain ⟨front, last, rfl, sign⟩ := exists_signed_last full negative
    have length : front.length + 1 = col.len := by
      rw [← full, List.length_append, List.length_singleton]
    unfold writeChars
    simp only [numeric, negative, ↓reduceIte]
    cases front with
    | nil =>
        -- the only byte holds the sign, which is lost
        have single : col.len = 1 := length.symm
        have whole : col.dec = 0 := by omega
        rw [List.nil_append, signChars_singleton sign]
        simp only [pointed, whole, single, lt_self_iff_false, ↓reduceIte, List.set_cons_zero]
        rfl
    | cons first front =>
        rw [signChars_cons first front sign, if_pos (by rw [← length, List.length_cons]; omega)]
        obtain ⟨k, before⟩ := Nat.exists_eq_succ_of_ne_zero (by omega : col.len - col.dec ≠ 0)
        rw [List.length_cons] at length
        -- the point stands after the first byte, so what follows it is the same on both sides
        have same : ∀ byte end_ : Byte, pointed col (byte :: front ++ [end_]) =
            byte :: (if 0 < col.dec then front.take k ++ 46 :: front.drop k else front) ++
              [end_] := by
          intro byte end_
          rw [pointed_concat (by rw [List.length_cons]; exact length)]
          congr 1
          split
          · rw [before, Nat.succ_eq_add_one, List.take_succ_cons, List.drop_succ_cons,
              List.cons_append]
          · rfl
        have place : (if 0 < col.dec then col.len else col.len - 1) =
            (45 :: (if 0 < col.dec then front.take k ++ 46 :: front.drop k else front)).length := by
          rw [List.length_cons]
          split
          · rw [List.length_append, List.length_cons, List.length_take, List.length_drop]
            omega
          · omega
        rw [same, same, place, List.cons_append, List.set_cons_zero, ← List.cons_append]
        exact modify_length _ last clearSign
  · unfold writeChars signChars
    simp only [numeric, negative, Bool.false_eq_true, ↓reduceIte]

/-- The characters of what `reccmp` takes a field for are the repaired characters of the field. -/
theorem signChars_isamField (numeric : col.tp = .numeric)
    (wellFormed : NumericField (isamField col field)) :
    signChars (isamField col field) = (signChars field).map repaired ∧ 43 ∉ signChars field := by
  have all : ∀ {bytes : List Byte}, (∀ byte ∈ bytes, isDigit (isamByte .numeric byte) = true) →
      bytes.map (isamByte .numeric) = bytes.map repaired ∧ 43 ∉ bytes := by
    intro bytes digits
    refine ⟨List.map_congr_left fun byte member =>
      ((byteTaken byte).repairs (digits byte member)).1, ?_⟩
    intro plus
    exact ((byteTaken 43).repairs (digits 43 plus)).2 rfl
  obtain ⟨digits, last, _⟩ := wellFormed
  unfold isamField at digits last ⊢
  rw [numeric] at digits last ⊢
  rcases List.eq_nil_or_concat field with rfl | ⟨front, end_, rfl⟩
  · exact ⟨rfl, List.not_mem_nil⟩
  rw [List.concat_eq_append] at digits last ⊢
  rw [List.map_append, List.map_singleton] at digits last ⊢
  rw [List.dropLast_concat, List.forall_mem_map] at digits
  have last' := last _ List.getLast?_concat
  obtain ⟨fronts, plus⟩ := all digits
  cases sign : signed end_ with
  | false =>
      obtain ⟨same, other⟩ := (byteTaken end_).positive sign last'
      unfold signChars
      rw [negativeField_concat, negativeField_concat, (byteTaken end_).kept, sign]
      simp only [Bool.false_eq_true, ↓reduceIte]
      rw [List.map_append, List.map_singleton, fronts, same]
      refine ⟨rfl, fun member => ?_⟩
      rcases List.mem_append.mp member with member | member
      · exact plus member
      · exact other (List.mem_singleton.mp member).symm
  | true =>
      obtain ⟨same, other⟩ := (byteTaken end_).negative sign last'
      have sign' := (byteTaken end_).kept.trans sign
      cases front with
      | nil =>
          rw [List.map_nil, List.nil_append, List.nil_append, signChars_singleton sign,
            signChars_singleton sign']
          decide
      | cons first front =>
          rw [List.map_cons, List.map_cons] at fronts
          rw [List.map_cons, signChars_cons _ _ sign, signChars_cons _ _ sign',
            (List.cons.inj fronts).2, same]
          refine ⟨by simp only [List.map_append, List.map_cons, List.map_nil]; rfl, ?_⟩
          intro member
          rcases List.mem_append.mp member with member | member
          · rcases List.mem_cons.mp member with minus | member
            · exact absurd minus (by decide)
            · exact plus (List.mem_cons_of_mem _ member)
          · exact other (List.mem_singleton.mp member).symm

theorem map_pointedText (col : Column) {f : Byte → Byte} (point : f 46 = 46) (text : List Byte) :
    (pointedText col text).map f = pointedText col (text.map f) := by
  unfold pointedText
  rw [List.length_map]
  split
  · rw [List.map_append, List.map_cons, List.map_take, List.map_drop, point]
  · rfl

theorem notMem_pointedText (col : Column) {byte : Byte} (other : byte ≠ 46) {text : List Byte}
    (absent : byte ∉ text) : byte ∉ pointedText col text := by
  unfold pointedText
  split
  · intro member
    rcases List.mem_append.mp member with member | member
    · exact absent (List.mem_of_mem_take member)
    · rcases List.mem_cons.mp member with equal | member
      · exact other equal
      · exact absent (List.mem_of_mem_drop member)
  · exact absent

/-- A number that passes the check and has no plus is left as it is by the repair. -/
theorem map_repaired_of_valid {real : Bool} {text : List Byte} (plus : 43 ∉ text)
    (valid : scanNumero real false false text) : text.map repaired = text := by
  conv_rhs => rw [← List.map_id text]
  apply List.map_congr_left
  intro byte member
  apply (byteTaken byte).numeral
    (List.all_eq_true.mp (scanNumero_numeralChar valid) byte member)
  intro equal
  exact plus (equal ▸ member)

/-- The text sent for a number: the characters of what `reccmp` takes it for, as far as the
first NUL. -/
theorem sentText_numeric (numeric : col.tp = .numeric) (digits : col.dec < col.len)
    (wellFormed : NumericField (isamField col field)) (full : field.length = col.len) :
    sentText col field = orZero (pointedText col
      ((signChars (isamField col field)).take (cstr (signChars field)).length)) := by
  obtain ⟨chars, plus⟩ := signChars_isamField numeric wellFormed
  have text := cstr_pointed ((length_signChars field).trans full)
  have taken : (cstr (signChars field)).map repaired =
      (signChars (isamField col field)).take (cstr (signChars field)).length := by
    rw [chars, ← List.map_take]
    congr 1
    exact List.prefix_iff_eq_take.mp (List.takeWhile_prefix _)
  have none : 43 ∉ orZero (pointedText col (cstr (signChars field))) := by
    unfold orZero
    split
    · decide
    · apply notMem_pointedText col (by decide)
      intro member
      exact plus ((List.takeWhile_prefix _).subset member)
  have whole : (orZero (pointedText col (cstr (signChars field)))).map repaired =
      orZero (pointedText col ((cstr (signChars field)).map repaired)) := by
    rw [← map_pointedText col rfl]
    unfold orZero
    by_cases empty : pointedText col (cstr (signChars field)) = []
    · rw [if_pos empty, empty]
      rfl
    · rw [if_neg empty, if_neg (by rwa [List.map_eq_nil_iff])]
  unfold sentText Param.checked Param.write writeBlock
  simp only [numeric]
  rw [writeChars_eq_pointed numeric digits full, validaNumero_unkeyed, text, ← taken, ← whole]
  split
  · rename_i valid
    exact (map_repaired_of_valid none valid).symm
  · rfl

/-! ## The number it denotes -/

/-- Digits that may end early, with the point of a column. -/
theorem plainNumeral_pointedText (digits : col.dec < col.len) {values : List ℕ}
    (decimal : ∀ digit ∈ values, digit < 10) (short : values.length ≤ col.len) :
    plainNumeral (orZero (pointedText col (values.map digitByte))) =
      some (Decimal.value values / 10 ^ (values.length - (col.len - col.dec)) : ℚ) := by
  cases values with
  | nil =>
      unfold pointedText
      rw [if_neg (by simp; omega), List.length_nil, Nat.zero_sub, pow_zero, div_one]
      decide +kernel
  | cons first rest =>
      have some : (first :: rest).map digitByte ≠ [] := List.cons_ne_nil _ _
      rw [orZero_of_ne_nil (pointedText_ne_nil col some)]
      unfold pointedText
      rw [List.length_map]
      split
      · rename_i both
        obtain ⟨k, before⟩ := Nat.exists_eq_succ_of_ne_zero (by omega : col.len - col.dec ≠ 0)
        have numeral := unsignedNumeral_point
          (fun digit member => decimal digit (List.mem_of_mem_take member))
          (fun digit member => decimal digit (List.mem_of_mem_drop member))
          (by rw [List.take_append_drop]; exact List.cons_ne_nil first rest :
            (first :: rest).take (col.len - col.dec) ++
            (first :: rest).drop (col.len - col.dec) ≠ [])
        rw [List.take_append_drop, List.length_drop] at numeral
        rw [← List.map_take, ← List.map_drop, ← numeral, before, Nat.succ_eq_add_one,
          List.take_succ_cons, List.map_cons, List.cons_append]
        exact plainNumeral_of_digit (decimal first List.mem_cons_self)
      · rename_i without
        have none : (first :: rest).length - (col.len - col.dec) = 0 := by
          by_cases point : 0 < col.dec
          · have early := fun reaches => without ⟨point, reaches⟩
            omega
          · omega
        rw [none, pow_zero, div_one, ← unsignedNumeral_digits decimal (List.cons_ne_nil _ _),
          List.map_cons]
        exact plainNumeral_of_digit (decimal first List.mem_cons_self)

/-- Digits after a minus that may end early. -/
theorem plainNumeral_minus_pointedText (digits : col.dec < col.len) {values : List ℕ}
    (decimal : ∀ digit ∈ values, digit < 10) (nonempty : values ≠ [])
    (short : values.length + 1 ≤ col.len) :
    plainNumeral (pointedText col (45 :: values.map digitByte)) =
      some (-Decimal.value values / 10 ^ (values.length + 1 - (col.len - col.dec)) : ℚ) := by
  obtain ⟨k, before⟩ := Nat.exists_eq_succ_of_ne_zero (by omega : col.len - col.dec ≠ 0)
  unfold pointedText
  rw [List.length_cons, List.length_map]
  split
  · have numeral := unsignedNumeral_point
      (fun digit member => decimal digit (List.mem_of_mem_take member))
      (fun digit member => decimal digit (List.mem_of_mem_drop member))
      (by rw [List.take_append_drop]; exact nonempty : values.take k ++ values.drop k ≠ [])
    rw [List.take_append_drop, List.length_drop] at numeral
    rw [before, Nat.succ_eq_add_one, List.take_succ_cons, List.drop_succ_cons, List.cons_append,
      plainNumeral_minus, ← List.map_take, ← List.map_drop, numeral, Option.map_some,
      Nat.add_sub_add_right, neg_div]
  · rename_i without
    have none : values.length + 1 - (col.len - col.dec) = 0 := by
      by_cases point : 0 < col.dec
      · have early := fun reaches => without ⟨point, reaches⟩
        omega
      · omega
    rw [none, pow_zero, div_one, plainNumeral_minus, unsignedNumeral_digits decimal nonempty,
      Option.map_some]

/-- The characters of a number that is not negative are its digits. -/
theorem signChars_nonneg {len : ℕ} (room : 0 < len) {n : ℤ} (fits : n.natAbs < 10 ^ len)
    (above : ¬ n < 0) :
    signChars (numericField len n) = (Decimal.fixed len n.natAbs).map digitByte := by
  unfold signChars
  rw [negativeField_numericField room fits, decide_eq_false above]
  simp only [numericField, above, Bool.false_eq_true, ↓reduceIte]

/-- The characters of a negative number are a minus and its digits but the first. -/
theorem signChars_negative {len : ℕ} (room : 0 < len) {n : ℤ} (fits : n.natAbs < 10 ^ len)
    (below : n < 0) {first : ℕ} {rest : List ℕ}
    (shape : Decimal.fixed len n.natAbs = first :: rest) :
    signChars (numericField len n) = (if rest = [] then 48 else 45) :: rest.map digitByte := by
  obtain ⟨front, last, shape', decimal, _, _, field⟩ := numericField_eq room fits
  have sign := signed_setSign_digitByte decimal
  rw [shape] at shape'
  rw [field, if_pos below]
  cases front with
  | nil =>
      obtain ⟨rfl, rfl⟩ := List.cons.inj shape'
      exact signChars_singleton sign
  | cons digit front =>
      rw [List.cons_append] at shape'
      obtain ⟨rfl, rfl⟩ := List.cons.inj shape'
      rw [List.map_cons, signChars_cons _ _ sign, clearSign_setSign_digitByte decimal,
        if_neg (by simp), List.map_append, List.map_singleton, List.cons_append]

/-- A number with few decimals is stored as it is. -/
theorem roundTo_scaled {dec e : ℕ} (few : e ≤ dec) (m : ℤ) :
    roundTo dec (m / 10 ^ e) = ((m * 10 ^ (dec - e) : ℤ) : ℚ) / 10 ^ dec := by
  have scaled : (m / 10 ^ e : ℚ) = ((m * 10 ^ (dec - e) : ℤ) : ℚ) / 10 ^ dec := by
    have power : (10 : ℚ) ^ dec = 10 ^ (dec - e) * 10 ^ e := by
      rw [← pow_add]
      congr 1
      omega
    rw [power]
    push_cast
    field_simp
  rw [scaled, roundTo_exact]

/-- When the first `i` of `len` digits, perhaps without the leading one, make the number that
all of them make. -/
theorem scaled_eq_iff {a b c len dec i : ℕ} (digits : dec < len) (inside : i ≤ len)
    (least : a ≤ b) :
    a * 10 ^ (dec - (i - (len - dec))) = b * 10 ^ (len - i) + c ↔
      a = b ∧ c = 0 ∧ (len - dec ≤ i ∨ b = 0) := by
  by_cases reaches : len - dec ≤ i
  · have exponent : dec - (i - (len - dec)) = len - i := by omega
    have larger := Nat.mul_le_mul_right (10 ^ (len - i)) least
    have positive : 0 < 10 ^ (len - i) := Nat.pow_pos (by decide)
    rw [exponent]
    constructor
    · intro same
      have equal : a * 10 ^ (len - i) = b * 10 ^ (len - i) := by omega
      exact ⟨Nat.eq_of_mul_eq_mul_right positive equal, by omega, Or.inl reaches⟩
    · rintro ⟨rfl, rfl, _⟩
      rfl
  · have exponent : dec - (i - (len - dec)) = dec := by omega
    have power : 10 ^ (len - i) = 10 ^ dec * 10 * 10 ^ (len - i - dec - 1) := by
      rw [← Nat.pow_succ, ← Nat.pow_add]
      congr 1
      omega
    have positive : 0 < 10 ^ dec := Nat.pow_pos (by decide)
    have more : 10 ^ dec * 10 ≤ 10 ^ (len - i) := by
      rw [power]
      exact Nat.le_mul_of_pos_right _ (Nat.pow_pos (by decide))
    have larger := Nat.mul_le_mul_right (10 ^ dec) least
    have larger' := Nat.mul_le_mul_left b more
    rw [exponent]
    constructor
    · intro same
      have none : b * 10 ^ dec = 0 := by
        rw [← Nat.mul_assoc] at larger'
        omega
      have zero := (Nat.mul_eq_zero.mp none).resolve_right positive.ne'
      obtain rfl : a = 0 := by omega
      rw [zero, Nat.zero_mul, Nat.zero_mul] at same
      exact ⟨zero.symm, by omega, Or.inr zero⟩
    · rintro ⟨rfl, rfl, early | rfl⟩
      · exact (reaches early).elim
      · rw [Nat.zero_mul, Nat.zero_mul]

theorem plainNumeral_minus_only : plainNumeral [45] = none ∧ plainNumeral [45, 46] = none := by
  decide +kernel

/-- A minus alone is no number. -/
theorem numeral_minus_alone {pg : Postgres} (digits : col.dec < col.len) :
    pg.numeral (pointedText col [45]) = none := by
  have text : pointedText col [45] = [45] ∨ pointedText col [45] = [45, 46] := by
    unfold pointedText
    split
    · rename_i both
      have first : col.len - col.dec = 1 := by
        have reaches := both.2
        rw [List.length_singleton] at reaches
        omega
      rw [first]
      exact Or.inr rfl
    · exact Or.inl rfl
  unfold Postgres.numeral
  rcases text with text | text
  · rw [text, plainNumeral_minus_only.1]
    exact pg.other_plain [45] (by decide)
  · rw [text, plainNumeral_minus_only.2]
    exact pg.other_plain [45, 46] (by decide)

/-- The number that PostgreSQL takes the sent characters of a number for. -/
theorem sent_numeral {pg : Postgres} (digits : col.dec < col.len) {n : ℤ}
    (fits : n.natAbs < 10 ^ col.len) {i : ℕ} (inside : i ≤ col.len) (some_ : 0 < i ∨ ¬ n < 0)
    {number : ℚ} (denotes : pg.numeral (orZero (pointedText col
      ((signChars (numericField col.len n)).take i))) = some number) :
    ∃ a : ℕ, number = ((if n < 0 then -(a : ℤ) else a : ℤ) : ℚ) / 10 ^ (i - (col.len - col.dec)) ∧
      a ≤ Decimal.value ((Decimal.fixed col.len n.natAbs).take i) ∧
      (a = Decimal.value ((Decimal.fixed col.len n.natAbs).take i) ↔
        (n < 0 → (Decimal.fixed col.len n.natAbs).head? = some 0)) := by
  have decimal := Decimal.fixed_lt col.len n.natAbs
  have length := Decimal.length_fixed fits
  by_cases below : n < 0
  · obtain ⟨first, rest, shape⟩ := List.exists_cons_of_length_pos (length ▸ col.len_pos)
    rw [signChars_negative col.len_pos fits below shape] at denotes
    rw [shape] at decimal length ⊢
    obtain ⟨j, rfl⟩ := Nat.exists_eq_succ_of_ne_zero
      (some_.resolve_right (not_not.mpr below)).ne'
    have decimal' : ∀ digit ∈ rest.take j, digit < 10 := fun digit member =>
      decimal digit (List.mem_cons_of_mem _ (List.mem_of_mem_take member))
    rw [List.length_cons] at length
    have taken : (rest.take j).length = j := by
      rw [List.length_take]
      omega
    have numeral : number = ((-(Decimal.value (rest.take j) : ℤ) : ℤ) : ℚ) /
        10 ^ (j + 1 - (col.len - col.dec)) := by
      rw [List.take_succ_cons, ← List.map_take] at denotes
      by_cases single : rest = []
      · -- the only digit gave way to the sign, and the sign to a zero
        rw [single, List.take_nil] at denotes ⊢
        have text := plainNumeral_pointedText digits
          (by decide : ∀ digit ∈ ([0] : List ℕ), digit < 10) (by simp; omega)
        unfold Postgres.numeral at denotes
        rw [if_pos rfl, show (48 :: List.map digitByte []) = [0].map digitByte from rfl,
          text] at denotes
        rw [← Option.some.inj denotes]
        simp [Decimal.value]
      · rw [if_neg single,
          orZero_of_ne_nil (pointedText_ne_nil col (List.cons_ne_nil _ _))] at denotes
        have several : rest.take j ≠ [] := by
          intro empty
          rw [empty, List.map_nil, numeral_minus_alone digits] at denotes
          cases denotes
        have text := plainNumeral_minus_pointedText digits decimal' several (by omega)
        unfold Postgres.numeral at denotes
        rw [text] at denotes
        rw [← Option.some.inj denotes, taken]
        push_cast
        rfl
    have positive : 0 < 10 ^ j := Nat.pow_pos (by decide)
    refine ⟨Decimal.value (rest.take j), by rw [if_pos below]; exact numeral, ?_, ?_⟩
    · rw [List.take_succ_cons, Decimal.value_cons]
      omega
    · rw [List.take_succ_cons, Decimal.value_cons, taken, List.head?_cons, Option.some.injEq]
      simp only [below, true_imp_iff]
      constructor
      · intro same
        have none : first * 10 ^ j = 0 := by omega
        exact (Nat.mul_eq_zero.mp none).resolve_right positive.ne'
      · rintro rfl
        omega
  · rw [signChars_nonneg col.len_pos fits below, ← List.map_take] at denotes
    have decimal' : ∀ digit ∈ (Decimal.fixed col.len n.natAbs).take i, digit < 10 :=
      fun digit member => decimal digit (List.mem_of_mem_take member)
    have taken : ((Decimal.fixed col.len n.natAbs).take i).length = i := by
      rw [List.length_take]
      omega
    have numeral := plainNumeral_pointedText digits decimal' (by omega)
    unfold Postgres.numeral at denotes
    rw [numeral] at denotes
    refine ⟨_, ?_, le_refl _, iff_of_true rfl fun negative => (below negative).elim⟩
    rw [if_neg below, ← Option.some.inj denotes, taken, Int.cast_natCast]

theorem negativeField_isamField (numeric : col.tp = .numeric) (field : List Byte) :
    negativeField (isamField col field) = negativeField field := by
  unfold negativeField isamField
  rw [List.getLast?_map, Option.map_map, numeric]
  congr 2
  exact funext fun byte => (byteTaken byte).kept

/-- The sign is sent, so something is. -/
theorem sign_sent (full : field.length = col.len) (negative : negativeField field = true) :
    0 < (cstr (signChars field)).length := by
  obtain ⟨front, last, rfl, sign⟩ := exists_signed_last full negative
  cases front with
  | nil =>
      rw [List.nil_append, signChars_singleton sign]
      decide
  | cons first front =>
      rw [signChars_cons first front sign, List.cons_append, cstr_cons (by decide),
        List.length_cons]
      exact Nat.succ_pos _

/-- A number is stored as what `reccmp` takes its field for just when it settles. -/
theorem number_settles_iff {pg : Postgres} (numeric : col.tp = .numeric)
    (digits : col.dec < col.len) (wellFormed : NumericField (isamField col field))
    (full : field.length = col.len) {value : Value}
    (stored : pg.store col (sentText col field) = some value) :
    value = fieldValue col (isamField col field) ↔ NumberSettles col field := by
  have full' := (length_isamField col field).trans full
  obtain ⟨shape, fits⟩ := wellFormed.eq (List.ne_nil_of_length_pos (full' ▸ col.len_pos))
  rw [full'] at shape fits
  have negative := negativeField_isamField numeric field
  rw [sentText_numeric numeric digits wellFormed full] at stored
  obtain ⟨number, denotes, rfl⟩ := store_numeric numeric stored
  have inside : (cstr (signChars field)).length ≤ col.len := by
    have short := length_cstr_le (signChars field)
    rw [length_signChars, full] at short
    exact short
  have sent := @sign_sent col field full
  unfold NumberSettles SignFits
  generalize isamField col field = taken at shape fits negative denotes ⊢
  generalize (cstr (signChars field)).length = i at inside sent denotes ⊢
  generalize fieldInt taken = n at shape fits
  subst shape
  have bit := negativeField_numericField col.len_pos fits
  have some_ : 0 < i ∨ ¬ n < 0 := by
    by_cases below : n < 0
    · refine Or.inl (sent ?_)
      rw [← negative, bit, decide_eq_true below]
    · exact Or.inr below
  obtain ⟨a, rfl, least, same⟩ := sent_numeral digits fits inside some_ denotes
  have value := Decimal.value_fixed col.len n.natAbs
  have length := Decimal.length_fixed fits
  rw [← List.take_append_drop i (Decimal.fixed col.len n.natAbs), Decimal.value_append,
    List.length_drop, length] at value
  have scaled := @scaled_eq_iff _ _ (Decimal.value ((Decimal.fixed col.len n.natAbs).drop i)) _ _ _
    digits inside least
  rw [value, same, Decimal.value_eq_zero_iff] at scaled
  rw [bit, decide_eq_true_iff, fieldDigits_numericField col.len_pos fits,
    roundTo_scaled (by omega), fieldValue]
  simp only [numeric, Value.num.injEq]
  rw [fieldInt_numericField col.len_pos fits, div_left_inj' (by positivity), Int.cast_inj]
  have magnitude :
    (if n < 0 then -(a : ℤ) else a) * 10 ^ (col.dec - (i - (col.len - col.dec))) = n ↔
      a * 10 ^ (col.dec - (i - (col.len - col.dec))) = n.natAbs := by
    have cast : ((a * 10 ^ (col.dec - (i - (col.len - col.dec))) : ℕ) : ℤ) =
        a * 10 ^ (col.dec - (i - (col.len - col.dec))) := by
      push_cast
      rfl
    split
    · rw [neg_mul, ← cast]
      omega
    · rw [← cast]
      omega
  rw [magnitude, scaled]
  refine and_congr_right fun _ => and_congr_right fun zeros => or_congr_right ?_
  rw [Decimal.value_eq_zero_iff]
  constructor
  · intro front digit member
    rw [← List.take_append_drop i (Decimal.fixed col.len n.natAbs)] at member
    rcases List.mem_append.mp member with member | member
    · exact front digit member
    · exact zeros digit member
  · intro whole digit member
    exact whole digit (List.mem_of_mem_take member)

end Numeric

/-! ## Fields -/

/-- What is stored for a field agrees with it just when the field settles. -/
theorem field_settles_iff {pg : Postgres} {col : Column} {field : List Byte}
    {later : List (List Byte)} {value : Value} (full : field.length = col.len)
    (clean : 0 ∉ runInto (sentText col field) later)
    (stored : pg.store col (runInto (sentText col field) later) = some value) :
    Agrees col value field ↔ FieldSettles pg col field later := by
  obtain ⟨fits, present⟩ := store_fits clean stored
  rw [agrees_iff fits present full]
  unfold FieldSettles
  refine and_congr_right fun wellFormed => ?_
  split
  · rename_i short
    rw [runInto_eq_self short] at stored
    unfold FieldOk at wellFormed
    unfold ShortSettles
    cases type : col.tp with
    | numeric =>
        simp only [type] at wellFormed ⊢
        exact number_settles_iff type wellFormed.1 wellFormed.2 full stored
    | character =>
        have text : sentText col field = cstr field := by
          unfold sentText Param.checked Param.write writeBlock writeChars
          simp only [type]
          exact cstr_append_nul field
        have length := length_cstr_le field
        rw [text, store_character type (by omega)] at stored
        rw [← Option.some.inj stored]
        simp only [fieldValue, type, Value.chr.injEq]
        exact text_settles_iff type full
  · rw [stored, Option.some.injEq]

end Pqfh
