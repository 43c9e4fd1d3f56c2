import Pqfh.Handler.Params
import Pqfh.Handler.RoundTrip
import Pqfh.Postgres.Numeral

/-! # The texts of key fields

A key field becomes a text in three ways: when WRITE inserts it, when READ and DELETE look
for it, and when REWRITE does. `Pqfh.key_agree_iff` says when the three stand for one
value.
-/

namespace Pqfh

/-! ## The texts -/

/-- An empty number is read as 0. -/
def orZero (text : List Byte) : List Byte := if text = [] then [48] else text

/-- A number in a key is never repaired. -/
theorem validaNumero_key (real : Bool) (conteudo : List Byte) :
    validaNumero true real conteudo =
      (orZero conteudo, !scanNumero real false false (orZero conteudo)) := by
  change (if scanNumero real false false (orZero conteudo) = true then (orZero conteudo, false)
    else _) = _
  by_cases valid : scanNumero real false false (orZero conteudo) = true
  · rw [if_pos valid, valid]
    rfl
  · rw [if_neg valid, Bool.eq_false_iff.mpr valid]
    rfl

/-- The text of a numeric field with its point, when the field ends at its first NUL. -/
def pointedText (col : Column) (text : List Byte) : List Byte :=
  if 0 < col.dec ∧ col.len - col.dec ≤ text.length then
    text.take (col.len - col.dec) ++ 46 :: text.drop (col.len - col.dec)
  else text

/-- A field with a point reads as its text with a point. -/
theorem cstr_pointed {col : Column} {field : List Byte} (full : field.length = col.len) :
    cstr (pointed col field ++ [0]) = pointedText col (cstr field) := by
  have small := col.dec_le
  rw [cstr_append_nul]
  unfold pointed pointedText
  by_cases point : 0 < col.dec
  · have split := cstr_eq_split field (col.len - col.dec)
    rw [if_pos point, cstr_append]
    by_cases ended : 0 ∈ field.take (col.len - col.dec)
    · rw [if_pos ended] at split ⊢
      have shorter := length_cstr_lt_iff.mpr ended
      rw [← split, List.length_take] at shorter
      rw [if_neg (by omega), split]
    · rw [if_neg ended] at split ⊢
      have front : (field.take (col.len - col.dec)).length = col.len - col.dec := by
        rw [List.length_take]
        omega
      rw [split, if_pos ⟨point, by rw [List.length_append]; omega⟩, List.take_left' front,
        List.drop_left' front, cstr_cons (by decide)]
  · rw [if_neg point, if_neg fun both => point both.1]

/-- The text by which READ and DELETE look for a numeric key field. -/
def keyText (col : Column) (field : List Byte) : List Byte :=
  if cstr field = [] then [48] else pointedText col (cstr field)

/-- A field begins with NUL exactly when it reads as no text. -/
theorem head?_eq_zero_iff {field : List Byte} (nonempty : field ≠ []) :
    field.head? = some 0 ↔ cstr field = [] := by
  cases field with
  | nil => exact (nonempty rfl).elim
  | cons byte rest =>
      rw [List.head?_cons, Option.some.injEq]
      by_cases zero : byte = 0
      · simp only [zero, cstr, List.takeWhile_cons, ne_eq, not_true_eq_false, decide_false,
          Bool.false_eq_true, ↓reduceIte]
      · rw [cstr_cons zero]
        exact iff_of_false zero (List.cons_ne_nil _ _)

/-- Putting a point in leaves some text. -/
theorem pointedText_ne_nil (col : Column) {text : List Byte} (nonempty : text ≠ []) :
    pointedText col text ≠ [] := by
  unfold pointedText
  split
  · simp
  · exact nonempty

/-- A key always has a text. -/
theorem keyText_ne_nil (col : Column) (field : List Byte) : keyText col field ≠ [] := by
  unfold keyText
  split
  · exact List.cons_ne_nil _ _
  · rename_i nonempty
    exact pointedText_ne_nil col nonempty

/-- Only an empty text is read as zero. -/
theorem orZero_of_ne_nil {text : List Byte} (nonempty : text ≠ []) : orZero text = text :=
  if_neg nonempty

section Numeric

variable {col : Column} {field : List Byte}

/-- What a key parameter sends of a number, and whether it is refused. -/
theorem checked_key (numeric : col.tp = .numeric) (full : field.length = col.len) :
    (Param.key col true).checked field =
      (keyText col field, !scanNumero (0 < col.dec) false false (keyText col field)) := by
  have nonempty : field ≠ [] := List.ne_nil_of_length_pos (full ▸ col.len_pos)
  have text : cstr (keyBlock col field) = keyText col field := by
    unfold keyBlock keyText
    simp only [numeric, head?_eq_zero_iff nonempty]
    split
    · rfl
    · exact cstr_pointed full
  unfold Param.checked Param.key
  simp only [numeric]
  rw [validaNumero_key, text, orZero_of_ne_nil (keyText_ne_nil col field)]

/-- What REWRITE sends of a number, and whether it is refused. -/
theorem checked_rewrite (numeric : col.tp = .numeric) :
    (Param.rewrite col true).checked field =
      (orZero (cstr field), !scanNumero (0 < col.dec) false false (orZero (cstr field))) := by
  unfold Param.checked Param.rewrite rewriteBlock
  simp only [numeric]
  rw [validaNumero_key, cstr_append_nul]

/-- The text that WRITE makes of a numeric key field. -/
def writeText (col : Column) (field : List Byte) : List Byte := orZero (cstr (writeChars col field))

/-- What WRITE sends of a number, and whether it is refused. -/
theorem checked_writeText (numeric : col.tp = .numeric) :
    (Param.write col true).checked field =
      (writeText col field, !scanNumero (0 < col.dec) false false (writeText col field)) := by
  unfold Param.checked Param.write writeBlock writeText
  simp only [numeric]
  rw [validaNumero_key, cstr_append_nul]

/-- Without a sign WRITE makes the text that READ makes, but for an empty field of decimals
only, for which it makes a point. -/
theorem writeText_unsigned (numeric : col.tp = .numeric) (full : field.length = col.len)
    (positive : negativeField field = false) :
    writeText col field = keyText col field ∨ (cstr field = [] ∧ writeText col field = [46]) := by
  have chars : writeChars col field = pointed col field := by
    unfold writeChars
    simp only [numeric, positive, Bool.false_eq_true, ↓reduceIte]
  unfold writeText keyText
  rw [chars, ← cstr_append_nul, cstr_pointed full]
  by_cases empty : cstr field = []
  · rw [if_pos empty, empty]
    unfold pointedText
    split
    · exact Or.inr ⟨rfl, by rw [List.take_nil, List.drop_nil]; rfl⟩
    · exact Or.inl rfl
  · rw [if_neg empty, orZero_of_ne_nil (pointedText_ne_nil col empty)]
    exact Or.inl rfl

/-- A negative field ends in a byte that carries the sign. -/
theorem exists_signed_last (full : field.length = col.len) (negative : negativeField field = true) :
    ∃ front last, field = front ++ [last] ∧ signed last := by
  have nonempty : field ≠ [] := List.ne_nil_of_length_pos (full ▸ col.len_pos)
  have shape := (List.dropLast_append_getLast nonempty).symm
  rw [shape, negativeField_concat] at negative
  exact ⟨field.dropLast, field.getLast nonempty, shape, negative⟩

/-- With a sign, and a NUL after the first byte, WRITE puts a minus in the place of the first
character. -/
theorem writeText_signed (numeric : col.tp = .numeric) (full : field.length = col.len)
    (negative : negativeField field = true) (ended : 0 ∈ field) (nonempty : cstr field ≠ []) :
    writeText col field = 45 :: (keyText col field).tail := by
  obtain ⟨front, last, rfl, sign⟩ := exists_signed_last full negative
  have inFront : 0 ∈ front := by
    rcases List.mem_append.mp ended with member | member
    · exact member
    · rw [← List.mem_singleton.mp member] at sign
      exact absurd sign (by decide)
  have length : front.length + 1 = col.len := by
    rw [← full, List.length_append, List.length_singleton]
  have several : 1 < col.len := by
    have some := List.length_pos_of_mem inFront
    omega
  have text := cstr_pointed full
  rw [cstr_append_nul] at text
  have chars : writeChars col (front ++ [last]) =
      ((pointed col (front ++ [last])).set 0 45).modify
        (if 0 < col.dec then col.len else col.len - 1) clearSign := by
    unfold writeChars
    simp only [numeric, negative, several, ↓reduceIte]
  unfold writeText keyText
  rw [if_neg nonempty, ← text, chars]
  have some := pointedText_ne_nil col nonempty
  rw [← text] at some
  rw [pointed_concat length] at some ⊢
  generalize shape : (if 0 < col.dec then front.take (col.len - col.dec) ++
    46 :: front.drop (col.len - col.dec) else front) = init at some ⊢
  have inInit : 0 ∈ init := by
    rw [← shape]
    split
    · rw [← List.take_append_drop (col.len - col.dec) front] at inFront
      rcases List.mem_append.mp inFront with member | member
      · exact List.mem_append_left _ member
      · exact List.mem_append_right _ (List.mem_cons_of_mem _ member)
    · exact inFront
  have place : (if 0 < col.dec then col.len else col.len - 1) = init.length := by
    rw [← shape]
    split
    · rw [List.length_append, List.length_cons, List.length_take, List.length_drop]
      omega
    · omega
  rw [place]
  cases init with
  | nil => cases inInit
  | cons first init =>
      have nonzero : first ≠ 0 := by
        rintro rfl
        exact some (by rw [cstr_append, if_pos inInit]; rfl)
      have later : 0 ∈ init := by
        rcases List.mem_cons.mp inInit with equal | member
        · exact (nonzero equal.symm).elim
        · exact member
      have modified := modify_length (45 :: init) last clearSign
      rw [List.cons_append, List.set_cons_zero]
      rw [List.cons_append, List.length_cons] at modified
      rw [List.length_cons, modified, List.cons_append,
        cstr_cons (by decide : (45 : Byte) ≠ 0), cstr_cons nonzero, cstr_append, if_pos later,
        cstr_append, if_pos later, orZero_of_ne_nil (List.cons_ne_nil _ _), List.tail_cons]

/-- A signed byte does not pass the check. -/
theorem nul_of_signed_key (full : field.length = col.len) (negative : negativeField field = true)
    (valid : scanNumero (0 < col.dec) false false (keyText col field)) : 0 ∈ field := by
  by_contra clean
  obtain ⟨front, last, rfl, sign⟩ := exists_signed_last full negative
  have member : last ∈ keyText col (front ++ [last]) := by
    unfold keyText pointedText
    rw [cstr_eq_self clean, if_neg (by simp)]
    split
    · have inside : last ∈ (front ++ [last]).take (col.len - col.dec) ++
          (front ++ [last]).drop (col.len - col.dec) := by
        rw [List.take_append_drop]
        exact List.mem_append_right _ List.mem_cons_self
      rcases List.mem_append.mp inside with member | member
      · exact List.mem_append_left _ member
      · exact List.mem_append_right _ (List.mem_cons_of_mem _ member)
    · exact List.mem_append_right _ List.mem_cons_self
  have allowed := List.all_eq_true.mp (scanNumero_numeralChar valid) last member
  have none : ∀ byte : Byte, signed byte = true → numeralChar byte = true → False := by
    decide +kernel
  exact none last sign allowed

end Numeric

/-! ## When the texts stand for one value -/

/-- The texts by which READ, DELETE and REWRITE look for a key field pass the check and stand
for a value. -/
def KeyAgrees (pg : Postgres) (col : Column) (field : List Byte) (value : Value) : Prop :=
  ((Param.key col true).checked field).2 = false ∧
    pg.denote col ((Param.key col true).checked field).1 = some value ∧
    ((Param.rewrite col true).checked field).2 = false ∧
    pg.denote col ((Param.rewrite col true).checked field).1 = some value

/-- What is asked of a key field. A numeric one passes the check and has no more decimals
than the column; then REWRITE, which puts no point, must have none to put, and WRITE, which
puts a minus for a sign, must find one there and have room in the row. Neither matters
when the number is zero. -/
def KeySafe (pg : Postgres) (col : Column) (field : List Byte) (later : List (List Byte)) : Prop :=
  col.tp = .numeric →
    scanNumero (0 < col.dec) false false (keyText col field) = true ∧
    (∃ n : ℤ, plainNumeral (keyText col field) = some (n / 10 ^ col.dec : ℚ)) ∧
    (col.dec = 0 ∨ (cstr field).length ≤ col.len - col.dec ∨ AllZero (keyText col field)) ∧
    (((negativeField field = true → (keyText col field).head? = some 45) ∧
        ((writeText col field).length < rowSize ∨ later = [])) ∨
      (AllZero (keyText col field) ∧
        pg.store col (runInto (writeText col field) later) = some (.num 0)))

/-- A text of a character column is stored as it is compared. -/
theorem store_character {pg : Postgres} {col : Column} (character : col.tp = .character)
    {text : List Byte} (short : text.length ≤ col.len) :
    pg.store col text = some (.chr (rtrim text)) := by
  simp only [Postgres.store, character]
  rw [List.drop_eq_nil_of_le short, List.take_of_length_le short]
  rfl

/-- The three encoders send a character column alike, once the text that WRITE sent was stored. -/
theorem key_agree_character {pg : Postgres} {col : Column} {field : List Byte}
    {later : List (List Byte)} {value : Value} (character : col.tp = .character)
    (full : field.length = col.len) (short : col.len ≤ maxKeyLen)
    (stored : pg.store col (runInto ((Param.write col true).checked field).1 later) = some value) :
    KeyAgrees pg col field value := by
  have length := length_cstr_le field
  have written : ((Param.write col true).checked field).1 = cstr field := by
    unfold Param.checked Param.write writeBlock writeChars
    simp only [character]
    exact cstr_append_nul field
  have fits : (cstr field).length < rowSize := by
    unfold maxKeyLen at short
    unfold rowSize
    omega
  rw [written, runInto_eq_self (Or.inl fits), store_character character (by omega)] at stored
  unfold KeyAgrees Param.checked Param.key Param.rewrite keyBlock rewriteBlock Postgres.denote
  simp only [character, cstr_append_nul, stored, and_self]

section Numeric

variable {pg : Postgres} {col : Column} {field : List Byte} {later : List (List Byte)}

/-- What is stored for a number. -/
theorem store_numeric (numeric : col.tp = .numeric) {text : List Byte} {value : Value}
    (stored : pg.store col text = some value) :
    ∃ number, pg.numeral text = some number ∧ value = .num (roundTo col.dec number) := by
  simp only [Postgres.store, numeric] at stored
  split at stored
  · cases stored
  · rename_i number denotes
    split at stored
    · cases stored
      exact ⟨number, denotes, rfl⟩
    · cases stored

/-- A rounded number has the decimals it was rounded to. -/
theorem roundTo_decimals (dec : ℕ) (number : ℚ) : ∃ n : ℤ, roundTo dec number = n / 10 ^ dec := by
  unfold roundTo
  split
  · exact ⟨_, rfl⟩
  · exact ⟨-⌊-number * 10 ^ dec + 1 / 2⌋, by push_cast; ring⟩

/-- Rounding makes no number positive that was not. -/
theorem roundTo_nonpos (dec : ℕ) {number : ℚ} (nonpos : number ≤ 0) : roundTo dec number ≤ 0 := by
  unfold roundTo
  split
  · rename_i nonneg
    obtain rfl : number = 0 := le_antisymm nonpos nonneg
    have half : ⌊(1 / 2 : ℚ)⌋ = 0 := by norm_num
    rw [zero_mul, zero_add, half, Int.cast_zero, zero_div]
  · rename_i negative
    have positive : (0 : ℚ) ≤ -number * 10 ^ dec + 1 / 2 := by
      have : 0 ≤ -number := by linarith
      positivity
    have floor : (0 : ℚ) ≤ ⌊-number * 10 ^ dec + 1 / 2⌋ := by
      exact_mod_cast Int.floor_nonneg.mpr positive
    rw [neg_nonpos]
    positivity

/-- The text of REWRITE is that of READ without its point. -/
theorem rewrite_denotes {number : ℚ}
    (denotes : plainNumeral (keyText col field) = some number)
    (valid : scanNumero (0 < col.dec) false false (keyText col field)) :
    scanNumero (0 < col.dec) false false (orZero (cstr field)) = true ∧
    plainNumeral (orZero (cstr field)) =
      some (if 0 < col.dec then number * 10 ^ ((cstr field).length - (col.len - col.dec))
        else number : ℚ) := by
  unfold keyText at denotes valid
  by_cases empty : cstr field = []
  · rw [if_pos empty] at denotes valid
    rw [empty, orZero, if_pos rfl, List.length_nil, Nat.zero_sub, pow_zero, mul_one, ite_self]
    exact ⟨valid, denotes⟩
  · rw [if_neg empty] at denotes valid
    rw [orZero_of_ne_nil empty]
    unfold pointedText at denotes valid
    by_cases point : 0 < col.dec ∧ col.len - col.dec ≤ (cstr field).length
    · rw [if_pos point] at denotes valid
      have once := plainNumeral_count_point denotes
      have none : 46 ∉ cstr field := by
        rw [← List.count_eq_zero]
        have parts := congrArg (List.count 46)
          (List.take_append_drop (col.len - col.dec) (cstr field))
        rw [List.count_append] at parts
        rw [List.count_append, List.count_cons_self] at once
        omega
      have without :=
        scanNumero_without_point (fun member => none (List.mem_of_mem_take member)) valid
      rw [List.take_append_drop] at without
      rw [if_pos point.1]
      exact ⟨without, plainNumeral_without_point none denotes⟩
    · rw [if_neg point] at denotes valid
      refine ⟨valid, ?_⟩
      rw [denotes]
      split
      · rename_i decimals
        have early : (cstr field).length - (col.len - col.dec) = 0 := by
          have before := fun place => point ⟨decimals, place⟩
          omega
        rw [early, pow_zero, mul_one]
      · rfl

/-- READ and REWRITE look for one number just when REWRITE has no point to put, or the number
is zero. -/
theorem rewrite_agrees_iff {number : ℚ}
    (denotes : plainNumeral (keyText col field) = some number) :
    (if 0 < col.dec then number * 10 ^ ((cstr field).length - (col.len - col.dec))
        else number : ℚ) = number ↔
      (col.dec = 0 ∨ (cstr field).length ≤ col.len - col.dec ∨ AllZero (keyText col field)) := by
  rw [← plainNumeral_eq_zero_iff denotes]
  by_cases whole : col.dec = 0
  · rw [if_neg (by omega)]
    exact iff_of_true rfl (Or.inl whole)
  · rw [if_pos (by omega), or_iff_right whole, mul_right_eq_self₀]
    apply or_congr_left
    constructor
    · intro one
      by_contra larger
      have more : (1 : ℚ) < 10 ^ ((cstr field).length - (col.len - col.dec)) :=
        one_lt_pow₀ (by norm_num) (by omega)
      exact more.ne' one
    · intro early
      rw [Nat.sub_eq_zero_of_le early, pow_zero]

/-- The text of a key is one byte longer than the field at most. -/
theorem length_keyText_le (col : Column) (nonempty : cstr field ≠ []) :
    (keyText col field).length ≤ (cstr field).length + if 0 < col.dec then 1 else 0 := by
  unfold keyText pointedText
  rw [if_neg nonempty]
  split
  · rename_i point
    rw [if_pos point.1, List.length_append, List.length_cons, List.length_take, List.length_drop]
    omega
  · exact Nat.le_add_right _ _

/-- The text of WRITE is that of READ, or has a minus in its first place. -/
theorem writeText_cases (numeric : col.tp = .numeric) (full : field.length = col.len)
    (nonempty : cstr field ≠ [])
    (valid : scanNumero (0 < col.dec) false false (keyText col field)) :
    writeText col field = keyText col field ∨
      negativeField field = true ∧ writeText col field = 45 :: (keyText col field).tail := by
  by_cases negative : negativeField field = true
  · exact Or.inr ⟨negative, writeText_signed numeric full negative
      (nul_of_signed_key full negative valid) nonempty⟩
  · rcases writeText_unsigned numeric full (Bool.eq_false_iff.mpr negative) with same | ⟨empty, _⟩
    · exact Or.inl same
    · exact (nonempty empty).elim

/-- The digit zero is nothing but zeros. -/
theorem allZero_zero : AllZero [48] := by
  intro byte member _
  exact List.mem_singleton.mp member

/-- The encoders send a number alike when WRITE's text was valid and was stored. -/
theorem key_agree_numeric {value : Value} (numeric : col.tp = .numeric)
    (full : field.length = col.len) (short : col.len ≤ maxKeyLen)
    (valid : scanNumero (0 < col.dec) false false (writeText col field) = true)
    (stored : pg.store col (runInto (writeText col field) later) = some value) :
    KeyAgrees pg col field value ↔ KeySafe pg col field later := by
  obtain ⟨sent, received, rounded⟩ := store_numeric numeric stored
  unfold KeyAgrees KeySafe Postgres.denote
  rw [checked_key numeric full, checked_rewrite numeric]
  simp only [numeric, true_imp_iff, Bool.not_eq_false']
  constructor
  · rintro ⟨passes, denoted, passes', denoted'⟩
    rw [numeral_eq_plainNumeral passes] at denoted
    rw [numeral_eq_plainNumeral passes'] at denoted'
    obtain ⟨number, denotes, rfl⟩ := Option.map_eq_some_iff.mp denoted
    obtain ⟨number', denotes', same⟩ := Option.map_eq_some_iff.mp denoted'
    obtain rfl := Value.num.inj same
    obtain ⟨_, without⟩ := rewrite_denotes denotes passes
    have point := (rewrite_agrees_iff denotes).mp (Option.some.inj (without.symm.trans denotes'))
    obtain ⟨n, decimals⟩ := roundTo_decimals col.dec sent
    have equal : number' = roundTo col.dec sent := Value.num.inj rounded
    refine ⟨passes, ⟨n, by rw [denotes, equal, decimals]⟩, point, ?_⟩
    by_cases zero : number' = 0
    · rw [zero] at stored
      exact Or.inr ⟨(plainNumeral_eq_zero_iff denotes).mp zero, stored⟩
    · have nonzero : ¬ AllZero (keyText col field) := fun all =>
        zero ((plainNumeral_eq_zero_iff denotes).mpr all)
      have nonempty : cstr field ≠ [] := by
        intro empty
        apply nonzero
        unfold keyText
        rw [if_pos empty]
        exact allZero_zero
      have texts := writeText_cases numeric full nonempty passes
      have fits : (writeText col field).length < rowSize := by
        have most := length_keyText_le col nonempty
        have whole := length_cstr_le field
        have some := List.length_pos_of_ne_nil (keyText_ne_nil col field)
        have length : (writeText col field).length = (keyText col field).length := by
          rcases texts with same | ⟨_, minus⟩
          · rw [same]
          · rw [minus, List.length_cons, List.length_tail]
            omega
        rw [or_assoc.symm, or_iff_left nonzero] at point
        unfold maxKeyLen at short
        unfold rowSize
        split at most
        · omega
        · omega
      refine Or.inl ⟨fun negative => ?_, Or.inl fits⟩
      by_contra positive
      have minus := writeText_signed numeric full negative
        (nul_of_signed_key full negative passes) nonempty
      rw [runInto_eq_self (Or.inl fits), numeral_eq_plainNumeral valid] at received
      have below := (plainNumeral_sign received).1 (by rw [minus]; rfl)
      have above := (plainNumeral_sign denotes).2 positive
      have rounded' := roundTo_nonpos col.dec below
      rw [← equal] at rounded'
      exact zero (le_antisymm rounded' above)
  · rintro ⟨passes, ⟨n, denotes⟩, point, last⟩
    obtain ⟨passes', without⟩ := rewrite_denotes denotes passes
    rw [(rewrite_agrees_iff denotes).mpr point] at without
    have equal : value = .num (n / 10 ^ col.dec) := by
      rcases last with ⟨sign, fits⟩ | ⟨zeros, zero⟩
      · rw [runInto_eq_self fits, numeral_eq_plainNumeral valid] at received
        have same : writeText col field = keyText col field := by
          by_cases negative : negativeField field = true
          · have head := sign negative
            have nonempty : cstr field ≠ [] := by
              intro empty
              unfold keyText at head
              rw [if_pos empty] at head
              exact absurd head (by decide)
            rw [writeText_signed numeric full negative (nul_of_signed_key full negative passes)
              nonempty]
            exact List.cons_head?_tail head
          · rcases writeText_unsigned numeric full (Bool.eq_false_iff.mpr negative) with
              same | ⟨_, dot⟩
            · exact same
            · rw [dot] at received
              cases received
        rw [same, denotes] at received
        rw [rounded, ← Option.some.inj received, roundTo_exact]
      · rw [stored] at zero
        rw [Option.some.inj zero, (plainNumeral_eq_zero_iff denotes).mpr zeros]
    rw [numeral_eq_plainNumeral passes, numeral_eq_plainNumeral passes', denotes, without, equal]
    exact ⟨passes, rfl, passes', rfl⟩

end Numeric

/-- What WRITE stores for a key field is what the other operations look for just when the
field is safe. -/
theorem key_agree_iff {pg : Postgres} {col : Column} {field : List Byte} {later : List (List Byte)}
    {value : Value} (full : field.length = col.len) (short : col.len ≤ maxKeyLen)
    (valid : ((Param.write col true).checked field).2 = false)
    (stored : pg.store col (runInto ((Param.write col true).checked field).1 later) = some value) :
    KeyAgrees pg col field value ↔ KeySafe pg col field later := by
  cases type : col.tp with
  | character =>
      apply iff_of_true (key_agree_character type full short stored)
      intro numeric
      cases type.symm.trans numeric
  | numeric =>
      rw [checked_writeText type] at valid stored
      exact key_agree_numeric type full short (by simpa using valid) stored

/-! ## Reading a key field back -/

/-- A field that holds a number has no NUL in it. -/
theorem zero_notMem_numericField {len : ℕ} {n : ℤ} (room : 0 < len) (fits : n.natAbs < 10 ^ len) :
    0 ∉ numericField len n := by
  obtain ⟨front, last, _, decimal, decimals, _, field⟩ := numericField_eq room fits
  rw [field]
  intro member
  rcases List.mem_append.mp member with member | member
  · obtain ⟨digit, among, zero⟩ := List.mem_map.mp member
    have val := digitByte_val (decimals digit among)
    rw [zero] at val
    change 0 = 48 + digit at val
    omega
  · have zero := List.mem_singleton.mp member
    split at zero
    · have val := setSign_digitByte_val decimal
      rw [← zero] at val
      change 0 = 112 + last at val
      omega
    · have val := digitByte_val decimal
      rw [← zero] at val
      change 0 = 48 + last at val
      omega

/-- A text that is filled with blanks has no NUL in it. -/
theorem zero_notMem_blankFill {text : List Byte} (clean : 0 ∉ text) (length : ℕ) :
    0 ∉ blankFill length text := by
  unfold blankFill
  intro member
  rcases List.mem_append.mp member with member | member
  · exact clean member
  · exact absurd (List.eq_of_mem_replicate member) (by decide)

/-- A value read into the record area leaves no NUL in its field. -/
theorem zero_notMem_fieldBytes {col : Column} {value : Value} {field : List Byte}
    (fits : value.Fits col) (present : value ≠ .null)
    (read : fieldBytes col (printValue col value) = .ok field) : 0 ∉ field := by
  cases value with
  | null => exact (present rfl).elim
  | num number =>
      obtain ⟨numeric, n, rfl, small⟩ := fits
      rw [fieldBytes_num numeric (dec_lt_of_fieldBytes numeric read) small] at read
      cases read
      exact zero_notMem_numericField col.len_pos small
  | chr text =>
      obtain ⟨character, short, _, clean⟩ := fits
      rw [fieldBytes_chr character short] at read
      cases read
      exact zero_notMem_blankFill clean _

/-- Without a NUL the text of a key is the field with its point. -/
theorem keyText_clean {col : Column} {field : List Byte} (full : field.length = col.len)
    (clean : 0 ∉ field) : keyText col field = pointed col field := by
  have nonempty : field ≠ [] := List.ne_nil_of_length_pos (full ▸ col.len_pos)
  unfold keyText pointedText pointed
  rw [cstr_eq_self clean, if_neg nonempty]
  by_cases point : 0 < col.dec
  · rw [if_pos point, if_pos ⟨point, by omega⟩]
  · rw [if_neg point, if_neg fun both => point both.1]

/-- A number read into the record area passes the check again unless it is negative, and then
stands for the number read. -/
theorem key_of_numericField (pg : Postgres) {col : Column} (numeric : col.tp = .numeric)
    (digits : col.dec < col.len) {n : ℤ} (fits : n.natAbs < 10 ^ col.len) :
    (((Param.key col true).checked (numericField col.len n)).2 = false ↔ 0 ≤ n) ∧
    (0 ≤ n → pg.denote col ((Param.key col true).checked (numericField col.len n)).1 =
      some (.num (n / 10 ^ col.dec))) := by
  have full := length_numericField fits
  have clean := zero_notMem_numericField col.len_pos fits
  have text := keyText_clean full clean
  rw [checked_key numeric full]
  by_cases negative : n < 0
  · have sign : negativeField (numericField col.len n) = true := by
      rw [negativeField_numericField col.len_pos fits, decide_eq_true negative]
    refine ⟨iff_of_false ?_ (by omega), fun above => absurd negative (by omega)⟩
    intro passes
    exact clean (nul_of_signed_key full sign (by simpa using passes))
  · have field : numericField col.len n = (Decimal.fixed col.len n.natAbs).map digitByte := by
      simp only [numericField, negative, ↓reduceIte]
    have decimal := Decimal.fixed_lt col.len n.natAbs
    have passes := @scanNumero_pointed col _ decimal
    have denotes := plainNumeral_pointed digits decimal (Decimal.length_fixed fits)
    rw [← field, ← text] at passes denotes
    refine ⟨iff_of_true (by simpa using passes) (by omega), fun above => ?_⟩
    simp only [Postgres.denote, numeric]
    rw [numeral_eq_plainNumeral passes, denotes, Decimal.value_fixed, Option.map_some,
      ← Int.cast_natCast, Int.natAbs_of_nonneg above]

/-- A value read into the record area and looked for again is the same value, if it passes the
check. -/
theorem key_of_fieldBytes (pg : Postgres) {col : Column} {value : Value} {field : List Byte}
    (fits : value.Fits col) (present : value ≠ .null)
    (read : fieldBytes col (printValue col value) = .ok field)
    (passes : ((Param.key col true).checked field).2 = false) :
    pg.denote col ((Param.key col true).checked field).1 = some value := by
  cases value with
  | null => exact (present rfl).elim
  | num number =>
      obtain ⟨numeric, n, rfl, small⟩ := fits
      have digits := dec_lt_of_fieldBytes numeric read
      rw [fieldBytes_num numeric digits small] at read
      cases read
      obtain ⟨sign, denotes⟩ := key_of_numericField pg numeric digits small
      exact denotes (sign.mp passes)
  | chr text =>
      obtain ⟨character, short, trimmed, clean⟩ := fits
      rw [fieldBytes_chr character short] at read
      cases read
      unfold Param.checked Param.key keyBlock Postgres.denote
      simp only [character]
      rw [cstr_append_nul, cstr_eq_self (zero_notMem_blankFill clean _), blankFill,
        rtrim_append_blanks, trimmed]

end Pqfh
