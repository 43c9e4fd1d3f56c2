import Pqfh.Changelog.Text

/-! # From the changelog to the record area

`sync_execute` takes the text of a change apart at its bars and fills the record area column by
column, with a copy of the conversion in `pq2cob`. The same lines stand in `apply_changelog`.
-/

namespace Pqfh

/-- `MAX_REC_LEN`. -/
def maxRecLen : ℕ := 19624

/-- The text of a column and the text that is left, when the text is cut at its first bar. Without
a bar it is left as it is. -/
def cutText (text : List Byte) : List Byte × List Byte :=
  if 124 ∈ text then (text.takeWhile (· ≠ 124), (text.dropWhile (· ≠ 124)).tail) else (text, text)

/-- The bytes written for a column with a text. The zeros for an empty number are `col->len` of
them, or `col->len + col->dec` when the column has decimals. -/
def decodedBytes (col : Column) (text : List Byte) : Except Stop (List Byte) :=
  match col.tp with
  | .numeric =>
      let p := if text.head? = some 45 then text.tail else text
      let digits := if 0 < col.dec ∧ p = [] then .ok (List.replicate (col.len + col.dec) 48)
        else digitBytes col p
      if text.head? = some 45 then (fun bytes => bytes.modify (col.len - 1) setSign) <$> digits
      else digits
  | .character =>
      if text.length ≤ col.len then .ok (blankFill col.len text) else .error .undefined

/-- The loop over the columns, from a place in the record on: what it writes. -/
def decodeFrom : List Column → ℕ → List Byte → Except Stop (List Written)
  | [], _, _ => .ok []
  | col :: cols, place, text =>
      if (cutText text).1.length ≤ maxRecLen then do
        let bytes ← decodedBytes col (cutText text).1
        let later ← decodeFrom cols (place + col.len) (cutText text).2
        return ⟨col, place, bytes⟩ :: later
      else .error .undefined

/-- The record area of `reclen` bytes filled from a text. -/
def rebuildRecord (cols : List Column) (reclen : ℕ) (text : List Byte) : Except Stop (List Byte) :=
  do
  let writes ← decodeFrom cols 0 text
  writeAll writes (List.replicate reclen 0)

/-- The field that a value should give: zeros or blanks for NULL, else what `pq2cob` writes. -/
def rowField (col : Column) : Value → Except Stop (List Byte)
  | .null => .ok (match col.tp with
      | .numeric => List.replicate col.len 48
      | .character => List.replicate col.len 32)
  | value => fieldBytes col (printValue col value)

/-- A row comes through the changelog: the record area has the field of each value in its column,
and each column is written in its own bytes. -/
def Rebuilds (cols : List Column) (row : Row) (text : List Byte) : Prop :=
  ∃ writes, decodeFrom cols 0 text = .ok writes ∧
    (∀ written ∈ writes, written.place = written.col.offset ∧
      written.bytes.length ≤ written.col.len) ∧
    ∀ reclen, totalLen cols ≤ reclen → ∃ record, rebuildRecord cols reclen text = .ok record ∧
      List.Forall₂ (fun col value => rowField col value = .ok (slice record col.offset col.len))
        cols row

/-- What is asked of a value: a text has no bar, a number has a digit before its point, and a
number with decimals is there. -/
def ValueSafe (col : Column) : Value → Prop
  | .null => col.tp = .numeric → col.dec = 0
  | .num _ => col.dec < col.len
  | .chr text => 124 ∉ text

/-- The columns that PostgreSQL can declare and a record can hold. -/
def ColumnSize (col : Column) : Prop :=
  match col.tp with
  | .numeric => col.len ≤ 1000
  | .character => col.len ≤ maxRecLen

instance (col : Column) : Decidable (ColumnSize col) :=
  decidable_of_iff ((col.tp = .numeric ∧ col.len ≤ 1000) ∨
    (col.tp = .character ∧ col.len ≤ maxRecLen)) (by
      unfold ColumnSize
      cases col.tp <;> simp)

/-! ## Cutting -/

theorem cutText_bar {text : List Byte} (none : 124 ∉ text) (rest : List Byte) :
    cutText (text ++ 124 :: rest) = (text, rest) := by
  have kept : ∀ byte ∈ text, decide (byte ≠ 124) = true := fun byte member =>
    decide_eq_true fun equal => none (equal ▸ member)
  unfold cutText
  rw [if_pos (List.mem_append_right _ List.mem_cons_self), List.takeWhile_append_of_pos kept,
    List.dropWhile_append_of_pos kept]
  simp

/-- The text of a column never has a bar, and starts where the text of the column does. -/
theorem cutText_fst (text rest : List Byte) :
    (cutText (text ++ 124 :: rest)).1 = text.takeWhile (· ≠ 124) ∧
      (cutText text).1 = text.takeWhile (· ≠ 124) := by
  constructor
  · unfold cutText
    rw [if_pos (List.mem_append_right _ List.mem_cons_self), List.takeWhile_append]
    split
    · rename_i whole
      rw [List.takeWhile_cons_of_neg (by decide), List.append_nil]
      exact ((List.takeWhile_prefix _).eq_of_length whole).symm
    · rfl
  · unfold cutText
    split
    · rfl
    · rename_i none
      have kept : ∀ byte ∈ text, decide (byte ≠ 124) = true := fun byte member =>
        decide_eq_true fun equal => none (equal ▸ member)
      exact (List.takeWhile_eq_self_iff.mpr kept).symm

/-! ## One column -/

section Column

variable {col : Column} {value : Value}

theorem numeralChar_printNat (dec n : ℕ) : ∀ byte ∈ printNat dec n, numeralChar byte = true := by
  have digit : ∀ {digits : List ℕ}, (∀ d ∈ digits, d < 10) →
      ∀ byte ∈ digits.map digitByte, numeralChar byte = true := by
    intro digits decimal byte member
    obtain ⟨d, present, rfl⟩ := List.mem_map.mp member
    unfold numeralChar
    rw [isDigit_digitByte (decimal d present)]
    rfl
  unfold printNat
  intro byte member
  split at member
  · exact digit (Decimal.canonical_lt n) byte member
  · rcases List.mem_append.mp member with member | member
    · exact digit (Decimal.canonical_lt _) byte member
    · rcases List.mem_cons.mp member with rfl | member
      · rfl
      · exact digit (Decimal.fixed_lt _ _) byte member

/-- The text of a safe value has no bar. -/
theorem columnText_clean (safe : ValueSafe col value) : 124 ∉ columnText col value := by
  cases value with
  | null => exact List.not_mem_nil
  | num number =>
      intro member
      have plain : numeralChar 124 = true := by
        unfold columnText printValue at member
        dsimp only at member
        split at member
        · rcases List.mem_cons.mp member with equal | member
          · exact absurd equal (by decide)
          · exact numeralChar_printNat _ _ 124 member
        · exact numeralChar_printNat _ _ 124 member
      exact absurd plain (by decide)
  | chr text => exact fun member => safe ((List.rdropWhile_prefix _ _).subset member)

theorem length_columnText (size : ColumnSize col) (fits : value.Fits col) :
    (columnText col value).length ≤ maxRecLen := by
  unfold ColumnSize at size
  cases value with
  | null => exact Nat.zero_le _
  | num number =>
      obtain ⟨numeric, scaled, rfl, small⟩ := fits
      simp only [numeric] at size
      have floor : ⌊(scaled / 10 ^ col.dec : ℚ) * 10 ^ col.dec⌋ = scaled := by
        rw [div_mul_cancel₀ _ (by positivity), Int.floor_intCast]
      have whole : (printNat col.dec scaled.natAbs).length ≤ col.len + 1 + col.dec := by
        unfold printNat
        split
        · have short := Decimal.length_canonical_le col.len_pos small
          rw [List.length_map]
          omega
        · have less : scaled.natAbs / 10 ^ col.dec < 10 ^ col.len :=
            lt_of_le_of_lt (Nat.div_le_self _ _) small
          have short := Decimal.length_canonical_le col.len_pos less
          have decimals : (Decimal.fixed col.dec (scaled.natAbs % 10 ^ col.dec)).length = col.dec :=
            Decimal.length_fixed (Nat.mod_lt _ (Nat.pow_pos (by decide)))
          rw [List.length_append, List.length_cons, List.length_map, List.length_map, decimals]
          omega
      have few := col.dec_le
      unfold maxRecLen
      simp only [columnText, printValue, floor]
      split
      · rw [List.length_cons]
        omega
      · omega
  | chr text =>
      obtain ⟨character, short, trimmed, _⟩ := fits
      simp only [character] at size
      rw [columnText, trimmed]
      omega

/-- The text of a safe value is decoded as its field. -/
theorem decodedBytes_columnText (fits : value.Fits col) (safe : ValueSafe col value) :
    decodedBytes col (columnText col value) = rowField col value := by
  cases value with
  | null =>
      cases type : col.tp with
      | numeric =>
          have whole := safe type
          simp only [decodedBytes, columnText, rowField, type, whole, digitBytes, List.head?_nil,
            reduceCtorEq, ↓reduceIte, lt_self_iff_false, false_and, List.length_nil, Nat.zero_le,
            Nat.sub_zero, List.append_nil]
      | character =>
          simp only [decodedBytes, columnText, rowField, type, blankFill, List.length_nil,
            Nat.zero_le, ↓reduceIte, Nat.sub_zero, List.nil_append]
  | num number =>
      obtain ⟨numeric, _⟩ := fits
      obtain ⟨digit, rest, decimal, shape⟩ :=
        isDigit_printNat_head col.dec ⌊number * 10 ^ col.dec⌋.natAbs
      have first := digitByte_ne_minus decimal
      simp only [decodedBytes, columnText, rowField, fieldBytes, numeric, printValue]
      split
      · simp only [List.head?_cons, List.tail_cons, ↓reduceIte, shape, reduceCtorEq, and_false]
      · simp only [shape, List.head?_cons, Option.some.injEq, first, ↓reduceIte, reduceCtorEq,
          and_false]
  | chr text =>
      obtain ⟨character, short, trimmed, _⟩ := fits
      simp only [rowField]
      rw [fieldBytes_chr character short]
      simp only [decodedBytes, columnText, character, trimmed, short, ↓reduceIte]

theorem length_rowField {field : List Byte} (read : rowField col value = .ok field) :
    field.length = col.len := by
  unfold rowField at read
  split at read
  · split at read
    · cases read
      exact List.length_replicate
    · cases read
      exact List.length_replicate
  · exact length_fieldBytes read

theorem exists_rowField (fits : value.Fits col) (safe : ValueSafe col value) :
    ∃ field, rowField col value = .ok field := by
  cases value with
  | null => exact ⟨_, rfl⟩
  | num number =>
      obtain ⟨field, read, _⟩ := exists_fieldBytes fits Value.noConfusion fun _ => safe
      exact ⟨field, read⟩
  | chr text =>
      obtain ⟨character, short, _⟩ := fits
      exact ⟨_, fieldBytes_chr character short⟩

/-- A column is never written in less than its bytes. -/
theorem length_decodedBytes {text bytes : List Byte} (decoded : decodedBytes col text = .ok bytes) :
    col.len ≤ bytes.length := by
  have digits : ∀ {p bytes : List Byte},
      (if 0 < col.dec ∧ p = [] then .ok (List.replicate (col.len + col.dec) 48)
        else digitBytes col p) = .ok bytes → col.len ≤ bytes.length := by
    intro p bytes read
    split at read
    · cases read
      rw [List.length_replicate]
      omega
    · exact (length_digitBytes read).ge
  unfold decodedBytes at decoded
  split at decoded
  · dsimp only at decoded
    split at decoded
    · obtain ⟨unsigned, read, rfl⟩ := map_eq_ok.mp decoded
      rw [List.length_modify]
      exact digits read
    · exact digits decoded
  · split at decoded
    case isTrue short =>
      cases decoded
      exact (length_blankFill short).ge
    case isFalse => cases decoded

/-- A value is safe when what is decoded from the start of its text is its field. -/
theorem safe_of_decodedBytes (fits : value.Fits col) {bytes : List Byte}
    (decoded : decodedBytes col ((columnText col value).takeWhile (· ≠ 124)) = .ok bytes)
    (read : rowField col value = .ok bytes) : ValueSafe col value := by
  cases value with
  | null =>
      intro numeric
      by_contra point
      have full := length_rowField read
      have positive := Nat.pos_of_ne_zero point
      simp only [decodedBytes, columnText, numeric, List.takeWhile_nil, List.head?_nil,
        reduceCtorEq,
        ↓reduceIte, positive, and_self, Except.ok.injEq] at decoded
      rw [← decoded, List.length_replicate] at full
      omega
  | num number =>
      obtain ⟨numeric, _⟩ := fits
      exact dec_lt_of_fieldBytes numeric read
  | chr text =>
      obtain ⟨character, short, trimmed, _⟩ := fits
      intro bar
      have start : (text.takeWhile (· ≠ 124)).length ≤ col.len :=
        (List.takeWhile_prefix _).length_le.trans short
      simp only [rowField] at read
      rw [fieldBytes_chr character short] at read
      simp only [decodedBytes, columnText, trimmed, character, start, ↓reduceIte] at decoded
      have same := Except.ok.inj (decoded.trans read.symm)
      have member : 124 ∈ blankFill col.len (text.takeWhile (· ≠ 124)) := by
        rw [same]
        exact List.mem_append_left _ bar
      rcases List.mem_append.mp member with member | member
      · exact absurd (List.mem_takeWhile_imp member) (by decide)
      · exact absurd (List.eq_of_mem_replicate member) (by decide)

end Column

/-! ## All columns -/

theorem changelogText_cons (col : Column) (cols : List Column) (value : Value) (row : Row) :
    changelogText (col :: cols) (value :: row) =
      if List.zipWith columnText cols row = [] then columnText col value
      else columnText col value ++ 124 :: changelogText cols row := by
  unfold changelogText
  rw [List.zipWith_cons_cons]
  split
  · rename_i last
    rw [last]
    rfl
  · rename_i more
    exact joinTexts_cons more

/-- The text of the first column, whatever it is. -/
theorem cutText_changelogText (col : Column) (cols : List Column) (value : Value) (row : Row) :
    (cutText (changelogText (col :: cols) (value :: row))).1 =
      (columnText col value).takeWhile (· ≠ 124) := by
  rw [changelogText_cons]
  split
  · exact (cutText_fst _ []).2
  · exact (cutText_fst _ _).1

/-- After a safe value the loop goes on with the text of the other columns. -/
theorem decodeFrom_cons {col : Column} {cols : List Column} {value : Value} {row : Row}
    (safe : ValueSafe col value) (length : row.length = cols.length) (place : ℕ) :
    decodeFrom cols place (cutText (changelogText (col :: cols) (value :: row))).2 =
      decodeFrom cols place (changelogText cols row) := by
  cases cols with
  | nil => rfl
  | cons next cols =>
      cases row with
      | nil => cases length
      | cons value' row =>
          rw [changelogText_cons,
            if_neg (by rw [List.zipWith_cons_cons]; exact List.cons_ne_nil _ _),
            cutText_bar (columnText_clean safe)]

/-- A row of safe values is written column by column in place. -/
theorem decodeFrom_safe :
    ∀ {cols : List Column} {row : Row} {place : ℕ}, Contiguous place cols → RowFits cols row →
      List.Forall₂ ValueSafe cols row → (∀ col ∈ cols, ColumnSize col) →
      ∃ writes, decodeFrom cols place (changelogText cols row) = .ok writes ∧
        writes.map Written.col = cols ∧ (∀ written ∈ writes, written.InPlace) ∧
        List.Forall₂ (fun written value => rowField written.col value = .ok written.bytes)
          writes row := by
  intro cols
  induction cols with
  | nil =>
      intro row place _ _ safe _
      cases safe
      exact ⟨[], rfl, rfl, nofun, List.Forall₂.nil⟩
  | cons col cols ih =>
      intro row place laid fits safe sizes
      cases safe with
      | cons here rest =>
          rename_i value row
          cases fits with
          | cons fit fits =>
              obtain ⟨field, read⟩ := exists_rowField fit here
              obtain ⟨writes, decoded, columns, placed, fields⟩ := ih laid.2 fits rest
                fun other member => sizes other (List.mem_cons_of_mem _ member)
              have text : (cutText (changelogText (col :: cols) (value :: row))).1 =
                  columnText col value := by
                rw [cutText_changelogText]
                apply List.takeWhile_eq_self_iff.mpr
                intro byte member
                exact decide_eq_true fun bar => columnText_clean here (bar ▸ member)
              refine ⟨⟨col, place, field⟩ :: writes, ?_, ?_, ?_, List.Forall₂.cons read fields⟩
              · have short := length_columnText (sizes col List.mem_cons_self) fit
                unfold decodeFrom
                rw [text, if_pos short, decodedBytes_columnText fit here, read, ok_bind,
                  decodeFrom_cons here fits.length_eq.symm, decoded]
                rfl
              · rw [List.map_cons, columns]
              · exact List.forall_mem_cons.mpr
                  ⟨⟨laid.1.symm, length_rowField read⟩, placed⟩

/-- What the loop writes, it writes for its columns, each in its bytes at least. -/
theorem decodeFrom_columns :
    ∀ {cols : List Column} {place : ℕ} {text : List Byte} {writes : List Written},
      decodeFrom cols place text = .ok writes →
      writes.map Written.col = cols ∧ ∀ written ∈ writes,
          written.col.len ≤ written.bytes.length := by
  intro cols
  induction cols with
  | nil =>
      intro place text writes decoded
      cases decoded
      exact ⟨rfl, nofun⟩
  | cons col cols ih =>
      intro place text writes decoded
      unfold decodeFrom at decoded
      split at decoded
      case isFalse => cases decoded
      case isTrue =>
        obtain ⟨bytes, first, decoded⟩ := bind_eq_ok.mp decoded
        obtain ⟨later, rest, result⟩ := bind_eq_ok.mp decoded
        cases result
        obtain ⟨columns, full⟩ := ih rest
        exact ⟨by rw [List.map_cons, columns],
          List.forall_mem_cons.mpr ⟨length_decodedBytes first, full⟩⟩

/-- A row whose fields are all written is one of safe values. -/
theorem safe_of_decodeFrom :
    ∀ {cols : List Column} {row : Row} {place : ℕ} {writes : List Written}, RowFits cols row →
      decodeFrom cols place (changelogText cols row) = .ok writes →
      List.Forall₂ (fun written value => rowField written.col value = .ok written.bytes) writes
        row →
      List.Forall₂ ValueSafe cols row := by
  intro cols
  induction cols with
  | nil =>
      intro row place writes fits _ _
      cases fits
      exact List.Forall₂.nil
  | cons col cols ih =>
      intro row place writes fits decoded fields
      cases fits with
      | cons fit fits =>
          rename_i value row
          unfold decodeFrom at decoded
          split at decoded
          case isFalse => cases decoded
          case isTrue =>
            obtain ⟨bytes, first, decoded⟩ := bind_eq_ok.mp decoded
            obtain ⟨later, rest, result⟩ := bind_eq_ok.mp decoded
            cases result
            cases fields with
            | cons read fields =>
                rw [cutText_changelogText] at first
                have safe := safe_of_decodedBytes fit first read
                rw [decodeFrom_cons safe fits.length_eq.symm] at rest
                exact List.Forall₂.cons safe (ih fits rest fields)

/-! ## The record -/

/-- A row comes through the changelog just when its values are safe. -/
theorem rebuilds_iff {cols : List Column} {row : Row} {expr : ChangelogExpr}
    (laid : Contiguous 0 cols) (sizes : ∀ col ∈ cols, ColumnSize col) (fits : RowFits cols row)
    (created : createChangelogFunction cols = .ok expr) :
    Rebuilds cols row (expr.eval cols row) ↔ List.Forall₂ ValueSafe cols row := by
  have length : row.length = cols.length := fits.length_eq.symm
  rw [createChangelogFunction_eval created length]
  constructor
  · intro rebuilds
    obtain ⟨writes, decoded, inside, rebuilt⟩ := rebuilds
    obtain ⟨columns, full⟩ := decodeFrom_columns decoded
    have placed : ∀ written ∈ writes, written.InPlace := fun written member =>
      ⟨(inside written member).1, le_antisymm (inside written member).2 (full written member)⟩
    obtain ⟨record, rebuilt, fields⟩ := rebuilt (totalLen cols) le_rfl
    rw [← columns] at laid
    obtain ⟨record', written, _, _, _, slices⟩ := writeAll_spec laid placed
      (by rw [columns, List.length_replicate, Nat.zero_add] :
        0 + totalLen (writes.map Written.col) ≤ (List.replicate (totalLen cols) (0 : Byte)).length)
    unfold rebuildRecord at rebuilt
    rw [decoded, ok_bind, written] at rebuilt
    obtain rfl := Except.ok.inj rebuilt
    apply safe_of_decodeFrom fits decoded
    rw [← columns, List.forall₂_map_left_iff] at fields
    rw [List.forall₂_iff_zip] at fields ⊢
    refine ⟨fields.1, fun {one value} member => ?_⟩
    rw [← slices one (List.of_mem_zip member).1]
    exact fields.2 member
  · intro safe
    obtain ⟨writes, decoded, columns, placed, fields⟩ := decodeFrom_safe laid fits safe sizes
    refine ⟨writes, decoded, fun written member => ⟨(placed written member).1,
      (placed written member).2.le⟩, fun reclen room => ?_⟩
    rw [← columns] at laid
    obtain ⟨record, written, _, _, _, slices⟩ := writeAll_spec laid placed
      (by rw [columns, List.length_replicate, Nat.zero_add]; exact room :
        0 + totalLen (writes.map Written.col) ≤ (List.replicate reclen (0 : Byte)).length)
    refine ⟨record, ?_, ?_⟩
    · unfold rebuildRecord
      rw [decoded, ok_bind]
      exact written
    · rw [← columns, List.forall₂_map_left_iff]
      rw [List.forall₂_iff_zip] at fields ⊢
      refine ⟨fields.1, fun {one value} member => ?_⟩
      rw [slices one (List.of_mem_zip member).1]
      exact fields.2 member

/-- A code, an amount with one decimal and a name. -/
def saleColumns : List Column :=
  [⟨"codigo", .numeric, 1, 0, 0, true, one_digit, no_decimals_of_one⟩,
    ⟨"valor", .numeric, 3, 1, 1, false, three_digits, one_decimal_of_three⟩,
    ⟨"nome", .character, 3, 0, 4, false, three_digits, no_decimals_of_three⟩]

/-- The expression of the trigger function of the sales. -/
def saleExpr : ChangelogExpr :=
  .concat (.concat (.concat (.concat (.column 0 true) .bar) (.column 1 true)) .bar)
    (.column 2 false)

/-- The amount -2.5 and a name that is NULL come through. -/
theorem rebuilds_sale :
    createChangelogFunction saleColumns = .ok saleExpr ∧
    RowFits saleColumns [.num 1, .num (-5 / 2), .null] ∧
    Rebuilds saleColumns [.num 1, .num (-5 / 2), .null]
      (saleExpr.eval saleColumns [.num 1, .num (-5 / 2), .null]) := by
  have created : createChangelogFunction saleColumns = .ok saleExpr := by decide +kernel
  have fits : RowFits saleColumns [.num 1, .num (-5 / 2), .null] :=
    .cons ⟨rfl, 1, by norm_num [saleColumns], by decide⟩
      (.cons ⟨rfl, -25, by norm_num [saleColumns], by decide⟩ (.cons trivial .nil))
  refine ⟨created, fits, (rebuilds_iff (by decide) (by decide +kernel) fits created).mpr ?_⟩
  exact .cons (by decide : 0 < 1) (.cons (by decide : 1 < 3) (.cons (by exact nofun) .nil))

/-- A name with a bar is cut at it, and an amount that is NULL is written over the next
column. -/
theorem rebuilds_fails :
    (createChangelogFunction saleColumns = .ok saleExpr ∧
      RowFits saleColumns [.num 1, .num (5 / 2), .chr [65, 124, 66]] ∧
      rebuildRecord saleColumns 7 (saleExpr.eval saleColumns
        [.num 1, .num (5 / 2), .chr [65, 124, 66]]) = .ok [49, 48, 50, 53, 65, 32, 32] ∧
      pq2cob saleColumns [.num 1, .num (5 / 2), .chr [65, 124, 66]] (List.replicate 7 0) =
        .ok [49, 48, 50, 53, 65, 124, 66] ∧
      ¬ Rebuilds saleColumns [.num 1, .num (5 / 2), .chr [65, 124, 66]]
        (saleExpr.eval saleColumns [.num 1, .num (5 / 2), .chr [65, 124, 66]])) ∧
    RowFits saleColumns [.num 1, .null, .chr [65]] ∧
    ¬ Rebuilds saleColumns [.num 1, .null, .chr [65]]
      (saleExpr.eval saleColumns [.num 1, .null, .chr [65]]) := by
  have code :
      Value.Fits ⟨"codigo", .numeric, 1, 0, 0, true, one_digit, no_decimals_of_one⟩ (.num 1) :=
    ⟨rfl, 1, by norm_num, by decide⟩
  have rebuilt : rebuildRecord saleColumns 7 (saleExpr.eval saleColumns
      [.num 1, .num (5 / 2), .chr [65, 124, 66]]) = .ok [49, 48, 50, 53, 65, 32, 32] := by
    decide +kernel
  refine ⟨⟨by decide +kernel, .cons code (.cons ⟨rfl, 25, by norm_num, by decide⟩
    (.cons ⟨rfl, by decide, by decide, by decide⟩ .nil)), rebuilt, by decide +kernel, ?_⟩,
    .cons code (.cons trivial (.cons ⟨rfl, by decide, by decide, by decide⟩ .nil)), ?_⟩
  · intro rebuilds
    obtain ⟨_, _, _, records⟩ := rebuilds
    obtain ⟨record, rebuilt', fields⟩ := records 7 (by decide)
    obtain rfl := Except.ok.inj (rebuilt.symm.trans rebuilt')
    simp only [saleColumns, List.forall₂_cons] at fields
    exact absurd fields.2.2.1 (by decide +kernel)
  · intro rebuilds
    obtain ⟨writes, decoded, inside, _⟩ := rebuilds
    obtain ⟨writes', decoded', lengths⟩ := map_eq_ok.mp (by decide +kernel :
      (fun writes : List Written => writes.map fun written =>
      (written.bytes.length, written.col.len))
        <$> decodeFrom saleColumns 0 (saleExpr.eval saleColumns [.num 1, .null, .chr [65]]) =
      .ok [(1, 1), (4, 3), (3, 3)])
    obtain rfl := Except.ok.inj (decoded.symm.trans decoded')
    have amount : (4, 3) ∈ writes.map fun written => (written.bytes.length, written.col.len) := by
      rw [lengths]
      decide
    obtain ⟨written, member, sizes⟩ := List.mem_map.mp amount
    have small := (inside written member).2
    obtain ⟨long, short⟩ := Prod.mk.inj sizes
    omega

end Pqfh
