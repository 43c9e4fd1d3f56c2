import Pqfh.Foundation.KeyedStore
import Pqfh.Handler.OpsTotal
import Pqfh.Handler.ScanRuns
import Pqfh.Table.KeyRanges

/-! # Rows as records

A record whose fields a COBOL program fills stands for one row (`Pqfh.rowOf`), and that row is
read back as the record (`Pqfh.pq2cob_rowOf`). Two records have the same fields in the columns of
a key just when they have the same key (`Pqfh.keyOf_eq_iff`), so that the rows that a condition on
the key selects are the rows of the records with that key (`Pqfh.meets_rowOf`).
-/

namespace Pqfh

/-- The row that the fields of a record stand for. -/
def rowOf (cols : List Column) (record : List Byte) : Row :=
  cols.map fun col => fieldValue col (slice record col.offset col.len)

/-- A record of a table: its fields, one after the other, as a COBOL program fills them. -/
structure RecordOf (cols : List Column) (record : List Byte) : Prop where
  full : record.length = totalLen cols
  wellFormed : RecordOk cols record

/-- The bytes of the fields of a key, which `getkbuf` puts together. -/
def Table.keyOf (tab : Table) (k : ℕ) (record : List Byte) : List Byte :=
  (whereColumns tab.keys k).flatMap fun i => slice record (tab.column i).offset (tab.column i).len

/-! ## Fields -/

section Field

variable {col : Column} {field : List Byte}

/-- A column can hold the value of a field. -/
theorem fieldValue_fits (wellFormed : FieldOk col field) (full : field.length = col.len) :
    (fieldValue col field).Fits col ∧ fieldValue col field ≠ .null := by
  have nonempty : field ≠ [] := List.ne_nil_of_length_pos (full ▸ col.len_pos)
  unfold FieldOk at wellFormed
  unfold fieldValue
  cases type : col.tp with
  | numeric =>
      rw [type] at wellFormed
      have small := (wellFormed.2.eq nonempty).2
      rw [full] at small
      exact ⟨⟨type, fieldInt field, rfl, small⟩, nofun⟩
  | character =>
      rw [type] at wellFormed
      have prefixed : (rtrim field).length ≤ field.length :=
        (List.rdropWhile_prefix _ field).length_le
      exact ⟨⟨type, full ▸ prefixed, List.rdropWhile_idempotent _ _,
        fun nul => wellFormed ((List.rdropWhile_prefix _ field).subset nul)⟩, nofun⟩

/-- The value of a field reads back as the field. -/
theorem fieldBytes_fieldValue (wellFormed : FieldOk col field) (full : field.length = col.len) :
    fieldBytes col (printValue col (fieldValue col field)) = .ok field := by
  obtain ⟨fits, present⟩ := fieldValue_fits wellFormed full
  exact (fieldBytes_eq_iff fits present wellFormed full).mpr rfl

/-- Fields with one value are the same. -/
theorem fieldValue_inj {field' : List Byte} (wellFormed : FieldOk col field)
    (full : field.length = col.len) (wellFormed' : FieldOk col field')
    (full' : field'.length = col.len) (same : fieldValue col field = fieldValue col field') :
    field = field' := by
  have read := fieldBytes_fieldValue wellFormed full
  rw [same, fieldBytes_fieldValue wellFormed' full'] at read
  exact (Except.ok.inj read).symm

end Field

/-! ## Records -/

section Records

variable {cols : List Column} {record : List Byte}

theorem getElem?_rowOf (cols : List Column) (record : List Byte) (i : ℕ) :
    (rowOf cols record)[i]? =
      cols[i]?.map fun col => fieldValue col (slice record col.offset col.len) :=
  List.getElem?_map

theorem length_rowOf (cols : List Column) (record : List Byte) :
    (rowOf cols record).length = cols.length := List.length_map _

theorem Contiguous.inside (laid : Contiguous 0 cols) (whole : totalLen cols ≤ record.length)
    {col : Column} (member : col ∈ cols) : col.offset + col.len ≤ record.length := by
  have inside := laid.end_le col member
  omega

/-- The row depends on the bytes of the columns alone. -/
theorem slice_take_totalLen (laid : Contiguous 0 cols) (record : List Byte) {col : Column}
    (member : col ∈ cols) :
    slice (record.take (totalLen cols)) col.offset col.len = slice record col.offset col.len := by
  have inside := laid.end_le col member
  unfold slice
  rw [List.drop_take, List.take_take, Nat.min_eq_left (by omega)]

theorem rowOf_take (laid : Contiguous 0 cols) (record : List Byte) :
    rowOf cols (record.take (totalLen cols)) = rowOf cols record := by
  unfold rowOf
  apply List.map_congr_left
  intro col member
  rw [slice_take_totalLen laid record member]

theorem RecordOk.take (laid : Contiguous 0 cols) (wellFormed : RecordOk cols record)
    (whole : totalLen cols ≤ record.length) :
    RecordOf cols (record.take (totalLen cols)) where
  full := List.length_take_of_le whole
  wellFormed := by
    intro col member
    rw [slice_take_totalLen laid record member]
    exact wellFormed col member

/-- Records with the same fields are the same. -/
theorem Contiguous.ext (laid : Contiguous 0 cols) {record' : List Byte}
    (same : ∀ col ∈ cols, slice record col.offset col.len = slice record' col.offset col.len) :
    record.take (totalLen cols) = record'.take (totalLen cols) := by
  have bytes := laid.slices record
  have bytes' := laid.slices record'
  have fields : (cols.flatMap fun col => slice record col.offset col.len) =
      cols.flatMap fun col => slice record' col.offset col.len := by
    rw [List.flatMap_def, List.flatMap_def, List.map_congr_left same]
  rw [bytes, bytes'] at fields
  exact fields

theorem RecordOf.slice_full (stored : RecordOf cols record) (laid : Contiguous 0 cols)
    {col : Column}
    (member : col ∈ cols) : (slice record col.offset col.len).length = col.len :=
  length_slice (laid.inside stored.full.ge member)

/-- The row of a record can be held by the table, and has no NULL. -/
theorem RecordOf.fits (stored : RecordOf cols record) (laid : Contiguous 0 cols) :
    RowFits cols (rowOf cols record) ∧ Value.null ∉ rowOf cols record := by
  have each : ∀ col ∈ cols, (fieldValue col (slice record col.offset col.len)).Fits col ∧
      fieldValue col (slice record col.offset col.len) ≠ .null := fun col member =>
    fieldValue_fits (stored.wellFormed col member) (stored.slice_full laid member)
  refine ⟨?_, ?_⟩
  · unfold RowFits rowOf
    rw [List.forall₂_map_right_iff, List.forall₂_same]
    exact fun col member => (each col member).1
  · intro member
    obtain ⟨col, among, null⟩ := List.mem_map.mp member
    exact (each col among).2 null

/-- The row of a record is read back as the record, and the bytes behind the columns stay. -/
theorem pq2cob_rowOf (stored : RecordOf cols record) (laid : Contiguous 0 cols) {area : List Byte}
    (room : totalLen cols ≤ area.length) :
    pq2cob cols (rowOf cols record) area = .ok (record ++ area.drop (totalLen cols)) := by
  have printed : List.Forall₂ (fun col value => fieldBytes col (printValue col value) =
      .ok (slice record col.offset col.len)) cols (rowOf cols record) := by
    unfold rowOf
    rw [List.forall₂_map_right_iff, List.forall₂_same]
    exact fun col member =>
      fieldBytes_fieldValue (stored.wellFormed col member) (stored.slice_full laid member)
  obtain ⟨area', read, length, _, after, fields⟩ := pq2cobFrom_spec laid
    (printed.imp fun col value bytes => ⟨_, bytes, length_fieldBytes bytes⟩)
    (by omega : 0 + totalLen cols ≤ area.length)
  rw [Nat.zero_add] at after
  have front : area'.take (totalLen cols) = record.take (totalLen cols) := by
    apply laid.ext
    intro col member
    obtain ⟨i, inside, rfl⟩ := List.getElem_of_mem member
    have here : i < (rowOf cols record).length := by
      rw [length_rowOf]
      exact inside
    have bytes := (List.forall₂_iff_get.mp printed).2 i inside here
    have bytes' := (List.forall₂_iff_get.mp fields).2 i inside here
    rw [bytes'] at bytes
    exact Except.ok.inj bytes
  rw [List.take_of_length_le stored.full.le] at front
  calc pq2cob cols (rowOf cols record) area = .ok area' := read
    _ = .ok (area'.take (totalLen cols) ++ area'.drop (totalLen cols)) := by
        rw [List.take_append_drop]
    _ = .ok (record ++ area.drop (totalLen cols)) := by rw [front, after]

end Records

/-! ## Keys -/

/-- The fields of a key are as a COBOL program fills them, and their numbers are not negative. -/
def KeyOk (tab : Table) (k : ℕ) (record : List Byte) : Prop :=
  ∀ i ∈ whereColumns tab.keys k,
    let field := slice record (tab.column i).offset (tab.column i).len
    FieldOk (tab.column i) field ∧ ((tab.column i).tp = .numeric → negativeField field = false)

instance (tab : Table) (k : ℕ) (record : List Byte) : Decidable (KeyOk tab k record) :=
  inferInstanceAs (Decidable (∀ i ∈ whereColumns tab.keys k, _))

section KeyField

variable {col : Column} {field : List Byte}

/-- A number that is not negative, as a field. -/
theorem exists_numericField (numeric : col.tp = .numeric) (wellFormed : FieldOk col field)
    (full : field.length = col.len) (positive : negativeField field = false) :
    col.dec < col.len ∧ ∃ n : ℤ, 0 ≤ n ∧ n.natAbs < 10 ^ col.len ∧
      field = numericField col.len n ∧ fieldInt field = n := by
  unfold FieldOk at wellFormed
  rw [numeric] at wellFormed
  obtain ⟨shape, small⟩ := wellFormed.2.eq (List.ne_nil_of_length_pos (full ▸ col.len_pos))
  rw [full] at shape small
  refine ⟨wellFormed.1, fieldInt field, ?_, small, shape, rfl⟩
  rw [shape, negativeField_numericField col.len_pos small, decide_eq_false_iff_not] at positive
  exact not_lt.mp positive

/-- READ and DELETE look for the value of a key field. -/
theorem key_denotes (pg : Postgres) (wellFormed : FieldOk col field)
    (full : field.length = col.len)
    (positive : col.tp = .numeric → negativeField field = false) :
    ((Param.key col true).checked field).2 = false ∧
      pg.denote col ((Param.key col true).checked field).1 = some (fieldValue col field) := by
  cases type : col.tp with
  | numeric =>
      obtain ⟨digits, n, nonneg, small, shape, int⟩ :=
        exists_numericField type wellFormed full (positive type)
      obtain ⟨passes, denotes⟩ := key_of_numericField pg type digits small
      rw [← shape] at passes denotes
      refine ⟨passes.mpr nonneg, ?_⟩
      rw [denotes nonneg]
      simp only [fieldValue, type, int]
  | character =>
      unfold FieldOk at wellFormed
      rw [type] at wellFormed
      have text : (Param.key col true).checked field = (field, false) := by
        simp only [Param.checked, Param.key, type, keyBlock, cstr_append_nul,
          cstr_eq_self wellFormed]
      rw [text]
      refine ⟨rfl, ?_⟩
      simp only [Postgres.denote, fieldValue, type]

/-- REWRITE looks for the text of READ when it has no point to put. -/
theorem checked_rewrite_eq (wellFormed : FieldOk col field) (full : field.length = col.len)
    (positive : col.tp = .numeric → negativeField field = false)
    (whole : col.tp = .numeric → col.dec = 0) :
    (Param.rewrite col true).checked field = (Param.key col true).checked field := by
  cases type : col.tp with
  | numeric =>
      obtain ⟨_, n, _, small, shape, _⟩ := exists_numericField type wellFormed full (positive type)
      have clean : 0 ∉ field := shape ▸ zero_notMem_numericField col.len_pos small
      have nonempty : field ≠ [] := List.ne_nil_of_length_pos (full ▸ col.len_pos)
      have plain : pointed col field = field := by
        simp only [pointed, whole type, lt_irrefl, ↓reduceIte]
      rw [checked_rewrite type, checked_key type full, keyText_clean full clean, plain,
        cstr_eq_self clean, orZero_of_ne_nil nonempty]
  | character =>
      simp only [Param.checked, Param.rewrite, Param.key, type, rewriteBlock, keyBlock]

end KeyField

section Keys

variable {tab : Table} {k : ℕ} {record record' : List Byte}

/-- Tables with the same columns and keys have the same keys of records. -/
theorem keyOf_congr {tab' : Table} (columns : tab'.columns = tab.columns)
    (keys : tab'.keys = tab.keys) (k : ℕ) : tab'.keyOf k = tab.keyOf k := by
  funext record
  unfold Table.keyOf Table.column
  rw [columns, keys]

theorem KeyOk.congr {tab' : Table} (columns : tab'.columns = tab.columns)
    (keys : tab'.keys = tab.keys) (keyed : KeyOk tab k record) : KeyOk tab' k record := by
  unfold KeyOk Table.column
  rw [columns, keys]
  exact keyed

/-- The columns of a key belong to a key. -/
theorem chave_of_key {i : ℕ} (member : i ∈ whereColumns tab.keys k) : tab.chave i = true := by
  unfold whereColumns at member
  unfold Table.chave
  rw [List.any_eq_true]
  by_cases here : k < tab.keys.length
  · rw [List.getD_eq_getElem _ _ here] at member
    exact ⟨tab.keys[k], List.getElem_mem here, List.contains_iff_mem.mpr member⟩
  · rw [List.getD_eq_default _ _ (not_lt.mp here)] at member
    cases member

/-- Two records have one key just when they have the same fields in its columns. -/
theorem keyOf_eq_iff (laid : Contiguous 0 tab.columns)
    (positions : ∀ i ∈ whereColumns tab.keys k, i < tab.columns.length)
    (whole : totalLen tab.columns ≤ record.length)
    (whole' : totalLen tab.columns ≤ record'.length) :
    tab.keyOf k record = tab.keyOf k record' ↔ ∀ i ∈ whereColumns tab.keys k,
      slice record (tab.column i).offset (tab.column i).len =
        slice record' (tab.column i).offset (tab.column i).len := by
  refine ⟨slices_of_flatMap ?_ ?_, ?_⟩
  · exact fun i member => laid.inside whole (tab.column_mem (positions i member))
  · exact fun i member => laid.inside whole' (tab.column_mem (positions i member))
  · intro same
    unfold Table.keyOf
    rw [List.flatMap_def, List.flatMap_def, List.map_congr_left same]

/-- The key lies in the bytes of the columns. -/
theorem keyOf_take (laid : Contiguous 0 tab.columns)
    (positions : ∀ i ∈ whereColumns tab.keys k, i < tab.columns.length) (record : List Byte) :
    tab.keyOf k (record.take (totalLen tab.columns)) = tab.keyOf k record := by
  unfold Table.keyOf
  rw [List.flatMap_def, List.flatMap_def]
  congr 1
  apply List.map_congr_left
  intro i member
  exact slice_take_totalLen laid record (tab.column_mem (positions i member))

/-- A condition that looks for the values of the fields of a key selects the rows of the records
with that key. -/
theorem meets_rowOf {pg : Postgres} {text : ℕ → List Byte} {condition : Condition}
    {stored : List Byte} (laid : Contiguous 0 tab.columns)
    (positions : ∀ i ∈ whereColumns tab.keys k, i < tab.columns.length)
    (whole : totalLen tab.columns ≤ record.length) (keyed : KeyOk tab k record)
    (denotes : ∀ i ∈ whereColumns tab.keys k, pg.denote (tab.column i) (text i) =
      some (fieldValue (tab.column i) (slice record (tab.column i).offset (tab.column i).len)))
    (denoted : tab.condition pg (whereColumns tab.keys k) ((whereColumns tab.keys k).map text) =
      some condition) (recordOf : RecordOf tab.columns stored) :
    meets condition (rowOf tab.columns stored) = decide (tab.keyOf k stored = tab.keyOf k record) :=
  by
  rw [Bool.eq_iff_iff, decide_eq_true_iff, meets_condition_iff denoted,
    keyOf_eq_iff laid positions recordOf.full.ge whole]
  apply forall₂_congr
  intro i member
  have among := tab.column_mem (positions i member)
  have present : (rowOf tab.columns stored)[i]? = some (fieldValue (tab.column i)
      (slice stored (tab.column i).offset (tab.column i).len)) := by
    rw [getElem?_rowOf, Table.getElem?_columns (positions i member), Option.map_some]
  rw [denotes i member, present]
  refine ⟨?_, ?_⟩
  · intro ⟨value, same, same'⟩
    rw [← same', Option.some_inj] at same
    exact (fieldValue_inj (keyed i member).1 (length_slice (laid.inside whole among))
      (recordOf.wellFormed _ among) (recordOf.slice_full laid among) same).symm
  · intro same
    exact ⟨_, rfl, by rw [same]⟩

end Keys

end Pqfh
