import Mathlib.Data.List.Basic
import Pqfh.Core.Bytes
import Pqfh.Core.Stop

/-! # Columns and keys of an open table

`table_info` lays the columns of a table one after the other over the record area. The
keys come from the key definition block that the COBOL runtime hands over: each key is
a list of byte ranges of the record, and `getkeys` finds the columns under each range.
A key column is held as the position of the column in `tab->columns`, the pointer the
source keeps.

For key 0 the walk also sets the flag `pk` of columns. `op_rewrite` sets the columns
without the flag and addresses the row by the columns of key 0.
-/

namespace Pqfh

/-- `col->tp`: 'n' for numeric columns, 's' for character columns. -/
inductive ColumnType where
  | numeric
  | character
  deriving Repr, DecidableEq

/-- `column_t`. -/
structure Column where
  name : String
  tp : ColumnType
  len : ℕ
  dec : ℕ
  offset : ℕ
  pk : Bool
  len_pos : 0 < len
  dec_le : dec ≤ len
  deriving Repr, DecidableEq

theorem one_digit : 0 < 1 := Nat.one_pos

theorem three_digits : 0 < 3 := Nat.succ_pos 2

theorem five_characters : 0 < 5 := Nat.succ_pos 4

theorem no_decimals_of_one : 0 ≤ 1 := Nat.zero_le 1

theorem no_decimals_of_three : 0 ≤ 3 := Nat.zero_le 3

theorem one_decimal_of_three : 1 ≤ 3 := Nat.le_of_ble_eq_true rfl

/-- Columns laid one after the other, from `offset` on. -/
def Contiguous : ℕ → List Column → Prop
  | _, [] => True
  | offset, col :: rest => col.offset = offset ∧ Contiguous (offset + col.len) rest

instance decidableContiguous :
    (offset : ℕ) → (cols : List Column) → Decidable (Contiguous offset cols)
  | _, [] => isTrue trivial
  | offset, col :: rest =>
      have := decidableContiguous (offset + col.len) rest
      inferInstanceAs (Decidable (col.offset = offset ∧ Contiguous (offset + col.len) rest))

/-- The bytes a list of columns takes. -/
def totalLen (cols : List Column) : ℕ := (cols.map Column.len).sum

/-! ## The key definition block -/

/-- `getshort` at a place in memory. -/
def getshort (memory : ℕ → Byte) (place : ℕ) : ℕ :=
  memory (place + 1) + memory place * 256

/-- `getint` at a place in memory. -/
def getint (memory : ℕ → Byte) (place : ℕ) : ℕ :=
  memory (place + 3) + memory (place + 2) * 256 + memory (place + 1) * 256 ^ 2 +
    memory place * 256 ^ 3

/-- An unsigned int assigned to an `int`. -/
def toInt (n : ℕ) : ℤ := if n < 2 ^ 31 then n else n - 2 ^ 32

/-- The components of key `k`, offset and length, as `getkeys` reads them: the offset is
kept in an unsigned short, the length in an int. -/
def components (kdb : ℕ → Byte) (k : ℕ) : List (ℕ × ℤ) :=
  let kda := 14 + k * 16
  (List.range (getshort kdb kda)).map fun c =>
    let cda := getshort kdb (kda + 2) + c * 10
    (getint kdb (cda + 2) % 2 ^ 16, toInt (getint kdb (cda + 6)))

/-! ## Finding the columns of a key -/

/-- The inner loop for a key of one component, from the column at position `i` on. It
does not look whether there is a column left. -/
def takeSingle : List Column → ℕ → ℤ → Except Stop (List ℕ)
  | [], _, len => if 0 < len then .error .undefined else .ok []
  | col :: rest, i, len =>
      if 0 < len then (i :: ·) <$> takeSingle rest (i + 1) (len - col.len) else .ok []

/-- The walk for a key of one component: the positions flagged when it is key 0, and the
key's columns. Every column met on the way is flagged. -/
def walkSingle (offset : ℕ) (len : ℤ) : List Column → ℕ → Except Stop (List ℕ × List ℕ)
  | [], _ => .ok ([], [])
  | col :: rest, i =>
      if col.offset = offset then
        (fun taken => (i :: taken, taken)) <$> takeSingle (col :: rest) i len
      else
        (fun found => (i :: found.1, found.2)) <$> walkSingle offset len rest (i + 1)

/-- The inner loop for a component of a split key. The first column is taken whatever
the length. -/
def takeSplit : List Column → ℕ → ℤ → List ℕ
  | [], _, _ => []
  | col :: rest, i, len =>
      i :: if 0 < len - col.len then takeSplit rest (i + 1) (len - col.len) else []

/-- The walk for a component of a split key. -/
def walkSplit (offset : ℕ) (len : ℤ) : List Column → ℕ → List ℕ
  | [], _ => []
  | col :: rest, i =>
      if col.offset = offset then takeSplit (col :: rest) i len
      else walkSplit offset len rest (i + 1)

/-- `MAX_COMPS`. -/
def maxComps : ℕ := 32

/-- `MAX_COLS`. -/
def maxCols : ℕ := 512

/-- One key: the positions flagged when it is key 0, and the key's columns. -/
def getkey (cols : List Column) : List (ℕ × ℤ) → Except Stop (List ℕ × List ℕ)
  | [comp] => walkSingle comp.1 comp.2 cols 0
  | comps =>
      let taken := comps.flatMap fun comp => walkSplit comp.1 comp.2 cols 0
      .ok (taken, taken)

/-- Set the flag `pk` at the positions given. -/
def flag (flagged : List ℕ) (cols : List Column) : List Column :=
  cols.mapIdx fun i col => if i ∈ flagged then { col with pk := true } else col

/-- `getkeys`: the columns with their flags, and the columns of each key. A key of more
than `MAX_COMPS` columns is written past its array. -/
def getkeys (kdb : ℕ → Byte) (cols : List Column) : Except Stop (List Column × List (List ℕ)) := do
  let found ← (List.range (getshort kdb 6)).mapM fun k => do
    let key ← getkey cols (components kdb k)
    if maxComps < key.2.length then .error .undefined else .ok key
  return (match found with | [] => cols | key :: _ => flag key.1 cols, found.map Prod.snd)

/-! ## The statement of `op_rewrite` -/

/-- The columns that the UPDATE of `op_rewrite` sets. -/
def setColumns (cols : List Column) : List ℕ :=
  (List.range cols.length).filter fun i => (cols[i]?.map Column.pk) = some false

/-- The columns in the WHERE part of a statement on key `k`, `getwhere_prepared`. -/
def whereColumns (keys : List (List ℕ)) (k : ℕ) : List ℕ := keys.getD k []

end Pqfh
