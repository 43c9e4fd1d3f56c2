import Pqfh.Handler.Open
import Pqfh.Json.Navigate

/-! # What is sent to an API

After a WRITE the record is converted by a COBOL program and sent to the APIs of the table.
`load_cpy` reads the copybook of an API for the names, the types and the lengths of its fields, and
`to_json` writes the fields of the converted record. Both are done again for every WRITE.
-/

namespace Pqfh

/-- `col.tp`. -/
inductive ApiType where
  /-- `x` -/
  | text
  /-- `9` -/
  | integer
  deriving Repr, DecidableEq

/-- A field of an API. -/
structure ApiColumn where
  name : List Byte
  tp : ApiType
  len : ℕ
  deriving Repr, DecidableEq

/-- What a table keeps for an API: `api_root` and `columns_api`. -/
structure ApiTable where
  root : List Byte
  columns : List ApiColumn
  deriving Repr, DecidableEq

/-- What `op_open` sets. The root is that of no copybook yet. -/
def ApiTable.opened : ApiTable := ⟨[], []⟩

/-! ## load_cpy -/

/-- `fgets` into a buffer of 257 bytes: the line, and the rest of the file. -/
def fgets (file : List Byte) : Option (List Byte × List Byte) :=
  if file = [] then none
  else
    let line := file.take maxColLen
    let n := (line.takeWhile (· ≠ 10)).length + 1
    some (line.take n, file.drop (min n maxColLen))

/-- The texts that `fgets` reads one after the other. There are no more than bytes. -/
def fgetsAll : ℕ → List Byte → List (List Byte)
  | 0, _ => []
  | n + 1, file =>
      match fgets file with
      | none => []
      | some (line, rest) => cstr line :: fgetsAll n rest

/-- The length in a picture, `atoi` of the text before the parenthesis. -/
def pictureLength (text : List Byte) : Except Stop ℕ :=
  if 41 ∈ text then
    let n := atoi (text.takeWhile (· ≠ 41))
    if n < 0 then .error .undefined else .ok n.toNat
  else .error .undefined

/-- The part of `load_cpy` for a line. A line without a level 03 is passed over; a line that has no
blank after the name, or no picture, leads to a null pointer. -/
def loadColumn (buf : List Byte) : Except Stop (Option ApiColumn) :=
  match strstr [48, 51, 32] buf with
  | none => .ok none
  | some (_, after) =>
      let after := after.dropWhile (· = 32)
      if 32 ∉ after then .error .undefined
      else
        let name := after.takeWhile (· ≠ 32)
        let picture := (after.dropWhile (· ≠ 32)).drop 1
        if maxNameLen < name.length then .error .undefined
        else
          match strstr [120, 40] picture, strstr [57, 40] picture with
          | some (_, text), _ => do
              let len ← pictureLength text
              return some ⟨name, .text, len⟩
          | none, some (_, text) => do
              let len ← pictureLength text
              return some ⟨name, .integer, len⟩
          | none, none => .error .undefined

/-- The loop of `load_cpy` over the lines. -/
def loadColumns : List (List Byte) → Except Stop (List ApiColumn)
  | [] => .ok []
  | buf :: rest => do
      let column ← loadColumn buf
      let later ← loadColumns rest
      return column.toList ++ later

/-- `load_cpy`. The columns are added to those that are there. -/
def loadCpy (file : Option (List Byte)) (tab : ApiTable) : Except Stop ApiTable :=
  match file with
  | none => .ok tab
  | some file =>
      match fgets file with
      | none => .error .undefined
      | some (line, rest) => do
          let buf := (cstr line).takeWhile fun byte => byte ≠ 13 ∧ byte ≠ 10
          if buf.length < 7 ∨ maxNameLen + 7 < buf.length then .error .undefined
          else
            let columns ← loadColumns (fgetsAll rest.length rest)
            return ⟨buf.drop 7, tab.columns ++ columns⟩

/-! ## to_json -/

/-- `"%d"` of an integer. -/
def decimalText (n : ℤ) : List Byte :=
  (if n < 0 then [45] else []) ++ (Decimal.canonical n.natAbs).map digitByte

/-- An `int`. -/
def IsInt (n : ℤ) : Prop := -2147483648 ≤ n ∧ n ≤ 2147483647

instance (n : ℤ) : Decidable (IsInt n) := inferInstanceAs (Decidable (_ ∧ _))

/-- The value of a field, given its text up to a NUL. -/
def fieldJson (tp : ApiType) (text : List Byte) : Except Stop (List Byte) :=
  match tp with
  | .text => .ok (34 :: (text ++ [34]))
  | .integer =>
      if text = [] then .ok [48]
      -- `atoi` is only defined for an int
      else if IsInt (atoi text) then .ok (decimalText (atoi text))
      else .error .undefined

/-- The loop of `to_json` from an offset on. The byte after a field is set to NUL meanwhile. -/
def fieldsJson (record : List Byte) : ℕ → List ApiColumn → Except Stop (List Byte)
  | _, [] => .ok []
  | offset, col :: rest =>
      if record.length ≤ offset + col.len then .error .undefined
      else do
        let value ← fieldJson col.tp (cstr (slice record offset col.len))
        let later ← fieldsJson record (offset + col.len) rest
        return [9, 34] ++ col.name ++ [34, 32, 58, 32] ++ value ++
          (if rest = [] then [] else [44]) ++
          10 :: later

/-- `to_json`. -/
def toJson (tab : ApiTable) (record : List Byte) : Except Stop (List Byte) := do
  let fields ← fieldsJson record 0 tab.columns
  let json := [123, 32, 34] ++ tab.root ++ [34, 32, 58, 32, 91, 32, 123, 10] ++ fields ++
    [125, 32, 93, 32, 125]
  if maxRecLen < json.length then .error .undefined else return json

/-- The size of `args.json` without its NUL. -/
def maxArgsJson : ℕ := 4061

/-- The turn of `thread_api_start` for an API: the text that is sent, and the table after it. -/
def threadApiStart (file : Option (List Byte)) (record : List Byte) (tab : ApiTable) :
    Except Stop (List Byte × ApiTable) := do
  let tab ← loadCpy file tab
  let json ← toJson tab record
  if maxArgsJson < json.length then .error .undefined else return (json, tab)

end Pqfh
