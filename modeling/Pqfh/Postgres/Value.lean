import Mathlib.Data.List.DropRight
import Mathlib.Data.Rat.Floor
import Pqfh.Foundation.Decimal
import Pqfh.Table.Layout

/-! # Column values and their texts

The handler talks to PostgreSQL in texts: it sends a text for each parameter and reads a
text for each column of a row. This module says what the texts mean. A numeric(L,D) column
holds a number with D decimals; its texts are numerals. A character(L) column holds a text;
blanks at its end do not count.

PostgreSQL reads more spellings of numbers than digits with a sign and a point
(exponents, blanks around the number, special values). What it makes of these is left
open: `Postgres.other`.
-/

namespace Pqfh

/-- A value of a column. A character value is kept without the blanks at its end. -/
inductive Value where
  | null
  | num (number : ℚ)
  | chr (text : List Byte)
  deriving DecidableEq

/-- The values of a row, one for each column. -/
abbrev Row := List Value

/-- The relations of a database. A relation that does not exist has no rows at all. -/
abbrev Db := ℕ → Option (List Row)

/-- A condition of equalities, column positions with values. -/
abbrev Condition := List (ℕ × Value)

/-- A statement that changes a relation. -/
inductive Statement where
  | insert (relation : ℕ) (row : Row)
  | update (relation : ℕ) (set : List (ℕ × Value)) (condition : Condition)
  | delete (relation : ℕ) (condition : Condition)
  deriving DecidableEq

/-- A statement that changes the set of relations, or empties one. -/
inductive Ddl where
  | create (relation parent : ℕ)
  | index (relation : ℕ) (definition : List Byte)
  | truncate (relation : ℕ)
  | drop (relation : ℕ)
  deriving DecidableEq

/-- The type of a column in the catalog. Numeric and character columns are declared with
their lengths. -/
inductive CatalogType where
  | numeric (len dec : ℕ) (len_pos : 0 < len) (dec_le : dec ≤ len)
  | character (len : ℕ) (len_pos : 0 < len)
  | other

/-- The sizes that tell a type of the catalog. -/
def CatalogType.sizes : CatalogType → Option (ℕ × Option ℕ)
  | .numeric len dec _ _ => some (len, some dec)
  | .character len _ => some (len, none)
  | .other => none

theorem CatalogType.sizes_injective : Function.Injective CatalogType.sizes := by
  intro first second same
  cases first <;> cases second <;>
    simp_all only [CatalogType.sizes, Option.some.injEq, Prod.mk.injEq, reduceCtorEq, and_false]

instance catalogTypeDecidableEq : DecidableEq CatalogType :=
  CatalogType.sizes_injective.decidableEq

/-- A column in the catalog. -/
structure CatalogColumn where
  name : String
  type : CatalogType
  deriving DecidableEq

/-- The comparisons of a START. -/
inductive Comparison where
  | eq
  | gt
  | ge
  | lt
  | le
  deriving Repr, DecidableEq

/-- The words of the condition that a START puts into its query. A column stands for its
name. -/
inductive Token where
  | column (i : ℕ)
  | compare (op : Comparison)
  | number (text : List Byte)
  | quoted (text : List Byte)
  | and
  | or
  | opening
  | closing
  deriving Repr, DecidableEq

/-- `isdigit`. -/
def isDigit (byte : Byte) : Bool := 48 ≤ byte ∧ byte ≤ 57

theorem isDigit_iff {byte : Byte} : isDigit byte ↔ 48 ≤ byte.val ∧ byte.val ≤ 57 := by
  unfold isDigit
  rw [decide_eq_true_iff]
  exact Iff.rfl

/-- The characters of plain numerals. -/
def numeralChar (byte : Byte) : Bool := isDigit byte || byte = 43 || byte = 45 || byte = 46

/-- The part of the server that the handler does not see through. -/
structure Postgres where
  /-- The numbers that other texts than plain numerals denote. -/
  other : List Byte → Option ℚ
  /-- Digits, signs and points that are not a plain numeral denote no number. -/
  other_plain : ∀ text, text.all numeralChar = true → other text = none
  /-- The statements that the server refuses: a unique index, another constraint, a
  deadlock. -/
  refuses : Statement → Db → Bool
  refusesDdl : Ddl → Db → Bool
  /-- `pg_try_advisory_lock`. -/
  tryLock : ℕ → ℤ → Bool
  /-- The relation of a name. -/
  relation : List Byte → ℕ
  oid : ℕ → ℕ
  /-- The columns of a relation, while it exists. -/
  catalog : ℕ → List CatalogColumn
  /-- The indexes of a relation, their names and definitions. -/
  indexes : ℕ → List (List Byte × List Byte)
  /-- The collation of texts. -/
  textLe : List Byte → List Byte → Bool
  textLe_total : ∀ a b, textLe a b = true ∨ textLe b a = true
  textLe_trans : ∀ a b c, textLe a b = true → textLe b c = true → textLe a c = true
  textLe_antisymm : ∀ a b, textLe a b = true → textLe b a = true → a = b
  /-- The rows of a query as ORDER BY gives them. Rows that are equal in its columns come in
  any order. -/
  arrange : (Row → Row → Bool) → List Row → List Row
  arrange_perm : ∀ le rows, (arrange le rows).Perm rows
  arrange_sorted : ∀ (le : Row → Row → Bool) rows, (∀ a b, le a b = true ∨ le b a = true) →
    (∀ a b c, le a b = true → le b c = true → le a c = true) →
    (arrange le rows).Pairwise fun a b => le a b = true
  /-- The rows that a query gives when a text in its condition, taken for a number, is
  something else. -/
  unforeseen : List Token → List Row → Option (List Row)

/-! ## Characters -/

/-- A digit as a byte, `'0' + digit`. -/
def digitByte (digit : ℕ) : Byte := Fin.ofNat 256 (48 + digit)

/-- The digits that a text of digits writes. -/
def textDigits (text : List Byte) : List ℕ := text.map fun byte => byte.val - 48

/-- A text without the blanks at its end. -/
def rtrim (text : List Byte) : List Byte := text.rdropWhile (· = 32)

/-- A text filled with blanks to a length. -/
def blankFill (length : ℕ) (text : List Byte) : List Byte :=
  text ++ List.replicate (length - text.length) 32

/-! ## Numerals -/

/-- The number that digits with at most one point denote; there is at least one digit. -/
def unsignedNumeral (text : List Byte) : Option ℚ :=
  let int := text.takeWhile isDigit
  match text.dropWhile isDigit with
  | [] => if int = [] then none else some (Decimal.value (textDigits int))
  | point :: frac =>
      if point = 46 ∧ frac.all isDigit ∧ ¬ (int = [] ∧ frac = []) then
        some (Decimal.value (textDigits (int ++ frac)) / 10 ^ frac.length)
      else none

/-- The number that a plain numeral denotes: an optional sign, then digits with at most
one point. -/
def plainNumeral : List Byte → Option ℚ
  | [] => none
  | first :: rest =>
      if first = 45 then (unsignedNumeral rest).map Neg.neg
      else if first = 43 then unsignedNumeral rest
      else unsignedNumeral (first :: rest)

/-- The number that a text denotes, if PostgreSQL takes it for a number. -/
def Postgres.numeral (pg : Postgres) (text : List Byte) : Option ℚ :=
  match plainNumeral text with
  | some number => some number
  | none => pg.other text

/-! ## Parameters -/

/-- The value that a parameter stands for in a comparison with a column. -/
def Postgres.denote (pg : Postgres) (col : Column) (text : List Byte) : Option Value :=
  match col.tp with
  | .numeric => (pg.numeral text).map .num
  | .character => some (.chr (rtrim text))

/-- A number rounded to `dec` decimals, halves away from zero. -/
def roundTo (dec : ℕ) (number : ℚ) : ℚ :=
  if 0 ≤ number then ⌊number * 10 ^ dec + 1 / 2⌋ / 10 ^ dec
  else -(⌊-number * 10 ^ dec + 1 / 2⌋ / 10 ^ dec)

/-- The value stored when a parameter is assigned to a column. Numbers out of range and
texts too long are errors. -/
def Postgres.store (pg : Postgres) (col : Column) (text : List Byte) : Option Value :=
  match col.tp with
  | .numeric =>
      match pg.numeral text with
      | none => none
      | some number =>
          let rounded := roundTo col.dec number
          if |rounded| * 10 ^ col.dec < 10 ^ col.len then some (.num rounded) else none
  | .character =>
      if (text.drop col.len).all (· = 32) then some (.chr (rtrim (text.take col.len))) else none

/-! ## Results -/

/-- A natural number written with `dec` decimals and at least one digit before them. -/
def printNat (dec n : ℕ) : List Byte :=
  if dec = 0 then (Decimal.canonical n).map digitByte
  else (Decimal.canonical (n / 10 ^ dec)).map digitByte ++
    46 :: (Decimal.fixed dec (n % 10 ^ dec)).map digitByte

/-- `PQgetvalue`: the text of a column's value. -/
def printValue (col : Column) : Value → List Byte
  | .null => []
  | .num number =>
      let scaled := ⌊number * 10 ^ col.dec⌋
      if scaled < 0 then 45 :: printNat col.dec scaled.natAbs else printNat col.dec scaled.natAbs
  | .chr text => blankFill col.len text

/-- The values a column can hold. -/
def Value.Fits (col : Column) : Value → Prop
  | .null => True
  | .num number => col.tp = .numeric ∧
      ∃ scaled : ℤ, number = scaled / 10 ^ col.dec ∧ scaled.natAbs < 10 ^ col.len
  | .chr text => col.tp = .character ∧ text.length ≤ col.len ∧ rtrim text = text ∧ 0 ∉ text

end Pqfh
