import Mathlib.Data.Fin.Basic
import Mathlib.Data.List.DropRight
import Pqfh.Foundation.Decimal

/-! # Java strings

A string is a list of UTF-16 code units. Between strings and bytes there are two charsets,
ISO-8859-1 and UTF-8; what cannot be encoded becomes a question mark, and what cannot be decoded the
replacement character, as `String.getBytes` and `new String` have it.
-/

namespace Java

/-- A `byte`, unsigned. -/
abbrev Octet := Fin 256

/-- A `char`. -/
abbrev CodeUnit := Fin 65536

/-- A `String`. -/
abbrev Str := List CodeUnit

/-- What the literals of code units rest on. -/
instance codeUnitNeZero : NeZero 65536 := ⟨by decide⟩

/-- What membership in a string rests on. -/
instance codeUnitLawfulBEq : LawfulBEq CodeUnit := inferInstance

/-- What the literals of octets rest on. -/
local instance octetNeZero : NeZero 256 := ⟨by decide⟩

/-- The string of a literal of characters from the basic plane. -/
def lit (text : String) : Str := text.toList.map fun char => Fin.ofNat 65536 char.toNat

/-- A character literal. -/
def unit (char : Char) : CodeUnit := Fin.ofNat 65536 char.toNat

/-- `substring`, when the places are in the string. -/
def substring (s : Str) (begin stop : ℕ) : Option Str :=
  if begin ≤ stop ∧ stop ≤ s.length then some ((s.drop begin).take (stop - begin)) else none

/-- `trim`. -/
def trim (s : Str) : Str := (s.dropWhile (· ≤ 32)).rdropWhile (· ≤ 32)

/-- `split`, at a character. Empty parts at the end are left out. -/
def split (s : Str) (separator : CodeUnit) : List Str :=
  if separator ∈ s then (s.splitOn separator).rdropWhile (· = []) else [s]

/-! ## ISO-8859-1 -/

/-- `(char) c`, for a byte. -/
def ofOctet (octet : Octet) : CodeUnit := octet.castLE (by decide)

/-- `new String(bytes, "ISO-8859-1")`. -/
def decodeLatin1 (bytes : List Octet) : Str := bytes.map ofOctet

def isHigh (unit : CodeUnit) : Bool := 55296 ≤ unit && unit < 56320

def isLow (unit : CodeUnit) : Bool := 56320 ≤ unit && unit < 57344

/-- The byte of a code unit. -/
def latin1 (unit : CodeUnit) : Octet := if unit < 256 then Fin.ofNat 256 unit.val else 63

/-- The rest of a string, after a high surrogate or not. A pair is one question mark. -/
def encodeLatin1From : Option CodeUnit → Str → List Octet
  | none, [] => []
  | some _, [] => [63]
  | none, unit :: rest =>
      if isHigh unit then encodeLatin1From (some unit) rest
      else latin1 unit :: encodeLatin1From none rest
  | some _, unit :: rest =>
      if isLow unit then 63 :: encodeLatin1From none rest
      else if isHigh unit then 63 :: encodeLatin1From (some unit) rest
      else 63 :: latin1 unit :: encodeLatin1From none rest

/-- `getBytes("ISO-8859-1")`. -/
def encodeLatin1 (s : Str) : List Octet := encodeLatin1From none s

/-! ## UTF-8 -/

/-- The bytes of a code unit that is not a high surrogate. -/
def utf8 (unit : CodeUnit) : List Octet :=
  if unit < 128 then [Fin.ofNat 256 unit.val]
  else if unit < 2048 then
    [Fin.ofNat 256 (192 + unit.val / 64), Fin.ofNat 256 (128 + unit.val % 64)]
  else if isLow unit then [63]
  else [Fin.ofNat 256 (224 + unit.val / 4096), Fin.ofNat 256 (128 + unit.val / 64 % 64),
    Fin.ofNat 256 (128 + unit.val % 64)]

/-- The bytes of a surrogate pair. -/
def utf8Pair (high low : CodeUnit) : List Octet :=
  let code := 65536 + (high.val - 55296) * 1024 + (low.val - 56320)
  [Fin.ofNat 256 (240 + code / 262144), Fin.ofNat 256 (128 + code / 4096 % 64),
    Fin.ofNat 256 (128 + code / 64 % 64), Fin.ofNat 256 (128 + code % 64)]

/-- The rest of a string, after a high surrogate or not. -/
def encodeUtf8From : Option CodeUnit → Str → List Octet
  | none, [] => []
  | some _, [] => [63]
  | none, unit :: rest =>
      if isHigh unit then encodeUtf8From (some unit) rest
      else utf8 unit ++ encodeUtf8From none rest
  | some high, unit :: rest =>
      if isLow unit then utf8Pair high unit ++ encodeUtf8From none rest
      else if isHigh unit then 63 :: encodeUtf8From (some unit) rest
      else 63 :: (utf8 unit ++ encodeUtf8From none rest)

/-- `getBytes("UTF-8")`. -/
def encodeUtf8 (s : Str) : List Octet := encodeUtf8From none s

/-- The replacement character. -/
def replacement : CodeUnit := 65533

def isContinuation (octet : Octet) : Bool := 128 ≤ octet && octet < 192

/-- The second of three bytes cannot follow the first. -/
def malformed3 (b1 b2 : Octet) : Bool := (b1 = 224 && b2 < 160) || !isContinuation b2

/-- The second of four bytes cannot follow the first. -/
def malformed4 (b1 b2 : Octet) : Bool :=
  244 < b1 || (b1 = 240 && b2 < 144) || (b1 = 244 && 144 ≤ b2) || !isContinuation b2

/-- What is read at a byte: the code units, and the bytes from which the reader goes on. -/
def decodeAt (b1 : Octet) (rest : List Octet) : Str × List Octet :=
  if b1 < 128 then ([ofOctet b1], rest)
  else if 194 ≤ b1 ∧ b1 < 224 then
    match rest with
    | [] => ([replacement], [])
    | b2 :: later =>
        if isContinuation b2 then
          ([Fin.ofNat 65536 ((b1.val - 192) * 64 + (b2.val - 128))], later)
        else ([replacement], rest)
  else if 224 ≤ b1 ∧ b1 < 240 then
    match rest with
    | [] => ([replacement], [])
    | [b2] => ([replacement], if malformed3 b1 b2 then rest else [])
    | b2 :: b3 :: later =>
        if malformed3 b1 b2 then ([replacement], rest)
        else if !isContinuation b3 then ([replacement], b3 :: later)
        else
          let unit : CodeUnit :=
            Fin.ofNat 65536 ((b1.val - 224) * 4096 + (b2.val - 128) * 64 + (b3.val - 128))
          ([if isHigh unit || isLow unit then replacement else unit], later)
  else if 240 ≤ b1 ∧ b1 < 248 then
    match rest with
    | [] => ([replacement], [])
    | [b2] => ([replacement], if malformed4 b1 b2 then rest else [])
    | [b2, b3] =>
        ([replacement], if malformed4 b1 b2 then rest
          else if !isContinuation b3 then [b3] else [])
    | b2 :: b3 :: b4 :: later =>
        if malformed4 b1 b2 then ([replacement], rest)
        else if !isContinuation b3 then ([replacement], b3 :: b4 :: later)
        else if !isContinuation b4 then ([replacement], b4 :: later)
        else
          let code := (b1.val - 240) * 262144 + (b2.val - 128) * 4096 + (b3.val - 128) * 64 +
            (b4.val - 128) - 65536
          ([Fin.ofNat 65536 (55296 + code / 1024), Fin.ofNat 65536 (56320 + code % 1024)], later)
  else ([replacement], rest)

/-- The string of some bytes. There are no more turns than bytes. -/
def decodeUtf8From : ℕ → List Octet → Str
  | _, [] => []
  | 0, _ :: _ => []
  | n + 1, octet :: rest =>
      (decodeAt octet rest).1 ++ decodeUtf8From n (decodeAt octet rest).2

/-- `new String(bytes, "UTF-8")`. -/
def decodeUtf8 (bytes : List Octet) : Str := decodeUtf8From bytes.length bytes

/-! ## Integers -/

/-- The `int` of a result. -/
def int (n : ℤ) : ℤ := n.bmod 4294967296

/-- The zeros of the decimal digits of the basic plane. -/
def zeros : List ℕ :=
  [48, 1632, 1776, 1984, 2406, 2534, 2662, 2790, 2918, 3046, 3174, 3302, 3430, 3664, 3792, 3872,
    4160, 4240, 6112, 6160, 6470, 6608, 6784, 6800, 6992, 7088, 7232, 7248, 42528, 43216, 43264,
    43472, 43600, 44016, 65296]

/-- `Character.digit(unit, 10)`. -/
def digit (unit : CodeUnit) : Option ℕ :=
  (zeros.find? fun first => first ≤ unit.val && unit.val < first + 10).map (unit.val - ·)

/-- A number without its sign. -/
def parseDigits (s : Str) : Option ℕ :=
  if s = [] then none else (s.mapM digit).map Decimal.value

/-- `Integer.parseInt`, or the exception. -/
def parseInt (s : Str) : Option ℤ :=
  match s with
  | [] => none
  | sign :: rest =>
      if sign = 45 then
        (parseDigits rest).bind fun n => if n ≤ 2147483648 then some (-n) else none
      else (parseDigits (if sign = 43 then rest else s)).bind fun n =>
        if n ≤ 2147483647 then some n else none

/-- The digits of a number as characters. -/
def digitUnits (digits : List ℕ) : Str := digits.map fun digit => Fin.ofNat 65536 (48 + digit)

/-- `String.format("%0wd", n)`. -/
def formatInt (width : ℕ) (n : ℤ) : Str :=
  if n < 0 then 45 :: digitUnits (Decimal.fixed (width - 1) n.natAbs)
  else digitUnits (Decimal.fixed width n.natAbs)

/-! ## Texts of ASCII characters -/

/-- A text of ASCII characters. -/
def IsAscii (s : Str) : Prop := ∀ unit ∈ s, unit.val < 128

/-- An octet is the unit of the same number. -/
theorem ofOctet_val (octet : Octet) : (ofOctet octet).val = octet.val := rfl

/-- An octet below 128 is decoded alone. -/
theorem decodeUtf8_cons {octet : Octet} (low : octet.val < 128) (rest : List Octet) :
    decodeUtf8 (octet :: rest) = ofOctet octet :: decodeUtf8 rest := by
  have here : decodeAt octet rest = ([ofOctet octet], rest) := if_pos low
  unfold decodeUtf8
  rw [List.length_cons, decodeUtf8From, here]
  rfl

/-- Bytes of ASCII characters are read one by one, whatever follows them. -/
theorem decodeUtf8_append {front : List Octet} (low : ∀ octet ∈ front, octet.val < 128)
    (rest : List Octet) : decodeUtf8 (front ++ rest) = decodeLatin1 front ++ decodeUtf8 rest := by
  induction front with
  | nil => rfl
  | cons octet front ih =>
      obtain ⟨here, later⟩ := List.forall_mem_cons.mp low
      rw [List.cons_append, decodeUtf8_cons here, ih later]
      rfl

/-- ASCII is decoded alike by UTF-8 and by Latin-1. -/
theorem decodeUtf8_ascii {bytes : List Octet} (low : ∀ octet ∈ bytes, octet.val < 128) :
    decodeUtf8 bytes = decodeLatin1 bytes := by
  have whole := decodeUtf8_append low []
  rw [List.append_nil] at whole
  rw [whole]
  exact List.append_nil _

/-- The byte of an ASCII character. -/
def toOctet (unit : CodeUnit) : Octet := Fin.ofNat 256 unit.val

/-- A unit below 256 is the octet of the same number. -/
theorem toOctet_val {unit : CodeUnit} (low : unit.val < 256) : (toOctet unit).val = unit.val :=
  Nat.mod_eq_of_lt low

/-- A unit below 256 comes back from its octet. -/
theorem ofOctet_toOctet {unit : CodeUnit} (low : unit.val < 256) : ofOctet (toOctet unit) = unit :=
  Fin.ext (toOctet_val low)

/-- No unit below the surrogates is a high one. -/
theorem not_isHigh_of_lt {unit : CodeUnit} (low : unit.val < 55296) : isHigh unit = false := by
  unfold isHigh
  rw [Bool.and_eq_false_iff]
  exact Or.inl (decide_eq_false (Nat.not_le.mpr low))

/-- ASCII in front is encoded unit by unit. -/
theorem encodeUtf8_append {front : Str} (ascii : IsAscii front) (rest : Str) :
    encodeUtf8 (front ++ rest) = front.map toOctet ++ encodeUtf8 rest := by
  induction front with
  | nil => rfl
  | cons unit front ih =>
      obtain ⟨here, later⟩ := List.forall_mem_cons.mp ascii
      have high := not_isHigh_of_lt (here.trans (by decide))
      have single : utf8 unit = [toOctet unit] := if_pos here
      have rest := ih later
      unfold encodeUtf8 at rest ⊢
      rw [List.cons_append, encodeUtf8From, high, if_neg Bool.false_ne_true, single, rest]
      rfl

/-- Latin-1 in front is encoded unit by unit. -/
theorem encodeLatin1_append {front : Str} (low : ∀ unit ∈ front, unit.val < 256) (rest : Str) :
    encodeLatin1 (front ++ rest) = front.map toOctet ++ encodeLatin1 rest := by
  induction front with
  | nil => rfl
  | cons unit front ih =>
      obtain ⟨here, later⟩ := List.forall_mem_cons.mp low
      have high := not_isHigh_of_lt (here.trans (by decide))
      have single : latin1 unit = toOctet unit := if_pos here
      have rest := ih later
      unfold encodeLatin1 at rest ⊢
      rw [List.cons_append, encodeLatin1From, high, if_neg Bool.false_ne_true, single, rest]
      rfl

/-- The octets of an ASCII text are below 128. -/
theorem map_toOctet_low {s : Str} (ascii : IsAscii s) :
    ∀ octet ∈ s.map toOctet, octet.val < 128 := by
  intro octet member
  obtain ⟨unit, here, rfl⟩ := List.mem_map.mp member
  rw [toOctet_val ((ascii unit here).trans (by decide))]
  exact ascii unit here

/-- A text in Latin-1 comes back from its octets. -/
theorem decodeLatin1_map_toOctet {s : Str} (low : ∀ unit ∈ s, unit.val < 256) :
    decodeLatin1 (s.map toOctet) = s := by
  unfold decodeLatin1
  rw [List.map_map]
  exact (List.map_congr_left fun unit member => ofOctet_toOctet (low unit member)).trans
    (List.map_id s)

/-! ## Numbers -/

/-- A number of 32 bits is its own `int`. -/
theorem int_of_small {n : ℤ} (low : -2147483648 ≤ n) (high : n < 2147483648) : int n = n :=
  Int.bmod_eq_of_le_mul_two (by omega) (by omega)

/-- The unit of a digit is numbered from that of zero. -/
theorem digitUnit_val {d : ℕ} (decimal : d < 10) :
    (Fin.ofNat 65536 (48 + d) : CodeUnit).val = 48 + d :=
  Nat.mod_eq_of_lt (by omega)

/-- The unit of a digit is read as the digit. -/
theorem digit_digitUnit {d : ℕ} (decimal : d < 10) : digit (Fin.ofNat 65536 (48 + d)) = some d := by
  have here : (48 ≤ (Fin.ofNat 65536 (48 + d) : CodeUnit).val &&
      (Fin.ofNat 65536 (48 + d) : CodeUnit).val < 48 + 10) = true := by
    rw [digitUnit_val decimal]
    simp only [Bool.and_eq_true, decide_eq_true_eq]
    omega
  have found : zeros.find? (fun first => first ≤ (Fin.ofNat 65536 (48 + d) : CodeUnit).val &&
      (Fin.ofNat 65536 (48 + d) : CodeUnit).val < first + 10) = some 48 :=
    List.find?_cons_of_pos here
  unfold digit
  rw [found, Option.map_some, digitUnit_val decimal, Nat.add_sub_cancel_left]

/-- The units of digits are read as the digits. -/
theorem mapM_digit {digits : List ℕ} (decimal : ∀ d ∈ digits, d < 10) :
    (digitUnits digits).mapM digit = some digits := by
  induction digits with
  | nil => rfl
  | cons d digits ih =>
      obtain ⟨here, later⟩ := List.forall_mem_cons.mp decimal
      have rest := ih later
      unfold digitUnits at rest ⊢
      rw [List.map_cons, List.mapM_cons, digit_digitUnit here, rest]
      rfl

/-- Digits are parsed as the number they write. -/
theorem parseDigits_digitUnits {digits : List ℕ} (some_digit : digits ≠ [])
    (decimal : ∀ d ∈ digits, d < 10) :
    parseDigits (digitUnits digits) = some (Decimal.value digits) := by
  have filled : digitUnits digits ≠ [] := fun empty => some_digit (List.map_eq_nil_iff.mp empty)
  unfold parseDigits
  rw [if_neg filled, mapM_digit decimal]
  rfl

/-- Digits are parsed as an `int` when it is not too large. -/
theorem parseInt_digitUnits {digits : List ℕ} (some_digit : digits ≠ [])
    (decimal : ∀ d ∈ digits, d < 10) (fits : Decimal.value digits ≤ 2147483647) :
    parseInt (digitUnits digits) = some (Decimal.value digits : ℤ) := by
  have read := parseDigits_digitUnits some_digit decimal
  obtain ⟨d, rest, rfl⟩ := List.exists_cons_of_ne_nil some_digit
  have here := digitUnit_val (decimal d List.mem_cons_self)
  have other : ∀ sign : CodeUnit, sign.val < 48 → Fin.ofNat 65536 (48 + d) ≠ sign := by
    rintro sign below rfl
    omega
  unfold parseInt
  change (if Fin.ofNat 65536 (48 + d) = 45 then _ else _) = _
  rw [if_neg (other 45 (by decide)), if_neg (other 43 (by decide))]
  rw [read, Option.bind_some, if_pos fits]

/-- A natural number is printed in digits of a fixed width. -/
theorem formatInt_natCast (width n : ℕ) :
    formatInt width n = digitUnits (Decimal.fixed width n) := by
  unfold formatInt
  rw [if_neg (Int.not_lt.mpr (Int.natCast_nonneg n)), Int.natAbs_natCast]

/-- Digits are ASCII. -/
theorem isAscii_digitUnits {digits : List ℕ} (decimal : ∀ d ∈ digits, d < 10) :
    IsAscii (digitUnits digits) := by
  intro unit member
  obtain ⟨d, here, rfl⟩ := List.mem_map.mp member
  have small := decimal d here
  rw [digitUnit_val small]
  omega

/-- A number is written in its width and read back. -/
theorem parseInt_formatInt {width n : ℕ} (room : 0 < width) (fits : n < 10 ^ width)
    (int : n ≤ 2147483647) :
    parseInt (formatInt width n) = some (n : ℤ) ∧ (formatInt width n).length = width ∧
      IsAscii (formatInt width n) := by
  have length := Decimal.length_fixed fits
  have some_digit : Decimal.fixed width n ≠ [] := by
    intro empty
    rw [empty, List.length_nil] at length
    omega
  have value := Decimal.value_fixed width n
  rw [formatInt_natCast]
  refine ⟨?_, (List.length_map _).trans length, isAscii_digitUnits (Decimal.fixed_lt width n)⟩
  rw [parseInt_digitUnits some_digit (Decimal.fixed_lt width n) (value.symm ▸ int), value]

/-! ## Numbers of two characters -/

/-- A unit that is read as a digit stands in one of the blocks of ten. -/
theorem digit_of_eq {unit : CodeUnit} {d : ℕ} (read : digit unit = some d) :
    ∃ first ∈ zeros, first ≤ unit.val ∧ unit.val < first + 10 ∧ d = unit.val - first := by
  obtain ⟨first, found, rfl⟩ := Option.map_eq_some_iff.mp read
  have here := List.find?_some found
  simp only [Bool.and_eq_true, decide_eq_true_eq] at here
  exact ⟨first, List.mem_of_find?_eq_some found, here.1, here.2, rfl⟩

/-- A digit is below ten. -/
theorem digit_lt {unit : CodeUnit} {d : ℕ} (read : digit unit = some d) : d < 10 := by
  obtain ⟨first, _, _, above, rfl⟩ := digit_of_eq read
  omega

/-- Among the characters of ISO-8859-1 the digits are those of ASCII. -/
theorem digit_ascii {unit : CodeUnit} {d : ℕ} (latin1 : unit.val < 256)
    (read : digit unit = some d) : unit.val < 128 := by
  obtain ⟨first, member, below, above, _⟩ := digit_of_eq read
  have one : ∀ first ∈ zeros, first = 48 ∨ 1632 ≤ first := by decide
  rcases one first member with rfl | beyond
  · omega
  · omega

/-- What digits were read of a text. -/
theorem digits_of_mapM {s : Str} {digits : List ℕ} (read : s.mapM digit = some digits) :
    digits.length = s.length ∧ ∀ d ∈ digits, d < 10 := by
  induction s generalizing digits with
  | nil =>
      cases read
      exact ⟨rfl, fun _ member => absurd member List.not_mem_nil⟩
  | cons unit s ih =>
      rw [List.mapM_cons] at read
      obtain ⟨d, here, rest⟩ := Option.bind_eq_some_iff.mp read
      obtain ⟨more, later, same⟩ := Option.bind_eq_some_iff.mp rest
      obtain ⟨length, decimal⟩ := ih later
      cases same
      exact ⟨congrArg (· + 1) length, List.forall_mem_cons.mpr ⟨digit_lt here, decimal⟩⟩

/-- A number is below the power of ten of its length. -/
theorem parseDigits_lt {s : Str} {n : ℕ} (read : parseDigits s = some n) : n < 10 ^ s.length := by
  unfold parseDigits at read
  split at read
  · cases read
  · obtain ⟨digits, mapped, rfl⟩ := Option.map_eq_some_iff.mp read
    obtain ⟨length, decimal⟩ := digits_of_mapM mapped
    rw [← length]
    exact Decimal.value_lt decimal

/-- The digits below 256 are those of ASCII. -/
theorem parseDigits_ascii {unit : CodeUnit} {s : Str} {n : ℕ} (latin1 : unit.val < 256)
    (read : parseDigits (unit :: s) = some n) : unit.val < 128 := by
  unfold parseDigits at read
  rw [if_neg (List.cons_ne_nil unit s)] at read
  obtain ⟨digits, mapped, _⟩ := Option.map_eq_some_iff.mp read
  rw [List.mapM_cons] at mapped
  obtain ⟨d, here, _⟩ := Option.bind_eq_some_iff.mp mapped
  exact digit_ascii latin1 here

/-- What is read of two characters has one digit after a sign, and two without. -/
theorem parseInt_pair {u v : CodeUnit} {n : ℤ} (read : parseInt [u, v] = some n) :
    -10 < n ∧ n < 100 := by
  unfold parseInt at read
  dsimp only at read
  split at read
  · obtain ⟨k, digits, same⟩ := Option.bind_eq_some_iff.mp read
    have small : k < 10 ^ 1 := parseDigits_lt digits
    split at same
    · cases same
      omega
    · cases same
  · obtain ⟨k, digits, same⟩ := Option.bind_eq_some_iff.mp read
    have small : k < 100 := by
      split at digits
      · exact (parseDigits_lt digits).trans (show 10 ^ 1 < 100 by decide)
      · exact parseDigits_lt digits
    split at same
    · cases same
      omega
    · cases same

/-- What begins a number below 256 is ASCII. -/
theorem parseInt_ascii {unit : CodeUnit} {s : Str} {n : ℤ} (latin1 : unit.val < 256)
    (read : parseInt (unit :: s) = some n) : unit.val < 128 := by
  unfold parseInt at read
  dsimp only at read
  split at read
  · rename_i minus
    rw [minus]
    decide
  · obtain ⟨k, digits, _⟩ := Option.bind_eq_some_iff.mp read
    split at digits
    · rename_i plus
      rw [plus]
      decide
    · exact parseDigits_ascii latin1 digits

/-- A number of one digit after its sign is written in two characters and read back. -/
theorem parseInt_formatInt_neg {n : ℤ} (low : -10 < n) (high : n < 0) :
    parseInt (formatInt 2 n) = some n ∧ (formatInt 2 n).length = 2 ∧ IsAscii (formatInt 2 n) := by
  have fits : n.natAbs < 10 ^ 1 := by omega
  have length := Decimal.length_fixed fits
  have decimal := Decimal.fixed_lt 1 n.natAbs
  have some_digit : Decimal.fixed 1 n.natAbs ≠ [] := by
    intro empty
    rw [empty, List.length_nil] at length
    omega
  have read := parseDigits_digitUnits some_digit decimal
  rw [Decimal.value_fixed] at read
  have text : formatInt 2 n = 45 :: digitUnits (Decimal.fixed 1 n.natAbs) := if_pos high
  rw [text]
  refine ⟨?_, ?_, List.forall_mem_cons.mpr ⟨by decide, isAscii_digitUnits decimal⟩⟩
  · unfold parseInt
    dsimp only
    rw [if_pos rfl, read, Option.bind_some, if_pos (by omega)]
    exact congrArg some (by omega)
  · rw [List.length_cons, digitUnits, List.length_map, length]

end Java
