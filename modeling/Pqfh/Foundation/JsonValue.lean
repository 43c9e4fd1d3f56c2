import Mathlib.Data.Rat.Cast.Defs
import Mathlib.Tactic.Ring
import Pqfh.Foundation.Decimal

/-! # Reading JSON

A reader for JSON texts, after the grammar of the interchange format: one value with white space
around it. The characters of a text are numbers. An escape `\u` stands for the number that it
writes. The reader gives every member of an object, in the order of the text, also those with equal
names.
-/

/-- A JSON value. -/
inductive JsonValue where
  | null
  | bool (value : Bool)
  | number (value : ℚ)
  | string (text : List ℕ)
  | array (items : List JsonValue)
  | object (members : List (List ℕ × JsonValue))

namespace JsonValue

/-! ## Characters -/

def isSpace (char : ℕ) : Bool := char = 32 || char = 9 || char = 10 || char = 13

def isDigit (char : ℕ) : Bool := 48 ≤ char && char ≤ 57

/-- The text from the first character that is not white space. -/
def skip (text : List ℕ) : List ℕ := text.dropWhile isSpace

/-- A character that stands for itself in a string. -/
def isPlain (char : ℕ) : Bool := 32 ≤ char && char ≠ 34 && char ≠ 92

def hexDigit (char : ℕ) : Option ℕ :=
  if isDigit char then some (char - 48)
  else if 65 ≤ char ∧ char ≤ 70 then some (char - 55)
  else if 97 ≤ char ∧ char ≤ 102 then some (char - 87)
  else none

/-- What a backslash and a character stand for. -/
def escape (char : ℕ) : Option ℕ :=
  if char = 34 ∨ char = 92 ∨ char = 47 then some char
  else if char = 98 then some 8
  else if char = 102 then some 12
  else if char = 110 then some 10
  else if char = 114 then some 13
  else if char = 116 then some 9
  else none

/-! ## Reading -/

/-- Where a reader stands in a string: before a character, behind a backslash, or in the digits of
an escape, with how many of them it has read and their value. -/
inductive Within where
  | plain
  | back
  | hex (count value : ℕ)

/-- The rest of a string. -/
def readString : Within → List ℕ → Option (List ℕ × List ℕ)
  | _, [] => none
  | .plain, char :: rest =>
      if char = 34 then some ([], rest)
      else if char = 92 then readString .back rest
      else if char < 32 then none
      else do
        let (text, rest) ← readString .plain rest
        return (char :: text, rest)
  | .back, char :: rest =>
      if char = 117 then readString (.hex 0 0) rest
      else do
        let char ← escape char
        let (text, rest) ← readString .plain rest
        return (char :: text, rest)
  | .hex count value, char :: rest => do
      let digit ← hexDigit char
      if count = 3 then
        let (text, rest) ← readString .plain rest
        return ((value * 16 + digit) :: text, rest)
      else readString (.hex (count + 1) (value * 16 + digit)) rest

/-- Digits, at least one, and what follows them. -/
def readDigits (text : List ℕ) : Option (List ℕ × List ℕ) :=
  let digits := text.takeWhile isDigit
  if digits = [] then none else some (digits.map (· - 48), text.dropWhile isDigit)

/-- The part of a number after the point. -/
def readFraction : List ℕ → Option (ℚ × List ℕ)
  | 46 :: rest => do
      let (digits, rest) ← readDigits rest
      return ((Decimal.value digits : ℚ) / 10 ^ digits.length, rest)
  | rest => some (0, rest)

/-- The exponent of a number. -/
def readExponent (text : List ℕ) : Option (ℤ × List ℕ) :=
  match text with
  | char :: rest =>
      if char = 101 ∨ char = 69 then
        match rest with
        | 45 :: rest => do
            let (digits, rest) ← readDigits rest
            return (-Decimal.value digits, rest)
        | 43 :: rest => do
            let (digits, rest) ← readDigits rest
            return (Decimal.value digits, rest)
        | rest => do
            let (digits, rest) ← readDigits rest
            return (Decimal.value digits, rest)
      else some (0, text)
  | [] => some (0, [])

/-- A number without its sign. The digits before the point do not begin with a zero that is not the
only one. -/
def readUnsigned (text : List ℕ) : Option (ℚ × List ℕ) := do
  let (digits, rest) ← readDigits text
  if digits.head? = some 0 ∧ 1 < digits.length then none
  else
    let (fraction, rest) ← readFraction rest
    let (exponent, rest) ← readExponent rest
    return ((Decimal.value digits + fraction) * 10 ^ exponent, rest)

def readNumber : List ℕ → Option (ℚ × List ℕ)
  | 45 :: rest => do
      let (value, rest) ← readUnsigned rest
      return (-value, rest)
  | rest => readUnsigned rest

/-- What follows a character, when the text goes on with it. -/
def expect (char : ℕ) (text : List ℕ) : Option (List ℕ) :=
  match skip text with
  | [] => none
  | first :: rest => if first = char then some rest else none

/-- A word that is there, and what follows it. -/
def readWord (word : List ℕ) (value : JsonValue) (text : List ℕ) :
    Option (JsonValue × List ℕ) :=
  if word.isPrefixOf text then some (value, text.drop word.length) else none

mutual

/-- A value. The first argument bounds the depth of the calls, which is at most the number of
characters read. -/
def readValue : ℕ → List ℕ → Option (JsonValue × List ℕ)
  | 0, _ => none
  | n + 1, text =>
      match skip text with
      | [] => none
      | char :: rest =>
          if char = 34 then do
            let (text, rest) ← readString .plain rest
            return (string text, rest)
          else if char = 91 then
            match expect 93 rest with
            | some rest => some (array [], rest)
            | none => do
                let (items, rest) ← readItems n rest
                return (array items, rest)
          else if char = 123 then
            match expect 125 rest with
            | some rest => some (object [], rest)
            | none => do
                let (members, rest) ← readMembers n rest
                return (object members, rest)
          else if char = 110 then readWord [110, 117, 108, 108] null (char :: rest)
          else if char = 116 then readWord [116, 114, 117, 101] (bool true) (char :: rest)
          else if char = 102 then readWord [102, 97, 108, 115, 101] (bool false) (char :: rest)
          else do
            let (value, rest) ← readNumber (char :: rest)
            return (number value, rest)

/-- Some values with commas between them, to the bracket that ends an array. -/
def readItems : ℕ → List ℕ → Option (List JsonValue × List ℕ)
  | 0, _ => none
  | n + 1, text => do
      let (value, rest) ← readValue n text
      match expect 44 rest with
      | some rest => do
          let (values, rest) ← readItems n rest
          return (value :: values, rest)
      | none => do
          let rest ← expect 93 rest
          return ([value], rest)

/-- Some members with commas between them, to the bracket that ends an object. -/
def readMembers : ℕ → List ℕ → Option (List (List ℕ × JsonValue) × List ℕ)
  | 0, _ => none
  | n + 1, text => do
      let rest ← expect 34 text
      let (name, rest) ← readString .plain rest
      let rest ← expect 58 rest
      let (value, rest) ← readValue n rest
      match expect 44 rest with
      | some rest => do
          let (members, rest) ← readMembers n rest
          return ((name, value) :: members, rest)
      | none => do
          let rest ← expect 125 rest
          return ([(name, value)], rest)

end

/-- The value of a JSON text. -/
def read (text : List ℕ) : Option JsonValue := do
  let (value, rest) ← readValue (text.length + 1) text
  if skip rest = [] then some value else none

/-! ## White space -/

/-- A blank is passed over. -/
theorem skip_space {char : ℕ} (space : isSpace char = true) (text : List ℕ) :
    skip (char :: text) = skip text :=
  List.dropWhile_cons_of_pos space

/-- Nothing else is. -/
theorem skip_other {char : ℕ} (other : isSpace char = false) (text : List ℕ) :
    skip (char :: text) = char :: text :=
  List.dropWhile_cons_of_neg (by rw [other]; exact Bool.false_ne_true)

/-- Blanks may stand before a value. -/
theorem readValue_space {char : ℕ} (space : isSpace char = true) (n : ℕ) (text : List ℕ) :
    readValue n (char :: text) = readValue n text := by
  cases n with
  | zero => rfl
  | succ n => rw [readValue, readValue, skip_space space]

/-- Blanks may stand before a symbol. -/
theorem expect_space {char first : ℕ} (space : isSpace first = true) (text : List ℕ) :
    expect char (first :: text) = expect char text := by
  unfold expect
  rw [skip_space space]

/-- The symbol that is expected is read. -/
theorem expect_same {char : ℕ} (other : isSpace char = false) (text : List ℕ) :
    expect char (char :: text) = some text := by
  unfold expect
  rw [skip_other other]
  exact if_pos rfl

/-- Another character is an error. -/
theorem expect_other {char first : ℕ} (other : isSpace first = false) (different : first ≠ char)
    (text : List ℕ) : expect char (first :: text) = none := by
  unfold expect
  rw [skip_other other]
  exact if_neg different

/-- Blanks may stand before members. -/
theorem readMembers_space {char : ℕ} (space : isSpace char = true) (n : ℕ) (text : List ℕ) :
    readMembers n (char :: text) = readMembers n text := by
  cases n with
  | zero => rfl
  | succ n => rw [readMembers, readMembers, expect_space space]

/-! ## Strings -/

/-- A text that can stand in a string as it is. -/
def Plain (text : List ℕ) : Prop := ∀ char ∈ text, isPlain char = true

/-- A character of a string that needs no escape. -/
theorem isPlain_iff {char : ℕ} : isPlain char = true ↔ 32 ≤ char ∧ char ≠ 34 ∧ char ≠ 92 := by
  unfold isPlain
  simp only [Bool.and_eq_true, decide_eq_true_eq, and_assoc]

/-- Such a character is read as it stands. -/
theorem readString_cons {char : ℕ} (plain : isPlain char = true) (rest : List ℕ) :
    readString .plain (char :: rest) =
      (readString .plain rest).map fun read => (char :: read.1, read.2) := by
  obtain ⟨visible, quote, back⟩ := isPlain_iff.mp plain
  rw [readString, if_neg quote, if_neg back, if_neg (Nat.not_lt.mpr visible)]
  cases readString .plain rest <;> rfl

/-- A text of such characters is read to its quote. -/
theorem readString_plain {text : List ℕ} (plain : Plain text) (rest : List ℕ) :
    readString .plain (text ++ 34 :: rest) = some (text, rest) := by
  induction text with
  | nil => rfl
  | cons char text ih =>
      obtain ⟨here, later⟩ := List.forall_mem_cons.mp plain
      rw [List.cons_append, readString_cons here, ih later]
      rfl

/-- When what follows cannot be read on as a string, a text with something in it that is to be
escaped is read as a shorter one, if it is read at all. -/
theorem readString_shorter {rest : List ℕ} (stuck : readString .plain rest = none) :
    ∀ {text word left : List ℕ} {within : Within},
      readString within (text ++ 34 :: rest) = some (word, left) →
        word.length ≤ text.length ∧ (within = .plain → Plain text ∨ word.length < text.length) := by
  intro text
  induction text with
  | nil =>
      intro word left within read
      cases within with
      | plain =>
          cases read
          exact ⟨le_rfl, fun _ => Or.inl fun _ member => absurd member List.not_mem_nil⟩
      | back =>
          obtain ⟨_, found, _⟩ := Option.bind_eq_some_iff.mp read
          rw [stuck] at found
          cases found
      | hex count value => cases read
  | cons char text ih =>
      intro word left within read
      rw [List.cons_append] at read
      rw [List.length_cons]
      -- a character is read before the rest
      have longer : ∀ {next : ℕ} {word left : List ℕ},
          (readString .plain (text ++ 34 :: rest) >>= fun read => some (next :: read.1, read.2)) =
            some (word, left) → word.length ≤ text.length + 1 ∧
              (Plain text ∨ word.length < text.length + 1) := by
        intro next word left read
        obtain ⟨⟨word', left'⟩, read', ended⟩ := Option.bind_eq_some_iff.mp read
        cases ended
        obtain ⟨short, plain⟩ := ih read'
        exact ⟨Nat.succ_le_succ short, (plain rfl).imp_right Nat.succ_lt_succ⟩
      cases within with
      | plain =>
          by_cases plain : isPlain char = true
          · rw [readString_cons plain] at read
            obtain ⟨⟨word', left'⟩, read', ended⟩ := Option.map_eq_some_iff.mp read
            cases ended
            obtain ⟨short, rest⟩ := ih read'
            refine ⟨Nat.succ_le_succ short, fun _ =>
              (rest rfl).imp (fun later => ?_) Nat.succ_lt_succ⟩
            exact List.forall_mem_cons.mpr ⟨plain, later⟩
          · rw [readString] at read
            by_cases quote : char = 34
            · rw [if_pos quote] at read
              cases read
              exact ⟨Nat.zero_le _, fun _ => Or.inr (Nat.succ_pos _)⟩
            · rw [if_neg quote] at read
              by_cases back : char = 92
              · rw [if_pos back] at read
                have short := (ih read).1
                exact ⟨short.trans (Nat.le_succ _), fun _ => Or.inr (Nat.lt_succ_of_le short)⟩
              · rw [if_neg back] at read
                have low : char < 32 := by
                  by_contra visible
                  exact plain (isPlain_iff.mpr ⟨Nat.le_of_not_lt visible, quote, back⟩)
                rw [if_pos low] at read
                cases read
      | back =>
          rw [readString] at read
          split at read
          · have short := (ih read).1
            exact ⟨short.trans (Nat.le_succ _), fun other => by cases other⟩
          · obtain ⟨next, _, read⟩ := Option.bind_eq_some_iff.mp read
            exact ⟨(longer read).1, fun other => by cases other⟩
      | hex count value =>
          rw [readString] at read
          obtain ⟨digit, _, read⟩ := Option.bind_eq_some_iff.mp read
          split at read
          · exact ⟨(longer read).1, fun other => by cases other⟩
          · have short := (ih read).1
            exact ⟨short.trans (Nat.le_succ _), fun other => by cases other⟩

/-! ## Numbers -/

/-- The decimal text of an integer. -/
def printInt (n : ℤ) : List ℕ :=
  (if n < 0 then [45] else []) ++ (Decimal.canonical n.natAbs).map (· + 48)

/-- What follows does not go on with a number. -/
def EndsNumber (rest : List ℕ) : Prop :=
  ∀ char, rest.head? = some char → isDigit char = false ∧ char ≠ 46 ∧ char ≠ 101 ∧ char ≠ 69

/-- The character of a digit. -/
theorem isDigit_add {digit : ℕ} (decimal : digit < 10) : isDigit (digit + 48) = true := by
  unfold isDigit
  simp only [Bool.and_eq_true, decide_eq_true_eq]
  omega

/-- Digits are read up to the end of the number. -/
theorem readDigits_append {digits rest : List ℕ} (some : digits ≠ [])
    (decimal : ∀ digit ∈ digits, digit < 10) (ends : EndsNumber rest) :
    readDigits (digits.map (· + 48) ++ rest) = .some (digits, rest) := by
  have all : ∀ char ∈ digits.map (· + 48), isDigit char = true := by
    intro char member
    obtain ⟨digit, here, rfl⟩ := List.mem_map.mp member
    exact isDigit_add (decimal digit here)
  have stop : rest.takeWhile isDigit = [] ∧ rest.dropWhile isDigit = rest := by
    cases rest with
    | nil => exact ⟨rfl, rfl⟩
    | cons char rest =>
        have other := (ends char rfl).1
        exact ⟨List.takeWhile_cons_of_neg (by rw [other]; exact Bool.false_ne_true),
          List.dropWhile_cons_of_neg (by rw [other]; exact Bool.false_ne_true)⟩
  unfold readDigits
  dsimp only
  rw [List.takeWhile_append_of_pos all, List.dropWhile_append_of_pos all, stop.1, stop.2,
    List.append_nil, if_neg (by rwa [List.map_eq_nil_iff]), List.map_map]
  congr 2
  exact (List.map_congr_left fun digit _ => Nat.add_sub_cancel digit 48).trans (List.map_id _)

/-- A natural number that is printed is read. -/
theorem readUnsigned_canonical (n : ℕ) {rest : List ℕ} (ends : EndsNumber rest) :
    readUnsigned ((Decimal.canonical n).map (· + 48) ++ rest) = some ((n : ℚ), rest) := by
  have lead : ¬ ((Decimal.canonical n).head? = some 0 ∧ 1 < (Decimal.canonical n).length) := by
    rintro ⟨zero, long⟩
    unfold Decimal.canonical at zero long
    split at zero
    · rename_i none
      rw [if_pos none] at long
      exact absurd long (lt_irrefl 1)
    · rename_i positive
      have last := Nat.getLast_digit_ne_zero 10 positive
      rw [List.head?_reverse, List.getLast?_eq_some_getLast
        (Nat.digits_ne_nil_iff_ne_zero.mpr positive)] at zero
      exact last (Option.some.inj zero)
  have fraction : readFraction rest = some (0, rest) := by
    unfold readFraction
    split
    · exact absurd rfl (ends 46 rfl).2.1
    · rfl
  have exponent : readExponent rest = some (0, rest) := by
    unfold readExponent
    cases rest with
    | nil => rfl
    | cons char rest =>
        obtain ⟨_, _, small, large⟩ := ends char rfl
        exact if_neg fun either => either.elim small large
  unfold readUnsigned
  rw [readDigits_append (Decimal.canonical_ne_nil n) (Decimal.canonical_lt n) ends]
  dsimp only [bind, Option.bind]
  rw [if_neg lead, fraction]
  dsimp only
  rw [exponent]
  dsimp only [pure]
  rw [Decimal.value_canonical, zpow_zero, mul_one, add_zero]

/-- A number without a sign. -/
theorem readNumber_unsigned {text : List ℕ} (plain : text.head? ≠ some 45) :
    readNumber text = readUnsigned text := by
  unfold readNumber
  split
  · exact absurd rfl plain
  · rfl

/-- A whole number that is printed is read. -/
theorem readNumber_printInt (n : ℤ) {rest : List ℕ} (ends : EndsNumber rest) :
    readNumber (printInt n ++ rest) = some ((n : ℚ), rest) := by
  have read := readUnsigned_canonical n.natAbs ends
  unfold printInt
  by_cases negative : n < 0
  · rw [if_pos negative, List.append_assoc, List.singleton_append, readNumber, read]
    have value : -((n.natAbs : ℕ) : ℚ) = n := by
      rw [Nat.cast_natAbs, abs_of_neg negative, Int.cast_neg, neg_neg]
    rw [← value]
    rfl
  · have first : ((Decimal.canonical n.natAbs).map (· + 48) ++ rest).head? ≠ some 45 := by
      obtain ⟨digit, digits, same⟩ := List.exists_cons_of_ne_nil (Decimal.canonical_ne_nil n.natAbs)
      rw [same]
      intro sign
      have equal : digit + 48 = 45 := Option.some.inj sign
      omega
    rw [if_neg negative, List.nil_append, readNumber_unsigned first, read, Nat.cast_natAbs,
      abs_of_nonneg (Int.not_lt.mp negative)]

/-- A number begins with a digit or a sign. -/
theorem printInt_head (n : ℤ) : ∃ char text, printInt n = char :: text ∧
    (char = 45 ∨ 48 ≤ char ∧ char ≤ 57) := by
  unfold printInt
  by_cases negative : n < 0
  · rw [if_pos negative]
    exact ⟨_, _, rfl, Or.inl rfl⟩
  · obtain ⟨digit, digits, same⟩ := List.exists_cons_of_ne_nil (Decimal.canonical_ne_nil n.natAbs)
    have decimal := Decimal.canonical_lt n.natAbs digit (same ▸ List.mem_cons_self)
    rw [if_neg negative, same]
    exact ⟨digit + 48, _, rfl, Or.inr ⟨by omega, by omega⟩⟩

/-! ## Values and members -/

/-- A value with a quote is a string. -/
theorem readValue_quote (n : ℕ) (rest : List ℕ) :
    readValue (n + 1) (34 :: rest) =
      (readString .plain rest).map fun read => (string read.1, read.2) := by
  rw [readValue, skip_other (by decide)]
  dsimp only
  rw [if_pos rfl]
  cases readString .plain rest <;> rfl

/-- A number that is printed is read as a value. -/
theorem readValue_printInt (n : ℕ) (i : ℤ) {rest : List ℕ} (ends : EndsNumber rest) :
    readValue (n + 1) (printInt i ++ rest) = some (number i, rest) := by
  have read := readNumber_printInt i ends
  obtain ⟨char, text, same, first⟩ := printInt_head i
  rw [same, List.cons_append] at read ⊢
  have other : isSpace char = false ∧ char ≠ 34 ∧ char ≠ 91 ∧ char ≠ 123 ∧ char ≠ 110 ∧
      char ≠ 116 ∧ char ≠ 102 := by
    unfold isSpace
    simp only [Bool.or_eq_false_iff, decide_eq_false_iff_not]
    omega
  obtain ⟨space, quote, bracket, brace, null, yes, no⟩ := other
  rw [readValue, skip_other space]
  dsimp only
  rw [if_neg quote, if_neg bracket, if_neg brace, if_neg null, if_neg yes, if_neg no, read]
  rfl

/-- The members of an object, after the brace that begins it. -/
def readObject (n : ℕ) (rest : List ℕ) : Option (List (List ℕ × JsonValue) × List ℕ) :=
  match expect 125 rest with
  | some rest => some ([], rest)
  | none => readMembers n rest

/-- A value with a brace is an object. -/
theorem readValue_brace (n : ℕ) (rest : List ℕ) :
    readValue (n + 1) (123 :: rest) =
      (readObject n rest).map fun read => (object read.1, read.2) := by
  rw [readValue, skip_other (by decide)]
  dsimp only
  rw [if_neg (by decide), if_neg (by decide), if_pos rfl]
  unfold readObject
  cases expect 125 rest with
  | some rest => rfl
  | none =>
      dsimp only
      cases readMembers n rest <;> rfl

/-- A value with a bracket is an array. -/
theorem readValue_bracket (n : ℕ) {rest : List ℕ} (filled : expect 93 rest = none) :
    readValue (n + 1) (91 :: rest) =
      (readItems n rest).map fun read => (array read.1, read.2) := by
  rw [readValue, skip_other (by decide)]
  dsimp only
  rw [if_neg (by decide), if_pos rfl, filled]
  dsimp only
  cases readItems n rest <;> rfl

/-- An array of one value. -/
theorem readItems_single {n : ℕ} {text rest after : List ℕ} {value : JsonValue}
    (read : readValue n text = some (value, rest)) (comma : expect 44 rest = none)
    (closed : expect 93 rest = some after) : readItems (n + 1) text = some ([value], after) := by
  rw [readItems, read]
  dsimp only [bind, Option.bind]
  rw [comma]
  dsimp only
  rw [closed]
  rfl

/-- The first of some values. -/
theorem readItems_first {n : ℕ} {text after : List ℕ} {value : JsonValue} {values : List JsonValue}
    (read : readItems (n + 1) text = some (value :: values, after)) :
    ∃ rest, readValue n text = some (value, rest) := by
  rw [readItems] at read
  obtain ⟨⟨first, rest⟩, here, read⟩ := Option.bind_eq_some_iff.mp read
  dsimp only at read
  cases comma : expect 44 rest with
  | some later =>
      rw [comma] at read
      obtain ⟨⟨others, _⟩, _, ended⟩ := Option.bind_eq_some_iff.mp read
      cases ended
      exact ⟨rest, here⟩
  | none =>
      rw [comma] at read
      obtain ⟨_, _, ended⟩ := Option.bind_eq_some_iff.mp read
      cases ended
      exact ⟨rest, here⟩

/-- What is read after a member. -/
def afterMember (n : ℕ) (name : List ℕ) (value : JsonValue) (rest : List ℕ) :
    Option (List (List ℕ × JsonValue) × List ℕ) :=
  match expect 44 rest with
  | some rest => (readMembers n rest).map fun read => ((name, value) :: read.1, read.2)
  | none => (expect 125 rest).map fun rest => ([(name, value)], rest)

/-- A member with a name that needs no escape. -/
theorem readMembers_member (n : ℕ) {name : List ℕ} (plain : Plain name) (rest : List ℕ) :
    readMembers (n + 1) (34 :: (name ++ 34 :: 32 :: 58 :: rest)) =
      (readValue n rest).bind fun read => afterMember n name read.1 read.2 := by
  rw [readMembers, expect_same (by decide)]
  dsimp only [bind, Option.bind]
  rw [readString_plain plain]
  dsimp only
  rw [expect_space (by decide), expect_same (by decide)]
  dsimp only
  cases readValue n rest with
  | none => rfl
  | some read =>
      unfold afterMember
      dsimp only
      cases expect 44 read.2 with
      | none => cases expect 125 read.2 <;> rfl
      | some rest =>
          dsimp only
          cases readMembers n rest <;> rfl

/-- Behind a comma comes another member. -/
theorem afterMember_comma (n : ℕ) (name : List ℕ) (value : JsonValue) (rest : List ℕ) :
    afterMember n name value (44 :: rest) =
      (readMembers n rest).map fun read => ((name, value) :: read.1, read.2) := by
  rw [afterMember, expect_same (by decide)]

/-- A brace on the next line ends the object. -/
theorem afterMember_brace (n : ℕ) (name : List ℕ) (value : JsonValue) (rest : List ℕ) :
    afterMember n name value (10 :: 125 :: rest) = some ([(name, value)], rest) := by
  rw [afterMember, expect_space (by decide), expect_other (by decide) (by decide),
    expect_space (by decide), expect_same (by decide)]
  rfl

/-- The member that was read comes first. -/
theorem afterMember_first {n : ℕ} {name : List ℕ} {value : JsonValue} {rest left : List ℕ}
    {members : List (List ℕ × JsonValue)}
    (read : afterMember n name value rest = some (members, left)) :
    ∃ more, members = (name, value) :: more := by
  unfold afterMember at read
  split at read
  · obtain ⟨_, _, ended⟩ := Option.map_eq_some_iff.mp read
    cases ended
    exact ⟨_, rfl⟩
  · obtain ⟨_, _, ended⟩ := Option.map_eq_some_iff.mp read
    cases ended
    exact ⟨_, rfl⟩

/-- The name of the first member. -/
theorem readMembers_quote {n : ℕ} {text left : List ℕ} {name : List ℕ} {value : JsonValue}
    {members : List (List ℕ × JsonValue)}
    (read : readMembers n (34 :: text) = some ((name, value) :: members, left)) :
    ∃ rest, readString .plain text = some (name, rest) := by
  cases n with
  | zero => cases read
  | succ n =>
      rw [readMembers, expect_same rfl] at read
      obtain ⟨_, begun, read⟩ := Option.bind_eq_some_iff.mp read
      cases begun
      obtain ⟨⟨name', rest⟩, word, read⟩ := Option.bind_eq_some_iff.mp read
      obtain ⟨rest', _, read⟩ := Option.bind_eq_some_iff.mp read
      obtain ⟨⟨value', after⟩, _, read⟩ := Option.bind_eq_some_iff.mp read
      dsimp only at read
      split at read
      · obtain ⟨_, _, ended⟩ := Option.bind_eq_some_iff.mp read
        cases ended
        exact ⟨rest, word⟩
      · obtain ⟨_, _, ended⟩ := Option.bind_eq_some_iff.mp read
        cases ended
        exact ⟨rest, word⟩

end JsonValue
