import Pqfh.Api.Copybook
import Pqfh.Handler.Texts

/-! # Copybooks

What `load_cpy` reads in a copybook: the root in the first line, from the eighth character on, and
one field for each line with a level 03.
-/

namespace Pqfh

/-- A character of a line: not the end of the line and not a NUL. -/
def InLine (byte : Byte) : Prop := byte ≠ 0 ∧ byte ≠ 10

instance (byte : Byte) : Decidable (InLine byte) := inferInstanceAs (Decidable (_ ∧ _))

/-- A character of a COBOL word. -/
def IsWord (byte : Byte) : Prop :=
  48 ≤ byte.val ∧ byte.val ≤ 57 ∨ 65 ≤ byte.val ∧ byte.val ≤ 90 ∨ 97 ≤ byte.val ∧ byte.val ≤ 122 ∨
    byte.val = 45

instance (byte : Byte) : Decidable (IsWord byte) := inferInstanceAs (Decidable (_ ∨ _))

/-- The letter of a picture. -/
def ApiType.letter : ApiType → Byte
  | .text => 120
  | .integer => 57

/-- A line with a level 03: the level, the name and the picture, which has the only parenthesis. The
length in it may have leading zeros. -/
structure CpyField where
  indent : ℕ
  blanks : ℕ
  column : ApiColumn
  digits : List ℕ
  gap : List Byte
  tail : List Byte
  named : column.name ≠ []
  word : ∀ byte ∈ column.name, IsWord byte
  short : column.name.length ≤ maxNameLen
  decimal : ∀ digit ∈ digits, digit < 10
  filled : digits ≠ []
  counts : Decimal.value digits = column.len
  clear : ∀ byte ∈ gap, InLine byte ∧ byte ≠ 40
  blank : gap.getLast? = some 32
  ended : ∀ byte ∈ tail, byte = 46 ∨ byte = 32 ∨ byte = 13
  fits : indent + blanks + column.name.length + gap.length +
    digits.length + tail.length + 7 < maxColLen

/-- The length in the picture and what follows it. -/
def CpyField.size (line : CpyField) : List Byte :=
  line.digits.map digitByte ++ 41 :: line.tail

/-- The text of a line with a level 03. -/
def CpyField.text (line : CpyField) : List Byte :=
  List.replicate line.indent 32 ++ 48 :: ([51, 32] ++ (List.replicate line.blanks 32 ++
    (line.column.name ++ 32 :: (line.gap ++ line.column.tp.letter :: 40 :: line.size))))

/-- A line of a copybook. -/
inductive CpyLine where
  | field (line : CpyField)
  | other (text : List Byte) (inLine : ∀ byte ∈ text, InLine byte) (fits : text.length < maxColLen)
    (level : strstr [48, 51, 32] (text ++ [10]) = none)

def CpyLine.text : CpyLine → List Byte
  | .field line => line.text
  | .other text _ _ _ => text

def CpyLine.column : CpyLine → Option ApiColumn
  | .field line => some line.column
  | .other _ _ _ _ => none

/-- A copybook. Seven characters come before the root, and no two fields have one name. -/
structure Copybook where
  label : List Byte
  root : List Byte
  lines : List CpyLine
  seven : label.length = 7
  clear : ∀ byte ∈ label ++ root, InLine byte ∧ byte ≠ 13
  short : root.length ≤ maxNameLen
  apart : ((lines.filterMap CpyLine.column).map ApiColumn.name).Nodup

def Copybook.fields (cpy : Copybook) : List ApiColumn := cpy.lines.filterMap CpyLine.column

/-- The lines of a copybook after the first. -/
def linesText (lines : List CpyLine) : List Byte := lines.flatMap fun line => line.text ++ [10]

def Copybook.text (cpy : Copybook) : List Byte :=
  cpy.label ++ cpy.root ++ 10 :: linesText cpy.lines

/-! ## Searching -/

/-- A byte that does not begin the pattern is passed over. -/
theorem strstr_head {pattern text : List Byte} {byte : Byte}
    (other : pattern.isPrefixOf (byte :: text) = false) :
    strstr pattern (byte :: text) =
      (strstr pattern text).map fun parts => (byte :: parts.1, parts.2) := by
  rw [strstr, other, if_neg Bool.false_ne_true]

/-- A pattern that stands at the front is found there. -/
theorem strstr_here {pattern : List Byte} (first : Byte) (text : List Byte) :
    strstr (first :: pattern) (first :: (pattern ++ text)) = some ([], text) := by
  have here : (first :: pattern).isPrefixOf (first :: (pattern ++ text)) = true :=
    List.isPrefixOf_iff_prefix.mpr ⟨text, rfl⟩
  rw [strstr, if_pos here, List.length_cons, List.drop_succ_cons, List.drop_left]

/-- A text that begins with bytes of which none begins the pattern. -/
theorem strstr_skip {first : Byte} {pattern : List Byte} {front : List Byte}
    (other : ∀ byte ∈ front, byte ≠ first) (text : List Byte) :
    strstr (first :: pattern) (front ++ text) =
      (strstr (first :: pattern) text).map fun parts => (front ++ parts.1, parts.2) := by
  induction front with
  | nil =>
      rw [List.nil_append]
      cases strstr (first :: pattern) text <;> rfl
  | cons byte front ih =>
      obtain ⟨here, later⟩ := List.forall_mem_cons.mp other
      have different : (first :: pattern).isPrefixOf (byte :: (front ++ text)) = false := by
        rw [List.isPrefixOf, beq_eq_false_iff_ne.mpr here.symm, Bool.false_and]
      rw [List.cons_append, strstr_head different, ih later, Option.map_map]
      rfl

/-- A text that begins with bytes of which none goes on with the pattern. -/
theorem strstr_skip_second {first second : Byte} {front : List Byte}
    (other : ∀ byte ∈ front, byte ≠ second) {next : Byte} (next_other : next ≠ second)
    (text : List Byte) :
    strstr [first, second] (front ++ next :: text) =
      (strstr [first, second] (next :: text)).map fun parts => (front ++ parts.1, parts.2) := by
  induction front with
  | nil =>
      rw [List.nil_append]
      cases strstr [first, second] (next :: text) <;> rfl
  | cons byte front ih =>
      obtain ⟨_, later⟩ := List.forall_mem_cons.mp other
      have different : [first, second].isPrefixOf (byte :: (front ++ next :: text)) = false := by
        have after : [second].isPrefixOf (front ++ next :: text) = false := by
          cases front with
          | nil =>
              rw [List.nil_append, List.isPrefixOf, beq_eq_false_iff_ne.mpr next_other.symm,
                Bool.false_and]
          | cons following front =>
              rw [List.cons_append, List.isPrefixOf,
                beq_eq_false_iff_ne.mpr (later following List.mem_cons_self).symm, Bool.false_and]
        rw [List.isPrefixOf, after, Bool.and_false]
      rw [List.cons_append, strstr_head different, ih later, Option.map_map]
      rfl

/-- A pattern of two bytes is not found where the second one is missing. -/
theorem strstr_second_none {first second : Byte} {text : List Byte}
    (other : ∀ byte ∈ text, byte ≠ second) : strstr [first, second] text = none := by
  induction text with
  | nil => rfl
  | cons byte text ih =>
      obtain ⟨_, later⟩ := List.forall_mem_cons.mp other
      have after : [second].isPrefixOf text = false := by
        cases text with
        | nil => rfl
        | cons next text =>
            rw [List.isPrefixOf, beq_eq_false_iff_ne.mpr (later next List.mem_cons_self).symm,
              Bool.false_and]
      have different : [first, second].isPrefixOf (byte :: text) = false := by
        rw [List.isPrefixOf, after, Bool.and_false]
      rw [strstr_head different, ih later]
      rfl

/-! ## Lines -/

/-- A line that fits the buffer is read with its end. -/
theorem fgets_line {line : List Byte} (inLine : ∀ byte ∈ line, InLine byte)
    (fits : line.length < maxColLen) (rest : List Byte) :
    fgets (line ++ 10 :: rest) = some (line ++ [10], rest) := by
  have all : ∀ byte ∈ line, decide (byte ≠ 10) = true :=
    fun byte member => decide_eq_true (inLine byte member).2
  obtain ⟨room, enough⟩ : ∃ room, maxColLen - line.length = room + 1 :=
    Nat.exists_eq_succ_of_ne_zero (Nat.sub_ne_zero_of_lt fits)
  have front : (line ++ 10 :: rest).take maxColLen = line ++ 10 :: rest.take room := by
    rw [List.take_append, List.take_of_length_le fits.le, enough, List.take_succ_cons]
  have ends : ((10 : Byte) :: rest.take room).takeWhile (· ≠ 10) = [] :=
    List.takeWhile_cons_of_neg (by rw [decide_eq_true_eq]; exact not_not_intro rfl)
  unfold fgets
  rw [if_neg (List.append_ne_nil_of_right_ne_nil _ (List.cons_ne_nil _ _)), front]
  dsimp only
  rw [List.takeWhile_append_of_pos all, ends, List.append_nil, Nat.min_eq_left fits,
    List.take_append, List.take_of_length_le (Nat.le_succ _), List.drop_append,
    List.drop_eq_nil_of_le (Nat.le_succ _), Nat.add_sub_cancel_left]
  rfl

/-- A text that is not empty and ends with a line feed is read in as many turns as it has lines. -/
theorem fgetsAll_lines {lines : List (List Byte)}
    (inLine : ∀ line ∈ lines, (∀ byte ∈ line, InLine byte) ∧ line.length < maxColLen) :
    ∀ {n : ℕ}, lines.length ≤ n →
      fgetsAll n (lines.flatMap fun line => line ++ [10]) = lines.map fun line => line ++ [10] := by
  induction lines with
  | nil =>
      intro n _
      cases n <;> rfl
  | cons line lines ih =>
      intro n enough
      obtain ⟨⟨here, fits⟩, later⟩ := List.forall_mem_cons.mp inLine
      obtain ⟨n, rfl⟩ := Nat.exists_eq_succ_of_ne_zero (Nat.ne_of_gt (Nat.lt_of_lt_of_le
        (Nat.succ_pos _) enough))
      have clean : 0 ∉ line ++ [10] := by
        intro member
        rcases List.mem_append.mp member with member | member
        · exact (here 0 member).1 rfl
        · exact absurd (List.mem_singleton.mp member) (by decide)
      rw [List.flatMap_cons, List.append_assoc, List.singleton_append, fgetsAll,
        fgets_line here fits, List.map_cons]
      dsimp only
      rw [cstr_eq_self clean, ih later (Nat.le_of_succ_le_succ enough)]

/-! ## A field -/

/-- The bytes of a name can be seen. -/
theorem IsWord.visible {byte : Byte} (word : IsWord byte) : 32 < byte.val ∧ byte.val < 127 := by
  unfold IsWord at word
  omega

/-- A name has no blank in it. -/
theorem IsWord.ne_blank {byte : Byte} (word : IsWord byte) : byte ≠ 32 := by
  rintro rfl
  exact absurd word.visible.1 (lt_irrefl 32)

/-- Digits are read as the number they stand for. -/
theorem atoi_digits {digits : List ℕ} (decimal : ∀ digit ∈ digits, digit < 10)
    (some : digits ≠ []) : atoi (digits.map digitByte) = Decimal.value digits := by
  have all := all_isDigit decimal
  have read : textDigits (digits.map digitByte) = digits := textDigits_map_digitByte decimal
  obtain ⟨first, rest, same⟩ := List.exists_cons_of_ne_nil (mt List.map_eq_nil_iff.mp some)
  rw [same] at all read ⊢
  have digit := isDigit_iff.mp (all first List.mem_cons_self)
  have other : ∀ byte : Byte, byte.val < 48 → first ≠ byte := by
    rintro byte below rfl
    exact absurd digit.1 (Nat.not_le.mpr below)
  have visible : ¬ (first = 32 ∨ 9 ≤ first ∧ first ≤ 13) := by
    rintro (blank | ⟨_, below⟩)
    · exact other 32 (by decide) blank
    · exact absurd (digit.1.trans (Fin.le_def.mp below)) (by decide)
  unfold atoi
  rw [List.dropWhile_cons_of_neg (by rwa [decide_eq_true_eq])]
  dsimp only
  rw [if_neg (other 45 (by decide)), if_neg (other 43 (by decide)),
    List.takeWhile_eq_self_iff.mpr all, read]

/-- The length of a picture is the number between its parentheses, whatever zeros lead it. -/
theorem pictureLength_size (line : CpyField) (rest : List Byte) :
    pictureLength (line.size ++ rest) = .ok line.column.len := by
  have front : (line.size ++ rest).takeWhile (· ≠ 41) =
      line.digits.map digitByte := by
    unfold CpyField.size
    rw [List.append_assoc, List.takeWhile_append_of_pos, List.cons_append,
      List.takeWhile_cons_of_neg (by rw [decide_eq_true_eq]; exact not_not_intro rfl),
      List.append_nil]
    intro byte member
    apply decide_eq_true
    rintro rfl
    exact absurd (all_isDigit line.decimal 41 member) (by decide)
  have closed : 41 ∈ line.size ++ rest :=
    List.mem_append_left _ (List.mem_append_right _ List.mem_cons_self)
  unfold pictureLength
  rw [if_pos closed]
  dsimp only
  rw [front, atoi_digits line.decimal line.filled, line.counts,
    if_neg (Int.not_lt.mpr (Int.natCast_nonneg _)), Int.toNat_natCast]

/-- No parenthesis is opened behind the first. -/
theorem CpyField.size_ne_open (line : CpyField) : ∀ byte ∈ line.size ++ [10], byte ≠ 40 := by
  intro byte member
  rcases List.mem_append.mp member with member | member
  · rcases List.mem_append.mp member with member | member
    · rintro rfl
      exact absurd (all_isDigit line.decimal 40 member) (by decide)
    · rcases List.mem_cons.mp member with rfl | member
      · decide
      · rcases line.ended byte member with rfl | rfl | rfl <;> decide
  · rw [List.mem_singleton.mp member]
    decide

/-- What follows the name of a field, to the end of the line. -/
def CpyField.picture (line : CpyField) : List Byte :=
  line.gap ++ line.column.tp.letter :: 40 :: (line.size ++ [10])

/-- A line of a field is its level, its name and its picture, with the blanks between them. -/
theorem CpyField.text_line (line : CpyField) :
    line.text ++ [10] = List.replicate line.indent 32 ++ 48 :: ([51, 32] ++
      (List.replicate line.blanks 32 ++ (line.column.name ++ 32 :: line.picture))) := by
  unfold CpyField.text CpyField.picture
  simp only [List.append_assoc, List.cons_append]

/-- The picture of a text opens with `x(`. -/
theorem CpyField.picture_text {line : CpyField} (text : line.column.tp = .text) :
    strstr [120, 40] line.picture = some (line.gap, line.size ++ [10]) := by
  have gap : ∀ byte ∈ line.gap, byte ≠ 40 := fun byte member => (line.clear byte member).2
  have here : strstr [120, 40] (120 :: 40 :: (line.size ++ [10])) = some ([], line.size ++ [10]) :=
    strstr_here 120 _
  unfold CpyField.picture
  rw [text, ApiType.letter, strstr_skip_second gap (by decide), here, Option.map_some,
    List.append_nil]

/-- The picture of a number opens with `9(`, and has no `x(`. -/
theorem CpyField.picture_integer {line : CpyField} (integer : line.column.tp = .integer) :
    strstr [120, 40] line.picture = none ∧
      strstr [57, 40] line.picture = some (line.gap, line.size ++ [10]) := by
  have gap : ∀ byte ∈ line.gap, byte ≠ 40 := fun byte member => (line.clear byte member).2
  have here : strstr [57, 40] (57 :: 40 :: (line.size ++ [10])) = some ([], line.size ++ [10]) :=
    strstr_here 57 _
  have other : strstr [120, 40] (57 :: 40 :: (line.size ++ [10])) = none := by
    rw [strstr_head rfl, strstr_head rfl, strstr_second_none line.size_ne_open]
    rfl
  unfold CpyField.picture
  rw [integer, ApiType.letter, strstr_skip_second gap (by decide), other,
    strstr_skip_second gap (by decide), here, Option.map_some, List.append_nil]
  exact ⟨rfl, rfl⟩

/-- The line of a field gives its column. -/
theorem loadColumn_field (line : CpyField) :
    loadColumn (line.text ++ [10]) = .ok (some line.column) := by
  have indent : ∀ byte ∈ List.replicate line.indent (32 : Byte), byte ≠ 48 := by
    intro byte member
    rw [List.eq_of_mem_replicate member]
    decide
  have blank : ∀ byte ∈ List.replicate line.blanks (32 : Byte), decide (byte = 32) = true :=
    fun byte member => decide_eq_true (List.eq_of_mem_replicate member)
  have name : ∀ byte ∈ line.column.name, decide (byte ≠ 32) = true :=
    fun byte member => decide_eq_true (line.word byte member).ne_blank
  have first : (line.column.name ++ 32 :: line.picture).dropWhile (· = 32) =
      line.column.name ++ 32 :: line.picture := by
    obtain ⟨first, rest, named⟩ := List.exists_cons_of_ne_nil line.named
    have here := (line.word first (named ▸ List.mem_cons_self)).ne_blank
    rw [named, List.cons_append, List.dropWhile_cons_of_neg (by rwa [decide_eq_true_eq])]
  have stop : ∀ rest : List Byte, ((32 : Byte) :: rest).takeWhile (· ≠ 32) = [] ∧
      ((32 : Byte) :: rest).dropWhile (· ≠ 32) = 32 :: rest := fun rest => ⟨rfl, rfl⟩
  unfold loadColumn
  rw [line.text_line, strstr_skip indent, strstr_here, Option.map_some]
  dsimp only
  rw [List.dropWhile_append_of_pos blank, first,
    if_neg (not_not_intro (List.mem_append_right _ List.mem_cons_self)),
    List.takeWhile_append_of_pos name, List.dropWhile_append_of_pos name,
    (stop _).1, (stop _).2, List.append_nil, if_neg (Nat.not_lt.mpr line.short), List.drop_one,
    List.tail_cons]
  cases tp : line.column.tp with
  | text =>
      rw [CpyField.picture_text tp]
      dsimp only
      rw [pictureLength_size, ← tp]
      rfl
  | integer =>
      obtain ⟨none, found⟩ := CpyField.picture_integer tp
      rw [none, found]
      dsimp only
      rw [pictureLength_size, ← tp]
      rfl

/-! ## A copybook -/

/-- The text of a field ends no line. -/
theorem CpyField.inLine (line : CpyField) : ∀ byte ∈ line.text, InLine byte := by
  have letter : InLine line.column.tp.letter := by
    cases line.column.tp <;> exact ⟨by decide, by decide⟩
  have blanks : ∀ n, ∀ byte ∈ List.replicate n (32 : Byte), InLine byte := by
    intro n byte member
    rw [List.eq_of_mem_replicate member]
    exact ⟨by decide, by decide⟩
  have word : ∀ byte ∈ line.column.name, InLine byte := by
    intro byte member
    have visible := (line.word byte member).visible.1
    constructor <;> rintro rfl <;> exact absurd visible (by decide)
  have size : ∀ byte ∈ line.size, InLine byte := by
    intro byte member
    rcases List.mem_append.mp member with member | member
    · have digit := (isDigit_iff.mp (all_isDigit line.decimal byte member)).1
      constructor <;> rintro rfl <;> exact absurd digit (by decide)
    · rcases List.mem_cons.mp member with rfl | member
      · exact ⟨by decide, by decide⟩
      · rcases line.ended byte member with rfl | rfl | rfl <;> exact ⟨by decide, by decide⟩
  unfold CpyField.text
  simp only [List.forall_mem_append, List.forall_mem_cons]
  exact ⟨blanks _, ⟨by decide, by decide⟩, ⟨⟨by decide, by decide⟩, ⟨by decide, by decide⟩,
    List.forall_mem_nil _⟩, blanks _, word, ⟨by decide, by decide⟩,
    fun byte member => (line.clear byte member).1, letter, ⟨by decide, by decide⟩, size⟩

/-- No text of a line ends it, and it fits the buffer. -/
theorem CpyLine.inLine (line : CpyLine) :
    (∀ byte ∈ line.text, InLine byte) ∧ line.text.length < maxColLen := by
  cases line with
  | other text inLine fits _ => exact ⟨inLine, fits⟩
  | field line =>
      refine ⟨line.inLine, ?_⟩
      have fits := line.fits
      unfold CpyLine.text
      dsimp only
      unfold CpyField.text CpyField.size
      simp only [List.length_append, List.length_cons, List.length_replicate, List.length_map,
        List.length_nil]
      omega

/-- The lines give the columns of the fields, in their order. -/
theorem loadColumns_lines (lines : List CpyLine) :
    loadColumns ((lines.map CpyLine.text).map fun line => line ++ [10]) =
      .ok (lines.filterMap CpyLine.column) := by
  induction lines with
  | nil => rfl
  | cons line lines ih =>
      have here : loadColumn (line.text ++ [10]) = .ok line.column := by
        cases line with
        | field line => exact loadColumn_field line
        | other text _ _ level =>
            unfold loadColumn CpyLine.text
            rw [level]
            rfl
      rw [List.map_cons, List.map_cons, loadColumns, here, ih]
      cases column : line.column with
      | none =>
          rw [List.filterMap_cons_none column]
          rfl
      | some found =>
          rw [List.filterMap_cons_some column]
          rfl

/-- A file is its lines, each with its end. -/
theorem linesText_eq (lines : List CpyLine) :
    linesText lines = (lines.map CpyLine.text).flatMap fun line => line ++ [10] := by
  rw [List.flatMap_map]
  rfl

/-- Each line has a byte at least. -/
theorem length_le_linesText (lines : List CpyLine) : lines.length ≤ (linesText lines).length := by
  unfold linesText
  induction lines with
  | nil => exact le_rfl
  | cons line lines ih =>
      rw [List.flatMap_cons, List.length_append, List.length_append, List.length_cons,
        List.length_singleton]
      omega

/-- A copybook adds its fields to the columns. -/
theorem loadCpy_text (cpy : Copybook) (tab : ApiTable) :
    loadCpy (some cpy.text) tab = .ok ⟨cpy.root, tab.columns ++ cpy.fields⟩ := by
  have length : (cpy.label ++ cpy.root).length = 7 + cpy.root.length := by
    rw [List.length_append, cpy.seven]
  have short := cpy.short
  have inLine : ∀ byte ∈ cpy.label ++ cpy.root, InLine byte :=
    fun byte member => (cpy.clear byte member).1
  have fits : (cpy.label ++ cpy.root).length < maxColLen := by
    rw [length]
    unfold maxColLen maxNameLen at *
    omega
  have first : fgets cpy.text = some (cpy.label ++ cpy.root ++ [10], linesText cpy.lines) :=
    fgets_line inLine fits _
  have buf : (cstr (cpy.label ++ cpy.root ++ [10])).takeWhile
      (fun byte => byte ≠ 13 ∧ byte ≠ 10) = cpy.label ++ cpy.root := by
    have clean : 0 ∉ cpy.label ++ cpy.root ++ [10] := by
      intro member
      rcases List.mem_append.mp member with member | member
      · exact (inLine 0 member).1 rfl
      · exact absurd (List.mem_singleton.mp member) (by decide)
    rw [cstr_eq_self clean, List.takeWhile_append_of_pos]
    · exact List.append_nil _
    · intro byte member
      exact decide_eq_true ⟨(cpy.clear byte member).2, (inLine byte member).2⟩
  have lines : fgetsAll (linesText cpy.lines).length (linesText cpy.lines) =
      (cpy.lines.map CpyLine.text).map fun line => line ++ [10] := by
    have enough := length_le_linesText cpy.lines
    rw [← List.length_map CpyLine.text] at enough
    conv_lhs => rw [linesText_eq]
    apply fgetsAll_lines
    · intro text member
      obtain ⟨line, _, rfl⟩ := List.mem_map.mp member
      exact line.inLine
    · rwa [← linesText_eq]
  unfold loadCpy
  dsimp only
  rw [first]
  dsimp only
  rw [buf, if_neg (by omega), lines, loadColumns_lines, List.drop_left' cpy.seven]
  rfl

end Pqfh
