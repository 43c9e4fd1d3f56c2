import Mathlib.Data.Fin.Basic
import Pqfh.Foundation.Decimal

/-! # Formatted output

The part of `sprintf` that writes integers and texts: `%d` and `%s` with the flags `-` and `0` and a
width, and `%%`. A format may be a text made at run time, so it is read one character at a time, and
what a digit means depends on what was read before it: a `0` is a flag until the width has begun.

`Printf.render_number` reads a number that was written into a format: zero is a flag, any other
number the width.
-/

namespace Printf

/-- What the literals of characters rest on. -/
local instance characterNeZero : NeZero 256 := ⟨by decide⟩

/-- What is written for a conversion. -/
inductive Arg where
  | int (n : ℤ)
  | str (text : List (Fin 256))

/-- What of a conversion was read. -/
inductive Mode where
  /-- Outside a conversion. -/
  | text
  /-- After the percent sign and some flags. -/
  | flags (left zero : Bool)
  /-- In the digits of the width. -/
  | width (left zero : Bool) (width : ℕ)

/-- The character of a decimal digit. -/
def digit (d : ℕ) : Fin 256 := Fin.ofNat 256 (48 + d)

/-- The digits of a number. -/
def digits (n : ℕ) : List (Fin 256) := (Decimal.canonical n).map digit

/-- A text filled to a width with blanks, on the right or on the left. -/
def fill (left : Bool) (width : ℕ) (text : List (Fin 256)) : List (Fin 256) :=
  if left then text ++ List.replicate (width - text.length) 32
  else List.replicate (width - text.length) 32 ++ text

/-- An integer filled to a width: with zeros after the sign, unless it is to stand on the left. -/
def fillInt (left zero : Bool) (width : ℕ) (n : ℤ) : List (Fin 256) :=
  let sign := if n < 0 then [45] else []
  let number := digits n.natAbs
  if zero && !left then sign ++ List.replicate (width - (sign ++ number).length) 48 ++ number
  else fill left width (sign ++ number)

/-- What a conversion writes, and the arguments that are left. `none` when the argument is missing
or of the other kind. -/
def convert (left zero : Bool) (width : ℕ) (conversion : Fin 256) :
    List Arg → Option (List (Fin 256) × List Arg)
  | .int n :: args => if conversion = 100 then some (fillInt left zero width n, args) else none
  | .str text :: args => if conversion = 115 then some (fill left width text, args) else none
  | [] => none

/-- The text that a format makes of arguments. `none` where C leaves the behaviour undefined. -/
def render : Mode → List (Fin 256) → List Arg → Option (List (Fin 256))
  | .text, [], _ => some []
  | _, [], _ => none
  | .text, c :: format, args =>
      if c = 37 then render (.flags false false) format args
      else (render .text format args).map (c :: ·)
  | .flags left zero, c :: format, args =>
      if c = 45 then render (.flags true zero) format args
      else if c = 48 then render (.flags left true) format args
      else if 48 < c ∧ c ≤ 57 then render (.width left zero (c.val - 48)) format args
      else if c = 37 then (render .text format args).map (c :: ·)
      else
        match convert left zero 0 c args with
        | none => none
        | some (text, args) => (render .text format args).map (text ++ ·)
  | .width left zero width, c :: format, args =>
      if 48 ≤ c ∧ c ≤ 57 then render (.width left zero (width * 10 + (c.val - 48))) format args
      else
        match convert left zero width c args with
        | none => none
        | some (text, args) => (render .text format args).map (text ++ ·)

/-! ## Numbers in a format -/

/-- The byte of a digit is numbered from that of zero. -/
theorem val_digit {d : ℕ} (decimal : d < 10) : (digit d).val = 48 + d := by
  unfold digit
  exact Nat.mod_eq_of_lt (by omega)

/-- The digits of a width that has begun. -/
theorem render_digits (left zero : Bool) (format : List (Fin 256)) (args : List Arg) :
    ∀ (number : List ℕ) (width : ℕ), (∀ d ∈ number, d < 10) →
      render (.width left zero width) (number.map digit ++ format) args =
        render (.width left zero (width * 10 ^ number.length + Decimal.value number))
          format args := by
  intro number
  induction number with
  | nil => intro width _; simp
  | cons d number ih =>
      intro width decimal
      have small := decimal d List.mem_cons_self
      have value := val_digit small
      have here : (48 : Fin 256) ≤ digit d ∧ digit d ≤ 57 := by
        rw [Fin.le_def, Fin.le_def, value]
        exact ⟨Nat.le_add_right 48 d, Nat.add_le_add_left (Nat.le_of_lt_succ small) 48⟩
      rw [List.map_cons, List.cons_append, render, if_pos here,
        ih _ fun d member => decimal d (List.mem_cons_of_mem _ member), value, Decimal.value_cons,
        List.length_cons]
      congr 2
      rw [Nat.add_sub_cancel_left]
      ring

/-- The first digit of a number that is not zero is not zero. -/
theorem exists_canonical_eq {n : ℕ} (positive : 0 < n) :
    ∃ first rest, Decimal.canonical n = first :: rest ∧ first ≠ 0 := by
  have nonempty : Nat.digits 10 n ≠ [] := Nat.digits_ne_nil_iff_ne_zero.mpr positive.ne'
  refine ⟨(Nat.digits 10 n).getLast nonempty, (Nat.digits 10 n).dropLast.reverse, ?_,
    Nat.getLast_digit_ne_zero 10 positive.ne'⟩
  rw [Decimal.canonical, if_neg positive.ne']
  conv_lhs => rw [← List.dropLast_append_getLast nonempty]
  rw [List.reverse_append, List.reverse_singleton, List.singleton_append]

/-- A number that was written into a format after flags: zero is one more flag. -/
theorem render_number (left zero : Bool) (n : ℕ) (format : List (Fin 256)) (args : List Arg) :
    render (.flags left zero) (digits n ++ format) args =
      if n = 0 then render (.flags left true) format args
      else render (.width left zero n) format args := by
  by_cases none : n = 0
  · subst none
    rfl
  · obtain ⟨first, rest, shape, leading⟩ := exists_canonical_eq (Nat.pos_of_ne_zero none)
    have decimal := Decimal.canonical_lt n
    rw [shape] at decimal
    have small := decimal first List.mem_cons_self
    have value := val_digit small
    have here : (48 : Fin 256) < digit first ∧ digit first ≤ 57 := by
      rw [Fin.lt_def, Fin.le_def, value]
      exact ⟨Nat.lt_add_of_pos_right (Nat.pos_of_ne_zero leading),
        Nat.add_le_add_left (Nat.le_of_lt_succ small) 48⟩
    have dash : digit first ≠ 45 := by
      intro same
      rw [same] at here
      exact absurd here.1 (by decide)
    have flag : digit first ≠ 48 := here.1.ne'
    have whole : first * 10 ^ rest.length + Decimal.value rest = n := by
      rw [← Decimal.value_cons, ← shape, Decimal.value_canonical]
    rw [if_neg none, digits, shape, List.map_cons, List.cons_append, render, if_neg dash,
      if_neg flag, if_pos here, value, Nat.add_sub_cancel_left,
      render_digits _ _ _ _ rest _ fun d member => decimal d (List.mem_cons_of_mem _ member), whole]

/-- A number has no more digits than a width exactly below its power of ten. -/
theorem length_digits_le_iff {n width : ℕ} (room : 0 < width) :
    (digits n).length ≤ width ↔ n < 10 ^ width := by
  rw [digits, List.length_map]
  constructor
  · intro short
    calc n = Decimal.value (Decimal.canonical n) := (Decimal.value_canonical n).symm
      _ < 10 ^ (Decimal.canonical n).length := Decimal.value_lt (Decimal.canonical_lt n)
      _ ≤ 10 ^ width := Nat.pow_le_pow_right (by decide) short
  · exact Decimal.length_canonical_le room

/-! ## Conversions -/

/-- A percent begins a conversion. -/
@[simp] theorem render_percent (format : List (Fin 256)) (args : List Arg) :
    render .text (37 :: format) args = render (.flags false false) format args := rfl

/-- Nothing is rendered as nothing. -/
@[simp] theorem render_nil (args : List Arg) : render .text [] args = some [] := rfl

/-- A character that is no percent is rendered as it is. -/
theorem render_literal {c : Fin 256} (literal : c ≠ 37) (format : List (Fin 256))
    (args : List Arg) :
    render .text (c :: format) args = (render .text format args).map (c :: ·) := by
  rw [render, if_neg literal]

/-- Two percents are rendered as one. -/
@[simp] theorem render_escaped (left zero : Bool) (format : List (Fin 256)) (args : List Arg) :
    render (.flags left zero) (37 :: format) args =
      (render .text format args).map (37 :: ·) := rfl

/-- A minus asks for the left. -/
@[simp] theorem render_minus (left zero : Bool) (format : List (Fin 256)) (args : List Arg) :
    render (.flags left zero) (45 :: format) args = render (.flags true zero) format args := rfl

/-- A zero asks for zeros. -/
@[simp] theorem render_zero (left zero : Bool) (format : List (Fin 256)) (args : List Arg) :
    render (.flags left zero) (48 :: format) args = render (.flags left true) format args := rfl

/-- A number without width is rendered at its own. -/
@[simp] theorem render_flags_int (left zero : Bool) (n : ℤ) (format : List (Fin 256))
    (args : List Arg) : render (.flags left zero) (100 :: format) (.int n :: args) =
      (render .text format args).map (fillInt left zero 0 n ++ ·) := rfl

/-- A number is rendered at its width. -/
@[simp] theorem render_width_int (left zero : Bool) (width : ℕ) (n : ℤ) (format : List (Fin 256))
    (args : List Arg) : render (.width left zero width) (100 :: format) (.int n :: args) =
      (render .text format args).map (fillInt left zero width n ++ ·) := rfl

/-- A text without width is rendered at its own. -/
@[simp] theorem render_flags_str (left zero : Bool) (text : List (Fin 256))
    (format : List (Fin 256)) (args : List Arg) :
    render (.flags left zero) (115 :: format) (.str text :: args) =
      (render .text format args).map (fill left 0 text ++ ·) := rfl

/-- A text is rendered at its width. -/
@[simp] theorem render_width_str (left zero : Bool) (width : ℕ) (text : List (Fin 256))
    (format : List (Fin 256)) (args : List Arg) :
    render (.width left zero width) (115 :: format) (.str text :: args) =
      (render .text format args).map (fill left width text ++ ·) := rfl

/-- A text that has its width is not filled. -/
theorem fill_full (left : Bool) {width : ℕ} {text : List (Fin 256)} (full : width ≤ text.length) :
    fill left width text = text := by
  have none : width - text.length = 0 := Nat.sub_eq_zero_of_le full
  unfold fill
  rw [none, List.replicate_zero, List.append_nil, List.nil_append, ite_self]

/-- A natural number is rendered in its digits. -/
theorem fillInt_natural (n : ℕ) : fillInt false false 0 n = digits n := by
  have positive : ¬ (n : ℤ) < 0 := not_lt.mpr (Int.natCast_nonneg n)
  simp [fillInt, positive, fill]

/-- A negative number is rendered with a minus. -/
theorem fillInt_negative {n : ℕ} (positive : 0 < n) :
    fillInt false false 0 (-n) = 45 :: digits n := by
  simp [fillInt, positive, fill]

/-- A zero filled with zeros. -/
theorem fillInt_zeros (width : ℕ) :
    fillInt false true width 0 = List.replicate (max width 1) 48 := by
  have written : fillInt false true width 0 = List.replicate (width - 1) 48 ++ [48] := rfl
  rw [written, ← List.replicate_succ']
  congr 1
  omega

/-- A zero that stands on the left. -/
theorem fillInt_left (zero : Bool) (width : ℕ) :
    fillInt true zero width 0 = 48 :: List.replicate (width - 1) 32 := by
  cases zero <;> rfl

end Printf
