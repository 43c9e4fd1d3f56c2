import Mathlib.Algebra.Ring.Int.Defs
import Mathlib.Algebra.Ring.Nat
import Mathlib.Data.Fin.Basic
import Mathlib.Data.List.Lex
import Mathlib.Order.Fin.Basic
import Mathlib.Tactic.Common

/-! # Bytes and records

Record areas, keys and texts are lists of bytes. `memcmp` on buffers of one length is
the lexicographic order of the lists; a text passed to a C library ends at its first
NUL byte.
-/

namespace Pqfh

/-- An unsigned char. -/
abbrev Byte := Fin 256

/-- What the literals of bytes rest on. -/
instance byteNeZero : NeZero 256 := ⟨by decide⟩

/-- What membership in a list of bytes rests on. -/
instance byteLawfulBEq : LawfulBEq Byte := inferInstance

/-- `n` bytes of a buffer from `offset` on. -/
def slice (buffer : List Byte) (offset n : ℕ) : List Byte :=
  (buffer.drop offset).take n

/-- The text a C library reads from a buffer: the bytes before the first NUL. -/
def cstr (buffer : List Byte) : List Byte :=
  buffer.takeWhile (· ≠ 0)

/-- The bytes of a text of ASCII characters. -/
def ascii (text : String) : List Byte := text.toList.map fun char => Fin.ofNat 256 char.toNat

/-- A slice inside a buffer has its length. -/
theorem length_slice {buffer : List Byte} {offset n : ℕ} (inside : offset + n ≤ buffer.length) :
    (slice buffer offset n).length = n := by
  unfold slice
  rw [List.length_take, List.length_drop]
  omega

/-- The bytes of a slice are those of the buffer from its offset. -/
theorem getElem?_slice (buffer : List Byte) (offset n i : ℕ) :
    (slice buffer offset n)[i]? = if i < n then buffer[offset + i]? else none := by
  unfold slice
  by_cases inside : i < n
  · rw [if_pos inside, List.getElem?_take_of_lt inside, List.getElem?_drop]
  · rw [if_neg inside, List.getElem?_take_eq_none (Nat.le_of_not_lt inside)]

/-- A text ends at the first NUL, in front or behind. -/
theorem cstr_append (front back : List Byte) :
    cstr (front ++ back) = if 0 ∈ front then cstr front else front ++ cstr back := by
  unfold cstr
  induction front with
  | nil => rfl
  | cons byte front ih =>
      by_cases zero : byte = 0
      · simp only [zero, List.cons_append, List.takeWhile_cons, ne_eq, not_true_eq_false,
          decide_false, Bool.false_eq_true, ↓reduceIte, List.mem_cons, true_or]
      · have different : ¬ 0 = byte := fun equal => zero equal.symm
        simp only [List.cons_append, List.takeWhile_cons, ne_eq, zero, not_false_eq_true,
          decide_true, ↓reduceIte, List.mem_cons, different, false_or] at ih ⊢
        rw [ih]
        by_cases later : 0 ∈ front
        · rw [if_pos later, if_pos later]
        · rw [if_neg later, if_neg later]

/-- No text has NUL in it. -/
theorem zero_notMem_cstr (buffer : List Byte) : 0 ∉ cstr buffer := by
  unfold cstr
  induction buffer with
  | nil => exact List.not_mem_nil
  | cons byte buffer ih =>
      rw [List.takeWhile_cons]
      by_cases zero : byte = 0
      · simp only [zero, ne_eq, not_true_eq_false, decide_false, Bool.false_eq_true, ↓reduceIte,
          List.not_mem_nil, not_false_eq_true]
      · have different : ¬ 0 = byte := fun equal => zero equal.symm
        simp only [ne_eq, zero, not_false_eq_true, decide_true, ↓reduceIte, List.mem_cons,
          different, false_or]
        exact ih

/-- A buffer with a NUL is its text, a NUL and the rest. -/
theorem exists_cstr_eq {buffer : List Byte} (terminated : 0 ∈ buffer) :
    ∃ rest, buffer = cstr buffer ++ 0 :: rest := by
  induction buffer with
  | nil => cases terminated
  | cons byte buffer ih =>
      by_cases zero : byte = 0
      · refine ⟨buffer, ?_⟩
        simp only [zero, cstr, List.takeWhile_cons, ne_eq, not_true_eq_false, decide_false,
          Bool.false_eq_true, ↓reduceIte, List.nil_append]
      · have later : 0 ∈ buffer := by
          rcases List.mem_cons.mp terminated with equal | later
          · exact (zero equal.symm).elim
          · exact later
        obtain ⟨rest, shape⟩ := ih later
        refine ⟨rest, ?_⟩
        conv_lhs => rw [shape]
        simp only [cstr, List.takeWhile_cons, ne_eq, zero, not_false_eq_true, decide_true,
          ↓reduceIte, List.cons_append]

/-- A text followed by a NUL is read as that text. -/
theorem cstr_append_zero {text : List Byte} (clean : 0 ∉ text) (rest : List Byte) :
    cstr (text ++ 0 :: rest) = text := by
  rw [cstr_append, if_neg clean]
  exact List.append_nil text

/-- A byte that is no NUL belongs to the text. -/
theorem cstr_cons {byte : Byte} (nonzero : byte ≠ 0) (rest : List Byte) :
    cstr (byte :: rest) = byte :: cstr rest := by
  unfold cstr
  rw [List.takeWhile_cons, if_pos (decide_eq_true nonzero)]

/-- Bytes without NUL are their own text. -/
theorem cstr_eq_self {text : List Byte} (clean : 0 ∉ text) : cstr text = text := by
  have whole := cstr_append text []
  rw [List.append_nil, if_neg clean] at whole
  rw [whole]
  exact List.append_nil text

/-- A NUL put at the end of a buffer does not change its text. -/
theorem cstr_append_nul (buffer : List Byte) : cstr (buffer ++ [0]) = cstr buffer := by
  rw [cstr_append]
  split
  · rfl
  · rename_i clean
    rw [cstr_eq_self clean]
    exact List.append_nil buffer

/-- A text ends in the first part of a buffer, or goes on into the other one. -/
theorem cstr_eq_split (buffer : List Byte) (place : ℕ) :
    cstr buffer = if 0 ∈ buffer.take place then cstr (buffer.take place)
      else buffer.take place ++ cstr (buffer.drop place) := by
  rw [← cstr_append, List.take_append_drop]

/-- A text is no longer than its buffer. -/
theorem length_cstr_le (buffer : List Byte) : (cstr buffer).length ≤ buffer.length :=
  (List.takeWhile_prefix _).length_le

/-- A text is shorter than its buffer exactly when there is a NUL. -/
theorem length_cstr_lt_iff {buffer : List Byte} :
    (cstr buffer).length < buffer.length ↔ 0 ∈ buffer := by
  constructor
  · intro shorter
    by_contra clean
    rw [cstr_eq_self clean] at shorter
    exact shorter.false
  · intro terminated
    obtain ⟨rest, shape⟩ := exists_cstr_eq terminated
    conv_rhs => rw [shape]
    rw [List.length_append, List.length_cons]
    omega

/-- The lowest byte makes the lowest text. -/
theorem replicate_le {low : Byte} {text : List Byte} (lowest : ∀ byte ∈ text, low ≤ byte) :
    List.replicate text.length low ≤ text := by
  have either : List.replicate text.length low = text ∨ List.replicate text.length low < text := by
    induction text with
    | nil => exact .inl rfl
    | cons byte text ih =>
        rw [List.length_cons, List.replicate_succ]
        rcases (lowest byte List.mem_cons_self).eq_or_lt with rfl | smaller
        · rcases ih fun later mem => lowest later (List.mem_cons_of_mem _ mem) with same | less
          · exact .inl (congrArg (List.cons low) same)
          · exact .inr (List.Lex.cons less)
        · exact .inr (List.Lex.rel smaller)
  exact either.elim le_of_eq le_of_lt

/-- Nothing but NULs is the lowest text of its length. -/
theorem replicate_zero_le (text : List Byte) : List.replicate text.length (0 : Byte) ≤ text :=
  replicate_le fun byte _ => Fin.zero_le byte

/-- Texts compare behind what they have in common. -/
theorem append_le_append (front : List Byte) {back back' : List Byte} (less : back ≤ back') :
    front ++ back ≤ front ++ back' := by
  rcases less.eq_or_lt with rfl | less
  · exact le_rfl
  · exact le_of_lt (List.Lex.append_left _ less front)

/-- Texts compare in their first bytes as they do in all. -/
theorem take_le_take_of_lex {first second : List Byte} (less : List.Lex (· < ·) first second)
    (n : ℕ) : first.take n ≤ second.take n := by
  induction less generalizing n with
  | nil =>
      rw [List.take_nil]
      exact not_lt.mp (List.not_lt_nil _)
  | cons _ ih =>
      cases n with
      | zero => exact le_rfl
      | succ n => exact append_le_append [_] (ih n)
  | rel smaller =>
      cases n with
      | zero => exact le_rfl
      | succ n => exact le_of_lt (List.Lex.rel smaller)

/-- The order of two texts is not turned by cutting both at one place. -/
theorem take_le_take {first second : List Byte} (less : first ≤ second) (n : ℕ) :
    first.take n ≤ second.take n := by
  rcases less.eq_or_lt with rfl | less
  · exact le_rfl
  · exact take_le_take_of_lex less n

end Pqfh
