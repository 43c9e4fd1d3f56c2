import Pqfh.Replica.Statements

/-! # Quoting the text of a key

`adiciona_comp` puts the text of a character column between quotes, after `escape` has doubled the
quotes in it. The loop of `escape` runs until its pointer is NULL, not until the text ends: a text
with a quote in it is copied until the pointer leaves the buffer.
-/

namespace Pqfh

/-- Where `pbuf` points to: the buffer of the caller, or a place in `BUF`. -/
inductive Quoting where
  | buf
  | BUF (place : ℕ)
  deriving Repr, DecidableEq

/-- The loop of `escape`, from a place in the buffer on. No pointer into a buffer is NULL, so that
nothing but a read beyond the buffer ends it. -/
def escapeLoop : List Byte → ℕ → List Byte → Except Stop (ℕ × List Byte)
  | [], _, _ => .error .undefined
  | byte :: rest, place, BUF => do
      let copied := if byte = 39 then [byte, byte] else [byte]
      let BUF ← writeAt BUF place copied
      escapeLoop rest (place + copied.length) BUF

/-- `escape`: what it returns, `pbuf`, and `BUF`. -/
def escape (buf BUF : List Byte) : Except Stop (Quoting × Quoting × List Byte) :=
  if 39 ∈ cstr buf then do
    let (place, BUF) ← escapeLoop buf 0 BUF
    let BUF ← writeAt BUF place [0]
    return (.BUF place, .BUF place, BUF)
  else return (.buf, .buf, BUF)

/-- The text that a pointer points to. -/
def Quoting.text (buf BUF : List Byte) : Quoting → List Byte
  | .buf => cstr buf
  | .BUF place => cstr (BUF.drop place)

/-- A text between quotes is read back. -/
def LiteralOf (quoted text : List Byte) : Prop := readQuoted (quoted ++ [39]) = some (text, [])

/-- A text is quoted for SQL, with what `escape` returns and with `pbuf`. -/
def Quotes (text rest BUF : List Byte) : Prop :=
  ∃ returned pbuf BUF', escape (text ++ 0 :: rest) BUF = .ok (returned, pbuf, BUF') ∧
    LiteralOf (returned.text (text ++ 0 :: rest) BUF') text ∧
    LiteralOf (pbuf.text (text ++ 0 :: rest) BUF') text

theorem escapeLoop_undefined (buf : List Byte) (place : ℕ) (BUF : List Byte) :
    escapeLoop buf place BUF = .error .undefined := by
  induction buf generalizing place BUF with
  | nil => rfl
  | cons byte rest ih =>
      unfold escapeLoop
      dsimp only
      cases written : writeAt BUF place (if byte = 39 then [byte, byte] else [byte]) with
      | ok later => exact ih _ later
      | error stop =>
          cases stop with
          | undefined => rfl
          | exit =>
              unfold writeAt at written
              rw [ite_eq_iff] at written
              obtain ⟨_, impossible⟩ | ⟨_, impossible⟩ := written
              · cases impossible
              · cases impossible

/-- A text is quoted exactly when there is no quote in it, whatever follows it in its buffer. -/
theorem escape_quotes_iff {text : List Byte} (clean : 0 ∉ text) (rest BUF : List Byte) :
    Quotes text rest BUF ↔ 39 ∉ text := by
  have same : cstr (text ++ 0 :: rest) = text := cstr_append_zero clean rest
  constructor
  · rintro ⟨returned, pbuf, BUF', returns, _⟩ quote
    unfold escape at returns
    rw [same, if_pos quote, escapeLoop_undefined] at returns
    cases returns
  · intro plain
    refine ⟨.buf, .buf, BUF, ?_, ?_, ?_⟩
    · unfold escape
      rw [same, if_neg plain]
      rfl
    · change LiteralOf (cstr (text ++ 0 :: rest)) text
      rw [same]
      exact readQuoted_eq plain
    · change LiteralOf (cstr (text ++ 0 :: rest)) text
      rw [same]
      exact readQuoted_eq plain

/-- A letter is quoted. -/
theorem escape_quotes_letter : Quotes [65] (List.replicate 255 0) (List.replicate 4097 0) :=
  (escape_quotes_iff (by decide) _ _).mpr (by decide)

/-- The name D'A in a buffer of 257 bytes is not. -/
theorem escape_misses_apostrophe :
    ¬ Quotes [68, 39, 65] (List.replicate 253 0) (List.replicate 4097 0) := by
  rintro ⟨returned, pbuf, BUF', returns, _⟩
  have stuck : escape ([68, 39, 65] ++ 0 :: List.replicate 253 0) (List.replicate 4097 0) =
      .error .undefined := by
    unfold escape
    rw [if_pos (by decide), escapeLoop_undefined]
    rfl
  rw [stuck] at returns
  cases returns

end Pqfh
