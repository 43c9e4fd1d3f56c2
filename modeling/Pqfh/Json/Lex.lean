import Mathlib.Data.List.Infix
import Pqfh.Json.Element

/-! # Tokens of a JSON text

`lex` goes through a text with one state and collects the tokens. A token is appended by
`addToken` to the list of its caller, which stays empty when it was; the other tokens are
appended in `lex` itself.
-/

namespace Pqfh.Json

/-- `token_t`, less the number of the line, which only messages print. -/
structure Token where
  tp : Byte
  buf : List Byte
  deriving DecidableEq

def tokSymbol : Byte := 64
def tokString : Byte := 83
def tokNumber : Byte := 78
def tokBool : Byte := 66

/-- `isWhiteSpace` -/
def isWhiteSpace (ch : Byte) : Bool := ch = 10 || ch = 13 || ch = 9 || ch = 32

/-- The characters that are tokens. -/
def isSymbol (ch : Byte) : Bool :=
  ch = 91 || ch = 93 || ch = 123 || ch = 125 || ch = 44 || ch = 58

/-- `isdigit` -/
def isDigit (ch : Byte) : Bool := 48 ≤ ch && ch ≤ 57

/-- The state of `lex`, with the characters since `start`. -/
inductive LexState where
  /-- `ST_0`, the next `passed` characters being passed over. -/
  | start (passed : ℕ)
  | string (body : List Byte)
  | number (body : List Byte)

/-- `addToken`, as its caller sees the list. -/
def addToken (tokens : List Token) (token : Token) : List Token :=
  if tokens = [] then [] else tokens ++ [token]

/-- A character in the state `ST_0`. The literals are compared by `strncmp`, which is zero
on equal texts; the `exit` behind both comparisons would need a text that begins with
either. -/
def lexStart (tokens : List Token) (ch : Byte) (rest : List Byte) : List Token × LexState :=
  if isWhiteSpace ch then (tokens, .start 0)
  else if isSymbol ch then (tokens ++ [⟨tokSymbol, [ch]⟩], .start 0)
  else if ch = 34 then (tokens, .string [])
  else if isDigit ch then (tokens, .number [ch])
  else if ¬ ascii "true" <+: ch :: rest then
    (tokens ++ [⟨tokBool, ascii "true"⟩], .start 3)
  else (tokens ++ [⟨tokBool, ascii "false"⟩], .start 4)

/-- A character `ch`, with the text behind it. -/
def lexStep (tokens : List Token) (ch : Byte) (rest : List Byte) :
    LexState → List Token × LexState
  | .start 0 => lexStart tokens ch rest
  | .start (passed + 1) => (tokens, .start passed)
  | .string body =>
      if ch = 34 ∧ body.getLast? ≠ some 92 then
        (addToken tokens ⟨tokString, body⟩, .start 0)
      else (tokens, .string (body ++ [ch]))
  | .number body =>
      if isDigit ch ∨ ch = 46 then (tokens, .number (body ++ [ch]))
      -- `i--`: the character is read again
      else lexStart (addToken tokens ⟨tokNumber, body⟩) ch rest

/-- The loop of `lex`. A string or a number that the text does not end is lost. -/
def lexLoop (tokens : List Token) (st : LexState) : List Byte → List Token
  | [] => tokens
  | ch :: rest => lexLoop (lexStep tokens ch rest st).1 (lexStep tokens ch rest st).2 rest

/-- `lex` -/
def lex (json : List Byte) : List Token := lexLoop [] (.start 0) (cstr json)

/-! ## From a state on

Once there is a token, every token found is kept, and what a text adds depends on the state
only.
-/

/-- The tokens that a character adds, and the state after it. -/
def lexEmit (ch : Byte) (rest : List Byte) : LexState → List Token × LexState
  | .start 0 => lexStart [] ch rest
  | .start (passed + 1) => ([], .start passed)
  | .string body =>
      if ch = 34 ∧ body.getLast? ≠ some 92 then ([⟨tokString, body⟩], .start 0)
      else ([], .string (body ++ [ch]))
  | .number body =>
      if isDigit ch ∨ ch = 46 then ([], .number (body ++ [ch]))
      else (⟨tokNumber, body⟩ :: (lexStart [] ch rest).1, (lexStart [] ch rest).2)

/-- The tokens that a text adds. -/
def lexFrom (st : LexState) : List Byte → List Token
  | [] => []
  | ch :: rest => (lexEmit ch rest st).1 ++ lexFrom (lexEmit ch rest st).2 rest

/-- A list with a token takes another one. -/
theorem addToken_eq {tokens : List Token} (started : tokens ≠ []) (token : Token) :
    addToken tokens token = tokens ++ [token] := by
  unfold addToken
  rw [if_neg started]

/-- What a character adds at the start does not depend on the tokens. -/
theorem lexStart_eq (tokens : List Token) (ch : Byte) (rest : List Byte) :
    lexStart tokens ch rest = (tokens ++ (lexStart [] ch rest).1, (lexStart [] ch rest).2) := by
  unfold lexStart
  split_ifs <;> simp only [List.append_nil, List.nil_append]

/-- What a character adds does not depend on them either, once there is one. -/
theorem lexStep_eq {tokens : List Token} (started : tokens ≠ []) (ch : Byte)
    (rest : List Byte) (st : LexState) :
    lexStep tokens ch rest st =
      (tokens ++ (lexEmit ch rest st).1, (lexEmit ch rest st).2) := by
  unfold lexStep lexEmit
  cases st with
  | start passed =>
      cases passed with
      | zero => exact lexStart_eq tokens ch rest
      | succ passed => simp only [List.append_nil]
  | string body =>
      simp only [addToken_eq started]
      split_ifs
      · rfl
      · simp only [List.append_nil]
  | number body =>
      simp only [addToken_eq started]
      split_ifs
      · simp only [List.append_nil]
      · rw [lexStart_eq]
        simp only [List.append_assoc, List.singleton_append]

/-- So a text adds what it adds from the state on. -/
theorem lexLoop_eq {tokens : List Token} (started : tokens ≠ []) (st : LexState)
    (text : List Byte) : lexLoop tokens st text = tokens ++ lexFrom st text := by
  induction text generalizing tokens st with
  | nil => exact (List.append_nil tokens).symm
  | cons ch rest ih =>
      have kept : tokens ++ (lexEmit ch rest st).1 ≠ [] := by simp [started]
      unfold lexLoop lexFrom
      rw [lexStep_eq started, ih kept, List.append_assoc]

/-- A symbol is no blank. -/
theorem isWhiteSpace_of_isSymbol {ch : Byte} (symbol : isSymbol ch) :
    isWhiteSpace ch = false := by
  unfold isSymbol at symbol
  simp only [Bool.or_eq_true, decide_eq_true_eq] at symbol
  rcases symbol with ((((rfl | rfl) | rfl) | rfl) | rfl) | rfl <;> rfl

/-- A symbol is a token of its own. -/
theorem lexStart_symbol {ch : Byte} (symbol : isSymbol ch) (rest : List Byte) :
    lexStart [] ch rest = ([⟨tokSymbol, [ch]⟩], .start 0) := by
  unfold lexStart
  rw [isWhiteSpace_of_isSymbol symbol, symbol]
  rfl

/-- A text that begins with a symbol is read without a loss. -/
theorem lex_symbol {ch : Byte} {rest : List Byte} (symbol : isSymbol ch) (clean : 0 ∉ rest) :
    lex (ch :: rest) = ⟨tokSymbol, [ch]⟩ :: lexFrom (.start 0) rest := by
  have nonzero : ch ≠ 0 := by
    rintro rfl
    exact absurd symbol (by decide)
  unfold lex
  rw [cstr_cons nonzero, cstr_eq_self clean]
  unfold lexLoop lexStep
  simp only
  rw [lexStart_symbol symbol, lexLoop_eq (List.cons_ne_nil _ _), List.singleton_append]

/-! ## Reading what is there -/

/-- A symbol is read wherever it stands outside of strings. -/
theorem lexFrom_symbol {ch : Byte} (symbol : isSymbol ch) (rest : List Byte) :
    lexFrom (.start 0) (ch :: rest) = ⟨tokSymbol, [ch]⟩ :: lexFrom (.start 0) rest := by
  rw [lexFrom, lexEmit, lexStart_symbol symbol, List.singleton_append]

/-- A blank is passed over. -/
theorem lexFrom_white {ch : Byte} (white : isWhiteSpace ch) (rest : List Byte) :
    lexFrom (.start 0) (ch :: rest) = lexFrom (.start 0) rest := by
  rw [lexFrom, lexEmit, lexStart, if_pos white, List.nil_append]

/-- So is an indentation. -/
theorem lexFrom_indent (n : ℕ) (rest : List Byte) :
    lexFrom (.start 0) (List.replicate n 9 ++ rest) = lexFrom (.start 0) rest := by
  induction n with
  | zero => rfl
  | succ n ih =>
      rw [List.replicate_succ, List.cons_append, lexFrom_white (by decide), ih]

/-- A quote begins a string. -/
theorem lexFrom_quote (rest : List Byte) :
    lexFrom (.start 0) (34 :: rest) = lexFrom (.string []) rest := by
  rw [lexFrom, lexEmit, lexStart, if_neg (by decide), if_neg (by decide), if_pos rfl,
    List.nil_append]

/-- The body of a string: every quote is escaped, and every backslash begins an escape. -/
inductive EscapedBody : List Byte → Prop where
  | nil : EscapedBody []
  | plain {ch : Byte} {body : List Byte} (visible : ch ≠ 0) (unquoted : ch ≠ 34)
      (unescaped : ch ≠ 92) (rest : EscapedBody body) : EscapedBody (ch :: body)
  | escape {ch : Byte} {body : List Byte} (visible : ch ≠ 0) (rest : EscapedBody body) :
      EscapedBody (92 :: ch :: body)

/-- An escaped text has no zero byte. -/
theorem EscapedBody.clean {body : List Byte} (escaped : EscapedBody body) : 0 ∉ body := by
  induction escaped with
  | nil => exact List.not_mem_nil
  | plain visible _ _ _ ih => exact List.not_mem_cons_of_ne_of_not_mem visible.symm ih
  | escape visible _ ih =>
      exact List.not_mem_cons_of_ne_of_not_mem (by decide)
        (List.not_mem_cons_of_ne_of_not_mem visible.symm ih)

/-- Any other character than a quote belongs to the string. -/
theorem lexFrom_string_other {ch : Byte} (unquoted : ch ≠ 34) (body rest : List Byte) :
    lexFrom (.string body) (ch :: rest) = lexFrom (.string (body ++ [ch])) rest := by
  rw [lexFrom, lexEmit, if_neg fun both => unquoted both.1, List.nil_append]

/-- So does a quote behind a backslash. -/
theorem lexFrom_string_escaped (ch : Byte) {body : List Byte} (back : body.getLast? = some 92)
    (rest : List Byte) :
    lexFrom (.string body) (ch :: rest) = lexFrom (.string (body ++ [ch])) rest := by
  rw [lexFrom, lexEmit, if_neg fun both => both.2 back, List.nil_append]

/-- An escaped text is read whole. -/
theorem lexFrom_string_body {body : List Byte} (escaped : EscapedBody body)
    (before rest : List Byte) :
    lexFrom (.string before) (body ++ rest) = lexFrom (.string (before ++ body)) rest := by
  induction escaped generalizing before with
  | nil => rw [List.nil_append, List.append_nil]
  | plain _ unquoted _ _ ih =>
      rw [List.cons_append, lexFrom_string_other unquoted, ih, List.append_assoc,
        List.singleton_append]
  | escape _ _ ih =>
      rw [List.cons_append, lexFrom_string_other (by decide), List.cons_append,
        lexFrom_string_escaped _ (by simp), ih, List.append_assoc, List.append_assoc,
        List.singleton_append, List.singleton_append]

/-- A string whose body does not end with a backslash is read as it stands. -/
theorem lexFrom_string {body : List Byte} (escaped : EscapedBody body)
    (closed : body.getLast? ≠ some 92) (rest : List Byte) :
    lexFrom (.start 0) (34 :: (body ++ 34 :: rest)) =
      ⟨tokString, body⟩ :: lexFrom (.start 0) rest := by
  rw [lexFrom_quote, lexFrom_string_body escaped, List.nil_append, lexFrom, lexEmit,
    if_pos ⟨rfl, closed⟩, List.singleton_append]

/-- The text of a number: digits with at most one point. -/
structure IsNumber (value : List Byte) : Prop where
  filled : value ≠ []
  digits : ∀ ch ∈ value, isDigit ch ∨ ch = 46
  point : value.count 46 ≤ 1

/-- Digits and points belong to the number. -/
theorem lexFrom_number_digits {value : List Byte} (digits : ∀ ch ∈ value, isDigit ch ∨ ch = 46)
    (before rest : List Byte) :
    lexFrom (.number before) (value ++ rest) = lexFrom (.number (before ++ value)) rest := by
  induction value generalizing before with
  | nil => rw [List.nil_append, List.append_nil]
  | cons ch value ih =>
      rw [List.cons_append, lexFrom, lexEmit, if_pos (digits ch List.mem_cons_self),
        List.nil_append, ih fun later member => digits later (List.mem_cons_of_mem _ member),
        List.append_assoc, List.singleton_append]

/-- A digit begins nothing but a number. -/
theorem plain_of_isDigit {ch : Byte} (digit : isDigit ch) :
    ¬ isWhiteSpace ch ∧ ¬ isSymbol ch ∧ ch ≠ 34 := by
  refine ⟨?_, ?_, ?_⟩ <;> rintro wrong
  · unfold isWhiteSpace at wrong
    simp only [Bool.or_eq_true, decide_eq_true_eq] at wrong
    rcases wrong with ((rfl | rfl) | rfl) | rfl <;> exact absurd digit (by decide)
  · unfold isSymbol at wrong
    simp only [Bool.or_eq_true, decide_eq_true_eq] at wrong
    rcases wrong with ((((rfl | rfl) | rfl) | rfl) | rfl) | rfl <;>
      exact absurd digit (by decide)
  · subst wrong
    exact absurd digit (by decide)

/-- A number that begins with a digit is read as it stands. -/
theorem lexFrom_number {value : List Byte} {first : Byte} (digit : isDigit first)
    (digits : ∀ ch ∈ value, isDigit ch ∨ ch = 46) {ch : Byte} (ends : ¬ (isDigit ch ∨ ch = 46))
    (rest : List Byte) :
    lexFrom (.start 0) (first :: (value ++ ch :: rest)) =
      ⟨tokNumber, first :: value⟩ :: lexFrom (.start 0) (ch :: rest) := by
  have started : lexEmit first (value ++ ch :: rest) (.start 0) = ([], .number [first]) := by
    obtain ⟨white, symbol, quote⟩ := plain_of_isDigit digit
    rw [lexEmit, lexStart, if_neg white, if_neg symbol, if_neg quote, if_pos digit]
  rw [lexFrom, started, List.nil_append, lexFrom_number_digits digits, lexFrom, lexEmit,
    if_neg ends, List.singleton_append, lexFrom, lexEmit, List.cons_append]

/-- Where `true` stands, `false` is read, and elsewhere `true`. -/
theorem lexFrom_true (rest : List Byte) :
    ∃ tokens, lexFrom (.start 0) (ascii "true" ++ rest) = ⟨tokBool, ascii "false"⟩ :: tokens := by
  have here : ascii "true" <+: (116 : Byte) :: (ascii "rue" ++ rest) := ⟨rest, rfl⟩
  refine ⟨lexFrom (.start 4) (ascii "rue" ++ rest), ?_⟩
  change lexFrom (.start 0) (116 :: (ascii "rue" ++ rest)) = _
  rw [lexFrom, lexEmit, lexStart, if_neg (by decide), if_neg (by decide), if_neg (by decide),
    if_neg (by decide), if_neg (not_not.mpr here)]
  rfl

/-- Any other character is taken for `true`. -/
theorem lexFrom_other {ch : Byte} {rest : List Byte}
    (other : ¬ isWhiteSpace ch ∧ ¬ isSymbol ch ∧ ch ≠ 34 ∧ ¬ isDigit ch)
    (unlike : ¬ ascii "true" <+: ch :: rest) :
    lexFrom (.start 0) (ch :: rest) =
      ⟨tokBool, ascii "true"⟩ :: lexFrom (.start 3) rest := by
  rw [lexFrom, lexEmit, lexStart, if_neg other.1, if_neg other.2.1, if_neg other.2.2.1,
    if_neg other.2.2.2, if_pos unlike]
  rfl

/-! ## What a token can be -/

/-- A string does not end with a backslash, and a number begins with a digit. -/
structure Token.Possible (token : Token) : Prop where
  string : token.tp = tokString → token.buf.getLast? ≠ some 92
  number : token.tp = tokNumber → ∃ first rest, token.buf = first :: rest ∧ isDigit first

/-- A literal is no string and no number. -/
theorem possible_of_bool (value : List Byte) : Token.Possible ⟨tokBool, value⟩ :=
  ⟨fun wrong => absurd wrong (show ¬ tokBool = tokString by decide),
    fun wrong => absurd wrong (show ¬ tokBool = tokNumber by decide)⟩

/-- Neither is a symbol. -/
theorem possible_of_symbol (value : List Byte) : Token.Possible ⟨tokSymbol, value⟩ :=
  ⟨fun wrong => absurd wrong (show ¬ tokSymbol = tokString by decide),
    fun wrong => absurd wrong (show ¬ tokSymbol = tokNumber by decide)⟩

/-- What was read of a number begins with a digit. -/
def LexState.Begun : LexState → Prop
  | .number body => ∃ first rest, body = first :: rest ∧ isDigit first
  | _ => True

/-- A character at the start adds a token that is possible. -/
theorem lexStart_possible {tokens : List Token} (possible : ∀ token ∈ tokens, token.Possible)
    (ch : Byte) (rest : List Byte) :
    (∀ token ∈ (lexStart tokens ch rest).1, token.Possible) ∧
      (lexStart tokens ch rest).2.Begun := by
  have push {token : Token} (fine : token.Possible) :
      ∀ other ∈ tokens ++ [token], other.Possible := by
    intro other member
    rcases List.mem_append.mp member with old | new
    · exact possible other old
    · rw [List.mem_singleton.mp new]
      exact fine
  unfold lexStart
  split_ifs with white symbol quote digit unlike
  · exact ⟨possible, trivial⟩
  · exact ⟨push (possible_of_symbol _), trivial⟩
  · exact ⟨possible, trivial⟩
  · exact ⟨possible, ch, [], rfl, digit⟩
  · exact ⟨push (possible_of_bool _), trivial⟩
  · exact ⟨push (possible_of_bool _), trivial⟩

/-- A possible token is added to possible ones. -/
theorem addToken_possible {tokens : List Token} (possible : ∀ token ∈ tokens, token.Possible)
    {token : Token} (fine : token.Possible) :
    ∀ other ∈ addToken tokens token, other.Possible := by
  intro other member
  unfold addToken at member
  split_ifs at member
  · cases member
  · rcases List.mem_append.mp member with old | new
    · exact possible other old
    · rw [List.mem_singleton.mp new]
      exact fine

/-- Each character adds tokens that are possible. -/
theorem lexStep_possible {tokens : List Token} (possible : ∀ token ∈ tokens, token.Possible)
    (ch : Byte) (rest : List Byte) {st : LexState} (begun : st.Begun) :
    (∀ token ∈ (lexStep tokens ch rest st).1, token.Possible) ∧
      (lexStep tokens ch rest st).2.Begun := by
  unfold lexStep
  cases st with
  | start passed =>
      cases passed with
      | zero => exact lexStart_possible possible ch rest
      | succ passed => exact ⟨possible, trivial⟩
  | string body =>
      simp only
      split_ifs with ends
      · refine ⟨addToken_possible possible ⟨fun _ => ends.2, fun wrong => ?_⟩, trivial⟩
        exact absurd wrong (show ¬ tokString = tokNumber by decide)
      · exact ⟨possible, trivial⟩
  | number body =>
      simp only
      split_ifs with more
      · obtain ⟨first, others, rfl, digit⟩ := begun
        exact ⟨possible, first, others ++ [ch], rfl, digit⟩
      · have fine : Token.Possible ⟨tokNumber, body⟩ :=
          ⟨fun wrong => absurd wrong (show ¬ tokNumber = tokString by decide), fun _ => begun⟩
        exact lexStart_possible (addToken_possible possible fine) ch rest

/-- So does a text. -/
theorem lexLoop_possible {tokens : List Token} (possible : ∀ token ∈ tokens, token.Possible)
    {st : LexState} (begun : st.Begun) (text : List Byte) :
    ∀ token ∈ lexLoop tokens st text, token.Possible := by
  induction text generalizing tokens st with
  | nil => exact possible
  | cons ch rest ih =>
      obtain ⟨next, nextBegun⟩ := lexStep_possible possible ch rest begun
      exact ih next nextBegun

/-- All tokens of a text are possible. -/
theorem lex_possible (json : List Byte) : ∀ token ∈ lex json, token.Possible :=
  lexLoop_possible (fun _ member => by cases member)
    (show (LexState.start 0).Begun from trivial) _

end Pqfh.Json
