import Pqfh.Json.Lex

/-! # The words of a text

How a text falls into words, by what stands in it and without the loop of `lex`: what ends a
string or a number, and what counts for a literal. `lex` finds these words, less the strings and
numbers in front of the first other word.
-/

namespace Pqfh.Json

/-- In `body`, with `before` in front of it, every quote stands right behind a backslash. -/
def Unclosed (before body : List Byte) : Prop :=
  ∀ front back, body = front ++ 34 :: back → (before ++ front).getLast? = some 92

/-- The digits and points of a number, from a digit on. -/
structure IsRun (value : List Byte) : Prop where
  begins : ∃ first rest, value = first :: rest ∧ isDigit first
  digits : ∀ ch ∈ value, isDigit ch ∨ ch = 46

/-- What may stand behind the last word: nothing, a string that is not closed, or a number, as
a number needs another character behind it. -/
inductive Trailing : List Byte → Prop where
  | nil : Trailing []
  | string {body : List Byte} (unclosed : Unclosed [] body) : Trailing (34 :: body)
  | number {value : List Byte} (run : IsRun value) : Trailing value

/-- A character that begins a literal, right or wrong. -/
structure Foreign (ch : Byte) : Prop where
  white : ¬ isWhiteSpace ch
  symbol : ¬ isSymbol ch
  quote : ch ≠ 34
  digit : ¬ isDigit ch

/-- The words that a text falls into. `true` is taken for `false`, with the character behind it,
and whatever else is neither blank, symbol, string nor number for `true`, with the three
characters behind it. -/
inductive Words : List Byte → List Token → Prop where
  | trailing {text : List Byte} (trailing : Trailing text) : Words text []
  | white {ch : Byte} {text : List Byte} {words : List Token} (white : isWhiteSpace ch)
      (rest : Words text words) : Words (ch :: text) words
  | symbol {ch : Byte} {text : List Byte} {words : List Token} (symbol : isSymbol ch)
      (rest : Words text words) : Words (ch :: text) (⟨tokSymbol, [ch]⟩ :: words)
  | string {body text : List Byte} {words : List Token} (inside : Unclosed [] body)
      (closed : body.getLast? ≠ some 92) (rest : Words text words) :
      Words (34 :: (body ++ 34 :: text)) (⟨tokString, body⟩ :: words)
  | number {value : List Byte} {ch : Byte} {text : List Byte} {words : List Token}
      (run : IsRun value) (ends : ¬ (isDigit ch ∨ ch = 46)) (rest : Words (ch :: text) words) :
      Words (value ++ ch :: text) (⟨tokNumber, value⟩ :: words)
  | literal {ch : Byte} {text : List Byte} {words : List Token} (foreign : Foreign ch)
      (like : ascii "true" <+: ch :: text) (rest : Words (text.drop 4) words) :
      Words (ch :: text) (⟨tokBool, ascii "false"⟩ :: words)
  | other {ch : Byte} {text : List Byte} {words : List Token} (foreign : Foreign ch)
      (unlike : ¬ ascii "true" <+: ch :: text) (rest : Words (text.drop 3) words) :
      Words (ch :: text) (⟨tokBool, ascii "true"⟩ :: words)

/-! ## The words that `lex` finds -/

variable {text : List Byte} {words : List Token}

/-- The characters that are passed over. -/
theorem lexFrom_passed (passed : ℕ) (text : List Byte) :
    lexFrom (.start passed) text = lexFrom (.start 0) (text.drop passed) := by
  induction text generalizing passed with
  | nil => rw [List.drop_nil]; rfl
  | cons ch text ih =>
      cases passed with
      | zero => rfl
      | succ passed => rw [lexFrom, lexEmit, List.nil_append, ih, List.drop_succ_cons]

/-- Inside a string nothing is found as long as no quote closes it. -/
theorem lexFrom_unclosed {body before : List Byte} (unclosed : Unclosed before body)
    (rest : List Byte) :
    lexFrom (.string before) (body ++ rest) = lexFrom (.string (before ++ body)) rest := by
  induction body generalizing before with
  | nil => rw [List.nil_append, List.append_nil]
  | cons ch body ih =>
      have later : Unclosed (before ++ [ch]) body := by
        intro front back split
        have here := unclosed (ch :: front) back (by rw [split, List.cons_append])
        rwa [List.append_assoc, List.singleton_append]
      have step : lexFrom (.string before) (ch :: (body ++ rest)) =
          lexFrom (.string (before ++ [ch])) (body ++ rest) := by
        by_cases quote : ch = 34
        · have back := unclosed [] body (by rw [quote, List.nil_append])
          rw [List.append_nil] at back
          exact lexFrom_string_escaped ch back _
        · exact lexFrom_string_other quote before _
      rw [List.cons_append, step, ih later, List.append_assoc, List.singleton_append]

/-- A string either stays open or is closed by the first quote that stands behind no
backslash. -/
theorem unclosed_or (before text : List Byte) :
    Unclosed before text ∨ ∃ body rest, text = body ++ 34 :: rest ∧ Unclosed before body ∧
      (before ++ body).getLast? ≠ some 92 := by
  induction text generalizing before with
  | nil => exact .inl fun front back split => absurd split (by simp)
  | cons ch text ih =>
      by_cases closes : ch = 34 ∧ before.getLast? ≠ some 92
      · refine .inr ⟨[], text, by rw [closes.1, List.nil_append], ?_, ?_⟩
        · exact fun front back split => absurd split (by simp)
        · rw [List.append_nil]
          exact closes.2
      have longer {body : List Byte} (unclosed : Unclosed (before ++ [ch]) body) :
          Unclosed before (ch :: body) := by
        intro front back split
        cases front with
        | nil =>
            obtain ⟨rfl, rfl⟩ := List.cons.inj split
            rw [List.append_nil]
            exact not_not.mp fun open' => closes ⟨rfl, open'⟩
        | cons other front =>
            obtain ⟨rfl, rfl⟩ := List.cons.inj split
            have here := unclosed front back rfl
            rwa [List.append_assoc, List.singleton_append] at here
      rcases ih (before ++ [ch]) with unclosed | ⟨body, rest, rfl, unclosed, last⟩
      · exact .inl (longer unclosed)
      · refine .inr ⟨ch :: body, rest, rfl, longer unclosed, ?_⟩
        rwa [List.append_assoc, List.singleton_append] at last

/-- A number is read up to where it ends. -/
theorem lexFrom_run {value : List Byte} (run : IsRun value) (rest : List Byte) :
    lexFrom (.start 0) (value ++ rest) = lexFrom (.number value) rest := by
  obtain ⟨⟨first, digits, rfl, digit⟩, all⟩ := run
  have started : lexEmit first (digits ++ rest) (.start 0) = ([], .number [first]) := by
    obtain ⟨white, symbol, quote⟩ := plain_of_isDigit digit
    rw [lexEmit, lexStart, if_neg white, if_neg symbol, if_neg quote, if_pos digit]
  rw [List.cons_append, lexFrom, started, List.nil_append, lexFrom_number_digits
    fun ch member => all ch (List.mem_cons_of_mem _ member), List.singleton_append]

/-- What trails is no word. -/
theorem Trailing.lexFrom (trailing : Trailing text) : lexFrom (.start 0) text = [] := by
  cases trailing with
  | nil => rfl
  | string unclosed =>
      have none := lexFrom_unclosed unclosed []
      rw [List.append_nil] at none
      rw [lexFrom_quote, none]
      rfl
  | number run =>
      have none := lexFrom_run run []
      rw [List.append_nil] at none
      rw [none]
      rfl

/-- What is found of a text, from its beginning on, are its words. -/
theorem Words.lexFrom (fall : Words text words) : lexFrom (.start 0) text = words := by
  induction fall with
  | trailing trailing => exact trailing.lexFrom
  | white white _ ih => rw [lexFrom_white white, ih]
  | symbol symbol _ ih => rw [lexFrom_symbol symbol, ih]
  | string inside closed _ ih =>
      rw [lexFrom_quote, lexFrom_unclosed inside, List.nil_append, Json.lexFrom, lexEmit,
        if_pos ⟨rfl, closed⟩, List.singleton_append, ih]
  | @number value ch text words run ends _ ih =>
      rw [lexFrom_run run, Json.lexFrom, lexEmit, if_neg ends, ← ih, Json.lexFrom, lexEmit,
        List.cons_append]
  | literal foreign like _ ih =>
      rw [Json.lexFrom, lexEmit, lexStart, if_neg foreign.white, if_neg foreign.symbol,
        if_neg foreign.quote, if_neg foreign.digit, if_neg (not_not.mpr like)]
      simp only [List.nil_append, List.singleton_append]
      rw [lexFrom_passed, ih]
  | other foreign unlike _ ih =>
      rw [lexFrom_other ⟨foreign.white, foreign.symbol, foreign.quote, foreign.digit⟩ unlike,
        lexFrom_passed, ih]

/-- A number goes on to the first character that is neither a digit nor a point. -/
theorem exists_run {first : Byte} (digit : isDigit first) (text : List Byte) :
    ∃ value rest, first :: text = value ++ rest ∧ IsRun value ∧
      ∀ next ∈ rest.head?, ¬ (isDigit next ∨ next = 46) := by
  have split := List.takeWhile_append_dropWhile (p := fun ch => isDigit ch || ch = 46) (l := text)
  refine ⟨first :: text.takeWhile fun ch => isDigit ch || ch = 46,
    text.dropWhile fun ch => isDigit ch || ch = 46, by rw [List.cons_append, split],
    ⟨⟨first, _, rfl, digit⟩, ?_⟩, ?_⟩
  · intro ch member
    rcases List.mem_cons.mp member with rfl | member
    · exact .inl digit
    · have inside := List.all_eq_true.mp (List.all_takeWhile (l := text)) ch member
      rwa [Bool.or_eq_true, decide_eq_true_eq] at inside
  · intro next member
    have stops := List.head?_dropWhile_not (fun ch => isDigit ch || ch = 46) text
    rw [Option.mem_def.mp member] at stops
    simp only [Bool.or_eq_false_iff, decide_eq_false_iff_not] at stops
    rw [stops.1]
    exact not_or.mpr ⟨Bool.false_ne_true, stops.2⟩

/-- Every text falls into words. -/
theorem exists_words (n : ℕ) : ∀ text : List Byte, text.length ≤ n →
    ∃ words, Words text words := by
  induction n with
  | zero =>
      intro text short
      obtain rfl : text = [] := List.length_eq_zero_iff.mp (Nat.le_zero.mp short)
      exact ⟨[], .trailing .nil⟩
  | succ n ih =>
      intro text short
      cases text with
      | nil => exact ⟨[], .trailing .nil⟩
      | cons ch text =>
          rw [List.length_cons, Nat.succ_le_succ_iff] at short
          by_cases white : isWhiteSpace ch
          · obtain ⟨words, rest⟩ := ih text short
            exact ⟨words, .white white rest⟩
          by_cases symbol : isSymbol ch
          · obtain ⟨words, rest⟩ := ih text short
            exact ⟨_, .symbol symbol rest⟩
          by_cases quote : ch = 34
          · subst quote
            rcases unclosed_or [] text with unclosed | ⟨body, behind, rfl, inside, closed⟩
            · exact ⟨[], .trailing (.string unclosed)⟩
            · rw [List.length_append, List.length_cons] at short
              obtain ⟨words, rest⟩ := ih behind (by omega)
              exact ⟨_, .string inside closed rest⟩
          by_cases digit : isDigit ch
          · obtain ⟨value, behind, split, run, ends⟩ := exists_run digit text
            rw [split]
            cases behind with
            | nil =>
                rw [List.append_nil]
                exact ⟨[], .trailing (.number run)⟩
            | cons next behind =>
                have size := congrArg List.length split
                obtain ⟨_, _, begins, _⟩ := run.begins
                rw [begins, List.length_append] at size
                simp only [List.length_cons] at size
                obtain ⟨words, rest⟩ := ih (next :: behind) (by rw [List.length_cons]; omega)
                exact ⟨_, .number run (ends next rfl) rest⟩
          have foreign : Foreign ch := ⟨white, symbol, quote, digit⟩
          by_cases like : ascii "true" <+: ch :: text
          · obtain ⟨words, rest⟩ := ih (text.drop 4) (by rw [List.length_drop]; omega)
            exact ⟨_, .literal foreign like rest⟩
          · obtain ⟨words, rest⟩ := ih (text.drop 3) (by rw [List.length_drop]; omega)
            exact ⟨_, .other foreign like rest⟩

/-- The words of a text are those that are found from its beginning on. -/
theorem words_iff : Words text words ↔ lexFrom (.start 0) text = words := by
  refine ⟨Words.lexFrom, ?_⟩
  rintro rfl
  obtain ⟨words, fall⟩ := exists_words text.length text le_rfl
  rwa [fall.lexFrom]

/-- The strings and numbers, which are lost while there is no token. -/
def Token.lost (token : Token) : Bool := token.tp = tokString || token.tp = tokNumber

/-- As long as there is no token, what a character adds is kept unless it is lost. -/
theorem lexStart_kept (ch : Byte) (rest : List Byte) :
    (lexStart [] ch rest).1 = [] ∨
      ∃ token : Token, (lexStart [] ch rest).1 = [token] ∧ token.lost = false := by
  unfold lexStart
  split_ifs
  · exact .inl rfl
  · exact .inr ⟨_, rfl, rfl⟩
  · exact .inl rfl
  · exact .inl rfl
  · exact .inr ⟨_, rfl, rfl⟩
  · exact .inr ⟨_, rfl, rfl⟩

/-- As long as there is no token, strings and numbers are lost. -/
theorem lexLoop_nil (st : LexState) (text : List Byte) :
    lexLoop [] st text = (Json.lexFrom st text).dropWhile Token.lost := by
  induction text generalizing st with
  | nil => rfl
  | cons ch rest ih =>
      have starts : lexLoop (lexStart [] ch rest).1 (lexStart [] ch rest).2 rest =
          ((lexStart [] ch rest).1 ++ Json.lexFrom (lexStart [] ch rest).2 rest).dropWhile
            Token.lost := by
        rcases lexStart_kept ch rest with none | ⟨token, one, kept⟩
        · rw [none, List.nil_append]
          exact ih _
        · rw [one, lexLoop_eq (List.cons_ne_nil _ _), List.singleton_append,
            List.dropWhile_cons_of_neg (by rw [kept]; exact Bool.false_ne_true)]
      rw [lexLoop, Json.lexFrom]
      cases st with
      | start passed =>
          cases passed with
          | zero => exact starts
          | succ passed => exact ih _
      | string body =>
          unfold lexStep lexEmit
          simp only
          split_ifs
          · exact ih _
          · exact ih _
      | number body =>
          unfold lexStep lexEmit
          simp only
          split_ifs
          · exact ih _
          · exact starts

/-- `lex` finds the words of the text, less the strings and numbers in front. -/
theorem lex_of_words {json : List Byte} (fall : Words (cstr json) words) :
    lex json = words.dropWhile Token.lost := by
  rw [lex, lexLoop_nil, fall.lexFrom]

end Pqfh.Json
