import Mathlib.Data.List.Chain
import Pqfh.Json.ParseSpec
import Pqfh.Json.Words

/-! # The texts that the parser accepts

A JSON text, in the terms of its own grammar, against the tokens that the parser tolerates.
-/

namespace Pqfh.Json

/-! ## JSON texts -/

/-- A number without a sign: digits with at most one point, from a digit on. -/
structure IsUnsigned (value : List Byte) : Prop where
  number : IsNumber value
  digit : ∃ first rest, value = first :: rest ∧ isDigit first

/-- The tokens that a text spells. -/
inductive Spelled : List Byte → List Token → Prop where
  | nil : Spelled [] []
  | white {ch : Byte} {text : List Byte} {tokens : List Token} (white : isWhiteSpace ch)
      (rest : Spelled text tokens) : Spelled (ch :: text) tokens
  | symbol {ch : Byte} {text : List Byte} {tokens : List Token} (symbol : isSymbol ch)
      (rest : Spelled text tokens) : Spelled (ch :: text) (⟨tokSymbol, [ch]⟩ :: tokens)
  | string {body text : List Byte} {tokens : List Token} (escaped : EscapedBody body)
      (rest : Spelled text tokens) :
      Spelled (34 :: (body ++ 34 :: text)) (⟨tokString, body⟩ :: tokens)
  | number {value text : List Byte} {tokens : List Token} (number : IsUnsigned value)
      (rest : Spelled text tokens) : Spelled (value ++ text) (⟨tokNumber, value⟩ :: tokens)
  | literal {value text : List Byte} {tokens : List Token}
      (literal : value = ascii "true" ∨ value = ascii "false") (rest : Spelled text tokens) :
      Spelled (value ++ text) (⟨tokBool, value⟩ :: tokens)

/-- The symbol tokens. -/
def symbolToken (ch : Byte) : Token := ⟨tokSymbol, [ch]⟩

/-- What the grammar derives. -/
inductive Phrase where
  | value
  | elements
  | members

/-- The grammar over tokens: values separated by single commas. `nested` tells whether an
array may stand directly in an array. -/
inductive Derives (nested : Bool) : Phrase → List Token → Prop where
  | scalar {token : Token} (scalar : token.tp ≠ tokSymbol) : Derives nested .value [token]
  | emptyArray : Derives nested .value [symbolToken 91, symbolToken 93]
  | emptyObject : Derives nested .value [symbolToken 123, symbolToken 125]
  | array {tokens : List Token} (elements : Derives nested .elements tokens) :
      Derives nested .value (symbolToken 91 :: (tokens ++ [symbolToken 93]))
  | object {tokens : List Token} (members : Derives nested .members tokens) :
      Derives nested .value (symbolToken 123 :: (tokens ++ [symbolToken 125]))
  | lastElement {tokens : List Token} (value : Derives nested .value tokens)
      (flat : nested = true ∨ tokens.head? ≠ some (symbolToken 91)) :
      Derives nested .elements tokens
  | element {tokens others : List Token} (value : Derives nested .value tokens)
      (flat : nested = true ∨ tokens.head? ≠ some (symbolToken 91))
      (rest : Derives nested .elements others) :
      Derives nested .elements (tokens ++ symbolToken 44 :: others)
  | lastMember {name : Token} {tokens : List Token} (string : name.tp = tokString)
      (value : Derives nested .value tokens) :
      Derives nested .members (name :: symbolToken 58 :: tokens)
  | member {name : Token} {tokens others : List Token} (string : name.tp = tokString)
      (value : Derives nested .value tokens) (rest : Derives nested .members others) :
      Derives nested .members (name :: symbolToken 58 :: (tokens ++ symbolToken 44 :: others))

/-- A single array or object. -/
def JsonText (text : List Byte) : Prop :=
  ∃ first tokens, Spelled text (first :: tokens) ∧ first.tp = tokSymbol ∧
    Derives true .value (first :: tokens)

/-! ## Texts by their words -/

/-- A bracket that is open. -/
inductive Bracket where
  | array
  | object

/-- A word that stands for a member's name, and one behind it for the colon. -/
def Slip (name colon : Token) : Bool := !(name.tp = tokString && colon.buf = [58])

/-- What may stand behind an open bracket, and the words left behind it; `slip` tells whether a
member has another word for its name or its colon. Words are known by their first character.
Commas count for nothing, and the end of the text closes every bracket. -/
inductive Inside : Bracket → Bool → List Token → List Token → Prop where
  | ends (bracket : Bracket) : Inside bracket false [] []
  | comma {bracket : Bracket} {slip : Bool} {tok : Token} {words left : List Token}
      (comma : tok.first = 44) (more : Inside bracket slip words left) :
      Inside bracket slip (tok :: words) left
  | closeArray {tok : Token} {words : List Token} (close : tok.first = 93) :
      Inside .array false (tok :: words) words
  | item {slip : Bool} {tok : Token} {words left : List Token}
      (plain : leavesArray tok.first = false) (more : Inside .array slip words left) :
      Inside .array slip (tok :: words) left
  | itemObject {slip slip' : Bool} {tok : Token} {words middle left : List Token}
      (brace : tok.first = 123) (nested : Inside .object slip words middle)
      (more : Inside .array slip' middle left) :
      Inside .array (slip || slip') (tok :: words) left
  | closeObject {tok : Token} {words : List Token} (close : tok.first = 125) :
      Inside .object false (tok :: words) words
  | member {slip : Bool} {name colon value : Token} {words left : List Token}
      (plain : leavesObject name.first = false) (scalar : opensValue value.first = false)
      (more : Inside .object slip words left) :
      Inside .object (Slip name colon || slip) (name :: colon :: value :: words) left
  | memberArray {slip slip' : Bool} {name colon value : Token} {words middle left : List Token}
      (plain : leavesObject name.first = false) (bracket : value.first = 91)
      (nested : Inside .array slip words middle) (more : Inside .object slip' middle left) :
      Inside .object (Slip name colon || slip || slip') (name :: colon :: value :: words) left
  | memberObject {slip slip' : Bool} {name colon value : Token} {words middle left : List Token}
      (plain : leavesObject name.first = false) (brace : value.first = 123)
      (nested : Inside .object slip words middle) (more : Inside .object slip' middle left) :
      Inside .object (Slip name colon || slip || slip') (name :: colon :: value :: words) left

/-- A bracket with what may stand behind it. -/
inductive Bracketed (slip : Bool) : List Token → Prop where
  | array {first : Token} {words left : List Token} (bracket : first.buf = [91])
      (inside : Inside .array slip words left) : Bracketed slip (first :: words)
  | object {first : Token} {words left : List Token} (brace : first.buf = [123])
      (inside : Inside .object slip words left) : Bracketed slip (first :: words)

/-- A text that is taken without an error: its words, from the first on that is neither a string
nor a number, are a bracket and what may stand behind it. -/
def Taken (text : List Byte) : Prop :=
  ∃ words, Words text words ∧ Bracketed false (words.dropWhile Token.lost)

/-- A text with an error that is noted: no bracket stands in front, or a member has another word
for its name or its colon. -/
def Noted (text : List Byte) : Prop :=
  ∃ words, Words text words ∧ (Bracketed true (words.dropWhile Token.lost) ∨
    ∀ first ∈ (words.dropWhile Token.lost).head?,
      first.buf ≠ [91] ∧ first.buf ≠ [123])

/-! ## The parser by the words -/

variable {tok colon value : Token} {tokens : List Token} {children : List JElement} {ok : Bool}
  {bracket : Bracket} {slip : Bool} {left : List Token}

/-- The parser behind an open bracket. -/
def readFrom : Bracket → List Token → List JElement → Bool → Except Stop Parsed
  | .array => arrayFrom
  | .object => objectFrom

/-- Two errors are noted as one. -/
theorem noted_append (ok slip slip' : Bool) :
    (ok && !slip && !slip') = (ok && !(slip || slip')) := by
  rw [Bool.not_or, Bool.and_assoc]

/-- Three errors are noted as one. -/
theorem noted_nested (ok slip slip' slip'' : Bool) :
    (ok && !slip && !slip' && !slip'') = (ok && !(slip || slip' || slip'')) := by
  rw [noted_append, noted_append, Bool.or_assoc]

/-- A member is checked for its name and its colon. -/
theorem noted_member (ok : Bool) (name colon : Token) :
    (ok && name.tp = tokString && colon.buf = [58]) = (ok && !Slip name colon) := by
  rw [Slip, Bool.not_not, Bool.and_assoc]

/-- What may stand behind a bracket is read, with an error exactly when there is a slip. -/
theorem Inside.read (inside : Inside bracket slip tokens left) (children : List JElement)
    (ok : Bool) :
    ∃ children', readFrom bracket tokens children ok = .ok (left, children', ok && !slip) := by
  induction inside generalizing children ok with
  | ends bracket =>
      refine ⟨children, ?_⟩
      rw [Bool.not_false, Bool.and_true]
      cases bracket with
      | array => exact arrayFrom_nil children ok
      | object => exact objectFrom_nil children ok
  | @comma bracket slip tok words left comma _ ih =>
      obtain ⟨children', read⟩ := ih children ok
      cases bracket with
      | array => exact ⟨children', (arrayFrom_comma comma).trans read⟩
      | object => exact ⟨children', (objectFrom_comma comma).trans read⟩
  | closeArray close =>
      rw [Bool.not_false, Bool.and_true]
      exact ⟨children, arrayFrom_close close⟩
  | item plain _ ih =>
      obtain ⟨children', read⟩ := ih _ ok
      exact ⟨children', (arrayFrom_value plain).trans read⟩
  | itemObject brace _ _ nested more =>
      obtain ⟨inner, opened⟩ := nested [] ok
      obtain ⟨children', read⟩ := more (children ++ [⟨none, tpObject, none, inner⟩]) _
      refine ⟨children', ?_⟩
      rw [noted_append] at read
      rw [readFrom, arrayFrom_object brace]
      exact bind_eq_ok.mpr ⟨_, opened, read⟩
  | closeObject close =>
      rw [Bool.not_false, Bool.and_true]
      exact ⟨children, objectFrom_close close⟩
  | @member slip name colon value words left plain scalar _ ih =>
      obtain ⟨children', read⟩ := ih _ _
      refine ⟨children', ?_⟩
      rw [readFrom, objectFrom_member plain, memberFrom_value scalar, noted_member, ← noted_append]
      exact read
  | @memberArray slip slip' name colon value words middle left plain bracket _ _ nested more =>
      obtain ⟨inner, opened⟩ := nested [] (ok && !Slip name colon)
      obtain ⟨children', read⟩ :=
        more (children ++ [⟨some name.buf, tpArray, none, inner⟩]) (ok && !Slip name colon && !slip)
      refine ⟨children', ?_⟩
      rw [readFrom, objectFrom_member plain, memberFrom_array bracket, noted_member, ← noted_nested]
      exact bind_eq_ok.mpr ⟨_, opened, read⟩
  | @memberObject slip slip' name colon value words middle left plain brace _ _ nested more =>
      obtain ⟨inner, opened⟩ := nested [] (ok && !Slip name colon)
      obtain ⟨children', read⟩ :=
        more (children ++ [⟨some name.buf, tpObject, none, inner⟩])
          (ok && !Slip name colon && !slip)
      refine ⟨children', ?_⟩
      rw [readFrom, objectFrom_member plain, memberFrom_object brace, noted_member, ← noted_nested]
      exact bind_eq_ok.mpr ⟨_, opened, read⟩

/-- What is read to its end may stand behind the bracket. -/
theorem inside_of_read (n : ℕ) : ∀ (bracket : Bracket) {tokens : List Token},
    tokens.length ≤ n → ∀ {children : List JElement} {ok : Bool} {parsed : Parsed},
      readFrom bracket tokens children ok = .ok parsed →
        ∃ slip, Inside bracket slip tokens parsed.1 := by
  induction n with
  | zero =>
      intro bracket tokens few children ok parsed read
      obtain rfl : tokens = [] := List.length_eq_zero_iff.mp (Nat.le_zero.mp few)
      have ends : parsed.1 = [] := by
        cases bracket <;> cases read <;> rfl
      rw [ends]
      exact ⟨false, .ends bracket⟩
  | succ n ih =>
      intro bracket tokens few children ok parsed read
      cases tokens with
      | nil => exact ih bracket (show ([] : List Token).length ≤ n from Nat.zero_le n) read
      | cons tok tokens =>
          rw [List.length_cons, Nat.succ_le_succ_iff] at few
          by_cases comma : tok.first = 44
          · have more : readFrom bracket tokens children ok = .ok parsed := by
              cases bracket with
              | array => exact (arrayFrom_comma comma).symm.trans read
              | object => exact (objectFrom_comma comma).symm.trans read
            obtain ⟨slip, inside⟩ := ih bracket few more
            exact ⟨slip, .comma comma inside⟩
          cases bracket with
          | array =>
              rw [readFrom] at read
              by_cases close : tok.first = 93
              · rw [arrayFrom_close close] at read
                cases read
                exact ⟨false, .closeArray close⟩
              by_cases brace : tok.first = 123
              · rw [arrayFrom_object brace] at read
                obtain ⟨inner, opened, more⟩ := bind_eq_ok.mp read
                obtain ⟨slip, nested⟩ := ih .object few opened
                obtain ⟨slip', behind⟩ :=
                  ih .array ((objectFrom_suffix opened).trans few) more
                exact ⟨_, .itemObject brace nested behind⟩
              have plain : leavesArray tok.first = false := by
                simp only [leavesArray, close, comma, brace, decide_false, Bool.or_self]
              rw [arrayFrom_value plain] at read
              obtain ⟨slip, inside⟩ := ih .array few read
              exact ⟨slip, .item plain inside⟩
          | object =>
              rw [readFrom] at read
              by_cases close : tok.first = 125
              · rw [objectFrom_close close] at read
                cases read
                exact ⟨false, .closeObject close⟩
              have plain : leavesObject tok.first = false := by
                simp only [leavesObject, close, comma, decide_false, Bool.or_self]
              rcases tokens with - | ⟨colon, - | ⟨value, tokens⟩⟩
              · rw [objectFrom_short plain (by decide)] at read
                cases read
              · rw [objectFrom_short plain (by rw [List.length_singleton]; decide)] at read
                cases read
              have fewer : tokens.length ≤ n := by
                simp only [List.length_cons] at few
                omega
              rw [objectFrom_member plain] at read
              by_cases bracket : value.first = 91
              · rw [memberFrom_array bracket] at read
                obtain ⟨inner, opened, more⟩ := bind_eq_ok.mp read
                obtain ⟨slip, nested⟩ := ih .array fewer opened
                obtain ⟨slip', behind⟩ :=
                  ih .object ((arrayFrom_suffix opened).trans fewer) more
                exact ⟨_, .memberArray plain bracket nested behind⟩
              by_cases brace : value.first = 123
              · rw [memberFrom_object brace] at read
                obtain ⟨inner, opened, more⟩ := bind_eq_ok.mp read
                obtain ⟨slip, nested⟩ := ih .object fewer opened
                obtain ⟨slip', behind⟩ :=
                  ih .object ((objectFrom_suffix opened).trans fewer) more
                exact ⟨_, .memberObject plain brace nested behind⟩
              have scalar : opensValue value.first = false := by
                simp only [opensValue, bracket, brace, decide_false, Bool.or_self]
              rw [memberFrom_value scalar] at read
              obtain ⟨slip, inside⟩ := ih .object fewer read
              exact ⟨_, .member plain scalar inside⟩

/-- The parser ends exactly on what may stand behind the bracket, and notes the slips. -/
theorem readFrom_iff : (∃ left children, readFrom bracket tokens [] true =
      .ok (left, children, !slip)) ↔ ∃ left, Inside bracket slip tokens left := by
  constructor
  · rintro ⟨left, children, read⟩
    obtain ⟨slip', inside⟩ := inside_of_read tokens.length bracket le_rfl read
    obtain ⟨children', again⟩ := inside.read [] true
    rw [read] at again
    injection again with same
    injection same with _ rest
    injection rest with _ noted
    rw [Bool.true_and, Bool.not_inj_iff] at noted
    exact ⟨left, noted ▸ inside⟩
  · rintro ⟨left, inside⟩
    obtain ⟨children, read⟩ := inside.read [] true
    exact ⟨left, children, read⟩

/-! ## Acceptance -/

/-- What `parse` answers, by the words of the text. -/
theorem parse_iff {json : List Byte} {words : List Token} (fall : Words (cstr json) words)
    (accepted : Bool) : (∃ root, parse json = .ok (accepted, root)) ↔
      Bracketed (!accepted) (words.dropWhile Token.lost) ∨
        accepted = false ∧ ∀ first ∈ (words.dropWhile Token.lost).head?,
          first.buf ≠ [91] ∧ first.buf ≠ [123] := by
  unfold parse
  rw [lex_of_words fall]
  cases words.dropWhile Token.lost with
  | nil =>
      constructor
      · rintro ⟨root, returned⟩
        cases returned
        exact .inr ⟨rfl, fun first member => by cases member⟩
      · rintro (inside | ⟨rfl, -⟩)
        · cases inside
        · exact ⟨_, rfl⟩
  | cons tok tokens =>
      have behind (bracket : Bracket) (tp : Byte) :
          (∃ root, (do
              let parsed ← readFrom bracket tokens [] true
              .ok (parsed.2.2, ⟨none, tp, none, parsed.2.1⟩)) =
                (.ok (accepted, root) : Except Stop (Bool × JElement))) ↔
            ∃ left, Inside bracket (!accepted) tokens left := by
        rw [← readFrom_iff, Bool.not_not]
        constructor
        · rintro ⟨root, returned⟩
          obtain ⟨⟨left, children, noted⟩, read, ended⟩ := bind_eq_ok.mp returned
          cases ended
          exact ⟨left, children, read⟩
        · rintro ⟨left, children, read⟩
          exact ⟨_, bind_eq_ok.mpr ⟨_, read, rfl⟩⟩
      by_cases bracket : tok.buf = [91]
      · simp only [bracket, ↓reduceIte]
        refine (behind .array tpArray).trans
          ⟨fun ⟨left, inside⟩ => .inl (.array bracket inside), ?_⟩
        rintro (inside | ⟨-, neither⟩)
        · cases inside with
          | array _ inside => exact ⟨_, inside⟩
          | object brace _ => exact absurd (bracket.symm.trans brace) (by decide)
        · exact absurd bracket (neither tok rfl).1
      by_cases brace : tok.buf = [123]
      · simp only [brace, ↓reduceIte, show ¬ ([123] : List Byte) = [91] by decide]
        refine (behind .object tpObject).trans
          ⟨fun ⟨left, inside⟩ => .inl (.object brace inside), ?_⟩
        rintro (inside | ⟨-, neither⟩)
        · cases inside with
          | array bracket _ => exact absurd (brace.symm.trans bracket) (by decide)
          | object _ inside => exact ⟨_, inside⟩
        · exact absurd brace (neither tok rfl).2
      · simp only [bracket, brace, ↓reduceIte]
        constructor
        · rintro ⟨root, returned⟩
          cases returned
          refine .inr ⟨rfl, fun first member => ?_⟩
          rw [List.head?_cons, Option.mem_some_iff] at member
          exact member ▸ ⟨bracket, brace⟩
        · rintro (inside | ⟨rfl, -⟩)
          · cases inside with
            | array bracket' _ => exact absurd bracket' bracket
            | object brace' _ => exact absurd brace' brace
          · exact ⟨_, rfl⟩

/-- `parse` on a text returns, and returns true exactly on a JSON text. -/
def Recognises (json : List Byte) : Prop :=
  ∃ accepted root, parse json = .ok (accepted, root) ∧
    (accepted = true ↔ JsonText (cstr json))

/-- A JSON text that is taken without an error, or another text with an error that is noted. -/
def Agrees (json : List Byte) : Prop :=
  (JsonText (cstr json) ∧ Taken (cstr json)) ∨ (¬ JsonText (cstr json) ∧ Noted (cstr json))

/-- The parser returns true just on the texts that are taken. -/
theorem parse_taken_iff {json : List Byte} :
    (∃ root, parse json = .ok (true, root)) ↔ Taken (cstr json) := by
  constructor
  · intro returned
    obtain ⟨words, fall⟩ := exists_words (cstr json).length (cstr json) le_rfl
    exact ⟨words, fall, ((parse_iff fall true).mp returned).resolve_right fun ⟨wrong, _⟩ =>
      Bool.noConfusion wrong⟩
  · rintro ⟨words, fall, inside⟩
    exact (parse_iff fall true).mpr (.inl inside)

/-- It returns false just on those with an error that is noted. -/
theorem parse_noted_iff {json : List Byte} :
    (∃ root, parse json = .ok (false, root)) ↔ Noted (cstr json) := by
  constructor
  · intro returned
    obtain ⟨words, fall⟩ := exists_words (cstr json).length (cstr json) le_rfl
    exact ⟨words, fall, ((parse_iff fall false).mp returned).imp id And.right⟩
  · rintro ⟨words, fall, inside⟩
    exact (parse_iff fall false).mpr (inside.imp id fun neither => ⟨rfl, neither⟩)

/-- A token that is no literal, and no string that begins with a symbol or ends with a
backslash. -/
structure Token.Plain (token : Token) : Prop where
  literal : token.tp ≠ tokBool
  unlike : token.tp ≠ tokSymbol → isSymbol token.first = false
  closed : token.tp = tokString → token.buf.getLast? ≠ some 92

/-- A number is followed by a symbol. -/
def Apart (left right : Token) : Prop := left.tp = tokSymbol ∨ right.tp = tokSymbol

/-- Tokens stay apart on both sides of a symbol. -/
theorem apart_append {front back : List Token} {symbol : Token} (symbolic : symbol.tp = tokSymbol)
    (before : front.IsChain Apart) (behind : back.IsChain Apart) :
    (front ++ symbol :: back).IsChain Apart := by
  refine List.isChain_append.mpr ⟨before, List.isChain_cons.mpr ⟨fun _ _ => .inl symbolic, behind⟩,
    fun last _ next here => ?_⟩
  rw [List.head?_cons, Option.mem_some_iff] at here
  subst here
  exact .inr symbolic

/-- Tokens stay apart behind a symbol. -/
theorem apart_cons {back : List Token} {symbol : Token} (symbolic : symbol.tp = tokSymbol)
    (behind : back.IsChain Apart) : (symbol :: back).IsChain Apart :=
  apart_append symbolic .nil behind

/-- The tokens of a derivation that are not symbols stand apart. -/
theorem Derives.apart {nested : Bool} {phrase : Phrase} {tokens : List Token}
    (derived : Derives nested phrase tokens) : tokens.IsChain Apart := by
  induction derived with
  | scalar _ => exact .singleton _
  | emptyArray => exact apart_cons rfl (.singleton _)
  | emptyObject => exact apart_cons rfl (.singleton _)
  | array _ ih => exact apart_cons rfl (apart_append rfl ih .nil)
  | object _ ih => exact apart_cons rfl (apart_append rfl ih .nil)
  | lastElement _ _ ih => exact ih
  | element _ _ _ value rest => exact apart_append rfl value rest
  | @lastMember name _ _ _ ih =>
      exact apart_append rfl (List.IsChain.singleton name) ih
  | @member name _ _ _ _ _ value rest =>
      exact apart_append rfl (List.IsChain.singleton name) (apart_append rfl value rest)

/-- A blank ends a number. -/
theorem not_digit_of_isWhiteSpace {ch : Byte} (white : isWhiteSpace ch) :
    ¬ (isDigit ch ∨ ch = 46) := by
  unfold isWhiteSpace at white
  simp only [Bool.or_eq_true, decide_eq_true_eq] at white
  rcases white with ((rfl | rfl) | rfl) | rfl <;> decide

/-- A symbol ends a number. -/
theorem not_digit_of_isSymbol {ch : Byte} (symbol : isSymbol ch) :
    ¬ (isDigit ch ∨ ch = 46) := by
  unfold isSymbol at symbol
  simp only [Bool.or_eq_true, decide_eq_true_eq] at symbol
  rcases symbol with ((((rfl | rfl) | rfl) | rfl) | rfl) | rfl <;> decide

/-- What stands before a symbol token is neither a digit nor a point. -/
theorem Spelled.exists_cons {text : List Byte} {symbol : Token} {rest : List Token}
    (spelled : Spelled text (symbol :: rest)) (symbolic : symbol.tp = tokSymbol) :
    ∃ ch others, text = ch :: others ∧ ¬ (isDigit ch ∨ ch = 46) := by
  cases spelled with
  | white white _ => exact ⟨_, _, rfl, not_digit_of_isWhiteSpace white⟩
  | symbol symbol _ => exact ⟨_, _, rfl, not_digit_of_isSymbol symbol⟩
  | string _ _ => exact absurd symbolic (show ¬ tokString = tokSymbol by decide)
  | number _ _ => exact absurd symbolic (show ¬ tokNumber = tokSymbol by decide)
  | literal _ _ => exact absurd symbolic (show ¬ tokBool = tokSymbol by decide)

/-- Plain tokens that end with a symbol are read as they are spelled. -/
theorem lexFrom_spelled {text : List Byte} (spelled : Spelled text tokens)
    (plain : ∀ token ∈ tokens, token.Plain) (chain : tokens.IsChain Apart)
    (ends : ∀ last ∈ tokens.getLast?, last.tp = tokSymbol) :
    lexFrom (.start 0) text = tokens := by
  have tailEnds {token : Token} {rest : List Token}
      (ends : ∀ last ∈ (token :: rest).getLast?, last.tp = tokSymbol) :
      ∀ last ∈ rest.getLast?, last.tp = tokSymbol := by
    intro last member
    cases rest with
    | nil => cases member
    | cons next rest => exact ends last (by rwa [List.getLast?_cons_cons])
  have others {token : Token} {rest : List Token} (plain : ∀ t ∈ token :: rest, t.Plain) :
      ∀ t ∈ rest, t.Plain := fun t member => plain t (List.mem_cons_of_mem _ member)
  induction spelled with
  | nil => rfl
  | white white _ ih => rw [lexFrom_white white, ih plain chain ends]
  | symbol symbol _ ih =>
      rw [lexFrom_symbol symbol, ih (others plain) chain.tail (tailEnds ends)]
  | string escaped _ ih =>
      have closed := (plain _ List.mem_cons_self).closed rfl
      rw [lexFrom_string escaped closed, ih (others plain) chain.tail (tailEnds ends)]
  | @number value text tokens number rest ih =>
      cases tokens with
      | nil =>
          have wrong := ends _ (by rw [List.getLast?_singleton]; rfl)
          exact absurd wrong (show ¬ tokNumber = tokSymbol by decide)
      | cons next tokens =>
          have symbolic : next.tp = tokSymbol :=
            (List.isChain_cons_cons.mp chain).1.resolve_left
              (show ¬ tokNumber = tokSymbol by decide)
          obtain ⟨ch, behind, rfl, stops⟩ := rest.exists_cons symbolic
          obtain ⟨first, digits, rfl, digit⟩ := number.digit
          rw [List.cons_append, lexFrom_number digit
            (fun ch member => number.number.digits ch (List.mem_cons_of_mem _ member)) stops,
            ih (others plain) chain.tail (tailEnds ends)]
  | literal _ _ _ => exact absurd rfl (plain _ List.mem_cons_self).literal

/-- How the tokens of a phrase are taken, without a slip. -/
def Passes : Phrase → List Token → Prop
  | .value, tokens => ∃ first inner, tokens = first :: inner ∧
      ((inner = [] ∧ isSymbol first.first = false) ∨
        (first = symbolToken 91 ∧ ∀ rest, Inside .array false (inner ++ rest) rest) ∨
        (first = symbolToken 123 ∧ ∀ rest, Inside .object false (inner ++ rest) rest))
  | .elements, tokens => ∀ rest left, Inside .array false rest left →
      Inside .array false (tokens ++ rest) left
  | .members, tokens => ∀ rest left, Inside .object false rest left →
      Inside .object false (tokens ++ rest) left

/-- What is no symbol neither opens nor closes anything. -/
theorem leavesArray_of_isSymbol {ch : Byte} (plain : isSymbol ch = false) :
    leavesArray ch = false ∧ leavesObject ch = false ∧ opensValue ch = false := by
  unfold isSymbol at plain
  simp only [Bool.or_eq_false_iff, decide_eq_false_iff_not] at plain
  obtain ⟨⟨⟨⟨⟨bracket, square⟩, brace⟩, curly⟩, comma⟩, -⟩ := plain
  simp only [leavesArray, leavesObject, opensValue, Bool.or_eq_false_iff,
    decide_eq_false_iff_not]
  exact ⟨⟨⟨square, comma⟩, brace⟩, ⟨curly, comma⟩, bracket, brace⟩

/-- A value that is no array is taken in an array. -/
theorem Inside.element {value rest : List Token} (passes : Passes .value value)
    (flat : value.head? ≠ some (symbolToken 91)) (more : Inside .array false rest left) :
    Inside .array false (value ++ rest) left := by
  obtain ⟨first, inner, rfl, ⟨rfl, scalar⟩ | ⟨rfl, _⟩ | ⟨rfl, nested⟩⟩ := passes
  · exact .item (leavesArray_of_isSymbol scalar).1 more
  · exact absurd rfl flat
  · have taken : Inside .array (false || false) (symbolToken 123 :: (inner ++ rest)) left :=
      .itemObject rfl (nested rest) more
    exact taken

/-- A member is taken with its name, its colon and its value. -/
theorem Inside.named {name : Token} {value rest : List Token} (plain : name.Plain)
    (string : name.tp = tokString) (passes : Passes .value value)
    (more : Inside .object false rest left) :
    Inside .object false (name :: symbolToken 58 :: (value ++ rest)) left := by
  have leaves := (leavesArray_of_isSymbol (plain.unlike (by rw [string]; decide))).2.1
  have fine : Slip name (symbolToken 58) = false := by
    rw [Slip, string]
    rfl
  obtain ⟨first, inner, rfl, ⟨rfl, scalar⟩ | ⟨rfl, nested⟩ | ⟨rfl, nested⟩⟩ := passes
  · have taken : Inside .object (Slip name (symbolToken 58) || false)
        (name :: symbolToken 58 :: first :: rest) left :=
      .member leaves (leavesArray_of_isSymbol scalar).2.2 more
    rwa [fine] at taken
  · have taken : Inside .object (Slip name (symbolToken 58) || false || false)
        (name :: symbolToken 58 :: symbolToken 91 :: (inner ++ rest)) left :=
      .memberArray leaves rfl (nested rest) more
    rwa [fine] at taken
  · have taken : Inside .object (Slip name (symbolToken 58) || false || false)
        (name :: symbolToken 58 :: symbolToken 123 :: (inner ++ rest)) left :=
      .memberObject leaves rfl (nested rest) more
    rwa [fine] at taken

/-- What the grammar derives without arrays in arrays is taken. -/
theorem Derives.passes {phrase : Phrase} (derived : Derives false phrase tokens)
    (plain : ∀ token ∈ tokens, token.Plain) : Passes phrase tokens := by
  have comma {bracket : Bracket} {rest left : List Token} (more : Inside bracket false rest left) :
      Inside bracket false (symbolToken 44 :: rest) left := .comma rfl more
  induction derived with
  | @scalar token scalar =>
      exact ⟨token, [], rfl, .inl ⟨rfl, (plain token List.mem_cons_self).unlike scalar⟩⟩
  | emptyArray => exact ⟨_, _, rfl, .inr (.inl ⟨rfl, fun rest => .closeArray rfl⟩)⟩
  | emptyObject => exact ⟨_, _, rfl, .inr (.inr ⟨rfl, fun rest => .closeObject rfl⟩)⟩
  | @array tokens _ ih =>
      have inside := ih fun token member =>
        plain token (List.mem_cons_of_mem _ (List.mem_append_left _ member))
      refine ⟨_, _, rfl, .inr (.inl ⟨rfl, fun rest => ?_⟩)⟩
      rw [List.append_assoc]
      exact inside _ _ (.closeArray rfl)
  | @object tokens _ ih =>
      have inside := ih fun token member =>
        plain token (List.mem_cons_of_mem _ (List.mem_append_left _ member))
      refine ⟨_, _, rfl, .inr (.inr ⟨rfl, fun rest => ?_⟩)⟩
      rw [List.append_assoc]
      exact inside _ _ (.closeObject rfl)
  | @lastElement tokens _ flat ih =>
      exact fun rest left more => .element (ih plain) (flat.resolve_left Bool.false_ne_true) more
  | @element tokens others _ flat _ value ih =>
      have passes := value fun token member => plain token (List.mem_append_left _ member)
      have later := ih fun token member =>
        plain token (List.mem_append_right _ (List.mem_cons_of_mem _ member))
      intro rest left more
      rw [List.append_assoc]
      exact .element passes (flat.resolve_left Bool.false_ne_true) (comma (later rest left more))
  | @lastMember name tokens string _ ih =>
      have passes := ih fun token member =>
        plain token (List.mem_cons_of_mem _ (List.mem_cons_of_mem _ member))
      exact fun rest left more => .named (plain name List.mem_cons_self) string passes more
  | @member name tokens others string _ _ value ih =>
      have passes := value fun token member =>
        plain token (List.mem_cons_of_mem _ (List.mem_cons_of_mem _
          (List.mem_append_left _ member)))
      have later := ih fun token member =>
        plain token (List.mem_cons_of_mem _ (List.mem_cons_of_mem _
          (List.mem_append_right _ (List.mem_cons_of_mem _ member))))
      intro rest left more
      simp only [List.cons_append, List.append_assoc]
      exact .named (plain name List.mem_cons_self) string passes (comma (later rest left more))

/-- The last of the tokens in brackets is the closing one. -/
theorem getLast?_bracketed (opening closing : Token) (inner : List Token) :
    (opening :: (inner ++ [closing])).getLast? = some closing := by
  rw [← List.cons_append, List.getLast?_concat]

/-- An array or an object ends with a symbol. -/
theorem Derives.ends {nested : Bool} {first : Token}
    (derived : Derives nested .value (first :: tokens)) (symbolic : first.tp = tokSymbol) :
    ∀ last ∈ (first :: tokens).getLast?, last.tp = tokSymbol := by
  have closes {closing last : Token} (symbol : closing.tp = tokSymbol)
      (member : last ∈ some closing) : last.tp = tokSymbol := by
    rw [Option.mem_some_iff] at member
    subst member
    exact symbol
  intro last member
  cases derived with
  | scalar scalar => exact absurd symbolic scalar
  | emptyArray => exact closes rfl member
  | emptyObject => exact closes rfl member
  | array _ =>
      rw [getLast?_bracketed] at member
      exact closes rfl member
  | object _ =>
      rw [getLast?_bracketed] at member
      exact closes rfl member

/-- A JSON text without literals and without arrays directly in arrays, whose strings neither
begin with a symbol nor end with a backslash. -/
def PlainText (text : List Byte) : Prop :=
  ∃ first tokens, Spelled text (first :: tokens) ∧ first.tp = tokSymbol ∧
    Derives false .value (first :: tokens) ∧ ∀ token ∈ first :: tokens, token.Plain

/-- A text without nested arrays is a text that may have them. -/
theorem Derives.nested {phrase : Phrase} (derived : Derives false phrase tokens) :
    Derives true phrase tokens := by
  induction derived with
  | scalar scalar => exact .scalar scalar
  | emptyArray => exact .emptyArray
  | emptyObject => exact .emptyObject
  | array _ ih => exact .array ih
  | object _ ih => exact .object ih
  | lastElement _ _ ih => exact .lastElement ih (.inl rfl)
  | element _ _ _ value rest => exact .element value (.inl rfl) rest
  | lastMember string _ ih => exact .lastMember string ih
  | member string _ _ value rest => exact .member string value rest

/-- An array or an object begins with its bracket. -/
theorem Derives.begins {nested : Bool} {first : Token}
    (derived : Derives nested .value (first :: tokens)) (symbolic : first.tp = tokSymbol) :
    first = symbolToken 91 ∨ first = symbolToken 123 := by
  cases derived with
  | scalar scalar => exact absurd symbolic scalar
  | emptyArray => exact .inl rfl
  | emptyObject => exact .inr rfl
  | array _ => exact .inl rfl
  | object _ => exact .inr rfl

/-- A plain text is among those on which the parser agrees with the grammar. -/
theorem plainText_agrees {text : List Byte} (clean : 0 ∉ text) (plainText : PlainText text) :
    Agrees text := by
  obtain ⟨first, tokens, spelled, symbolic, derived, plain⟩ := plainText
  have fall := words_iff.mpr
    (lexFrom_spelled spelled plain derived.apart (derived.ends symbolic))
  have kept : (first :: tokens).dropWhile Token.lost = first :: tokens :=
    List.dropWhile_cons_of_neg (by
      rw [Token.lost, symbolic]
      decide)
  unfold Agrees
  rw [cstr_eq_self clean]
  refine .inl ⟨⟨first, tokens, spelled, symbolic, derived.nested⟩, _, fall, ?_⟩
  rw [kept]
  obtain ⟨_, inner, same, ⟨rfl, scalar⟩ | ⟨rfl, nested⟩ | ⟨rfl, nested⟩⟩ := derived.passes plain
  · cases same
    rcases derived.begins symbolic with rfl | rfl <;> exact absurd scalar (by decide)
  · cases same
    have inside := nested []
    rw [List.append_nil] at inside
    exact .array rfl inside
  · cases same
    have inside := nested []
    rw [List.append_nil] at inside
    exact .object rfl inside

end Pqfh.Json
