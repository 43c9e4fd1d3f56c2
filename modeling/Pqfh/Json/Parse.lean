import Pqfh.Core.Stop
import Pqfh.Json.Lex

/-! # The parser of JSON texts

`parse_array` and `parse_object` read the list of tokens and append children to an element;
both take a token for a symbol by its first character. An error is noted in `ok`, which is
global, and does not stop the parser.
-/

namespace Pqfh.Json

/-- What `parse_array` and `parse_object` return and leave: the tokens not read, the
children of the element and `ok`. -/
abbrev Parsed := List Token × List JElement × Bool

/-- `tok->buf[0]`, which is NUL in an empty text. -/
def Token.first (token : Token) : Byte := token.buf.headD 0

mutual

/-- `parse_array`. The first argument bounds the depth of the calls and the turns of the
loop; the number of tokens is always enough. -/
def parseArray : ℕ → List Token → List JElement → Bool → Except Stop Parsed
  | 0, tokens, children, ok => .ok (tokens, children, ok)
  | _ + 1, [], children, ok => .ok ([], children, ok)
  | fuel + 1, tok :: tokens, children, ok =>
      if tok.first = 93 then .ok (tokens, children, ok)
      else if tok.first = 44 then parseArray fuel tokens children ok
      else if tok.first = 123 then do
        let inner ← parseObject fuel tokens [] ok
        parseArray fuel inner.1 (children ++ [⟨none, tpObject, none, inner.2.1⟩]) inner.2.2
      else parseArray fuel tokens (children ++ [⟨none, tok.tp, some tok.buf, []⟩]) ok

/-- `parse_object` -/
def parseObject : ℕ → List Token → List JElement → Bool → Except Stop Parsed
  | 0, tokens, children, ok => .ok (tokens, children, ok)
  | _ + 1, [], children, ok => .ok ([], children, ok)
  | fuel + 1, tok :: tokens, children, ok =>
      if tok.first = 125 then .ok (tokens, children, ok)
      else if tok.first = 44 then parseObject fuel tokens children ok
      else
        match tokens with
        -- `ptr->buf` is read, and `ptr` is NULL
        | [] => .error .undefined
        | [_] => .error .undefined
        | colon :: value :: tokens =>
            let ok := ok && tok.tp = tokString && colon.buf = [58]
            if value.first = 91 then do
              let inner ← parseArray fuel tokens [] ok
              parseObject fuel inner.1
                (children ++ [⟨some tok.buf, tpArray, none, inner.2.1⟩]) inner.2.2
            else if value.first = 123 then do
              let inner ← parseObject fuel tokens [] ok
              parseObject fuel inner.1
                (children ++ [⟨some tok.buf, tpObject, none, inner.2.1⟩]) inner.2.2
            else
              parseObject fuel tokens
                (children ++ [⟨some tok.buf, value.tp, some value.buf, []⟩]) ok

end

/-- The element that the callers of `parse` allocate. -/
def freshElement : JElement := ⟨none, 0, none, []⟩

/-- `parse`: the result, and the root. -/
def parse (json : List Byte) : Except Stop (Bool × JElement) :=
  match lex json with
  | [] => .ok (false, freshElement)
  | tok :: tokens =>
      if tok.buf = [91] then do
        let parsed ← parseArray tokens.length tokens [] true
        .ok (parsed.2.2, ⟨none, tpArray, none, parsed.2.1⟩)
      else if tok.buf = [123] then do
        let parsed ← parseObject tokens.length tokens [] true
        .ok (parsed.2.2, ⟨none, tpObject, none, parsed.2.1⟩)
      else .ok (false, freshElement)

/-! ## The bound -/

/-- The tokens that are left are no more than there were. -/
theorem parse_suffix (fuel : ℕ) :
    (∀ {tokens : List Token} {children : List JElement} {ok : Bool} {parsed : Parsed},
      parseArray fuel tokens children ok = .ok parsed → parsed.1.length ≤ tokens.length) ∧
    (∀ {tokens : List Token} {children : List JElement} {ok : Bool} {parsed : Parsed},
      parseObject fuel tokens children ok = .ok parsed → parsed.1.length ≤ tokens.length) := by
  induction fuel with
  | zero =>
      constructor
      · intro tokens children ok parsed ended
        unfold parseArray at ended
        cases ended
        exact le_rfl
      · intro tokens children ok parsed ended
        unfold parseObject at ended
        cases ended
        exact le_rfl
  | succ fuel ih =>
      obtain ⟨array, object⟩ := ih
      constructor
      · intro tokens children ok parsed ended
        cases tokens with
        | nil =>
            unfold parseArray at ended
            cases ended
            exact le_rfl
        | cons tok tokens =>
            unfold parseArray at ended
            rw [List.length_cons]
            split_ifs at ended
            · cases ended
              exact Nat.le_succ _
            · exact Nat.le_succ_of_le (array ended)
            · obtain ⟨inner, opened, rest⟩ := bind_eq_ok.mp ended
              exact Nat.le_succ_of_le ((array rest).trans (object opened))
            · exact Nat.le_succ_of_le (array ended)
      · intro tokens children ok parsed ended
        match tokens with
        | [] =>
            unfold parseObject at ended
            cases ended
            exact le_rfl
        | [tok] =>
            unfold parseObject at ended
            simp only at ended
            split_ifs at ended
            · cases ended
              exact Nat.zero_le _
            · exact Nat.le_succ_of_le (object ended)
        | [tok, colon] =>
            unfold parseObject at ended
            simp only at ended
            split_ifs at ended
            · cases ended
              exact Nat.le_succ _
            · exact Nat.le_succ_of_le (object ended)
        | tok :: colon :: value :: tokens =>
            unfold parseObject at ended
            simp only at ended
            simp only [List.length_cons]
            split_ifs at ended
            · cases ended
              exact Nat.le_succ _
            · exact Nat.le_succ_of_le (object ended)
            · obtain ⟨inner, opened, rest⟩ := bind_eq_ok.mp ended
              have := (object rest).trans (array opened)
              omega
            · obtain ⟨inner, opened, rest⟩ := bind_eq_ok.mp ended
              have := (object rest).trans (object opened)
              omega
            · have := object ended
              omega

/-- Computations that agree on every result agree. -/
theorem bind_congr_ok {α β : Type} {first : Except Stop α} {left right : α → Except Stop β}
    (same : ∀ middle, first = .ok middle → left middle = right middle) :
    (first >>= left) = (first >>= right) := by
  cases first with
  | error stop => rfl
  | ok middle => exact same middle rfl

/-- With a bound of at least the number of tokens the bound plays no part. -/
theorem parse_enough (fuel : ℕ) : ∀ {more : ℕ} {tokens : List Token}
    (children : List JElement) (ok : Bool), tokens.length ≤ fuel → tokens.length ≤ more →
    parseArray fuel tokens children ok = parseArray more tokens children ok ∧
      parseObject fuel tokens children ok = parseObject more tokens children ok := by
  induction fuel with
  | zero =>
      intro more tokens children ok few _
      obtain rfl : tokens = [] := List.length_eq_zero_iff.mp (Nat.le_zero.mp few)
      cases more with
      | zero => exact ⟨rfl, rfl⟩
      | succ more =>
          constructor
          · rw [parseArray, parseArray]
          · rw [parseObject, parseObject]
  | succ fuel ih =>
      intro more tokens children ok few enough
      cases tokens with
      | nil =>
          cases more with
          | zero =>
              constructor
              · rw [parseArray, parseArray]
              · rw [parseObject, parseObject]
          | succ more =>
              constructor
              · rw [parseArray, parseArray]
              · rw [parseObject, parseObject]
      | cons tok tokens =>
          obtain ⟨more, rfl⟩ : ∃ less, more = less + 1 :=
            ⟨more - 1, by rw [List.length_cons] at enough; omega⟩
          rw [List.length_cons] at few enough
          have fewer : tokens.length ≤ fuel := Nat.le_of_succ_le_succ few
          have covered : tokens.length ≤ more := Nat.le_of_succ_le_succ enough
          constructor
          · rw [parseArray, parseArray]
            split_ifs
            · rfl
            · exact (ih children ok fewer covered).1
            · rw [(ih [] ok fewer covered).2]
              apply bind_congr_ok
              intro inner opened
              have left := (parse_suffix more).2 opened
              exact (ih _ _ (left.trans fewer) (left.trans covered)).1
            · exact (ih _ ok fewer covered).1
          · unfold parseObject
            simp only
            split_ifs
            · rfl
            · exact (ih children ok fewer covered).2
            · match tokens with
              | [] => rfl
              | [_] => rfl
              | colon :: value :: tokens =>
                  simp only [List.length_cons] at fewer covered
                  have fewer' : tokens.length ≤ fuel := by omega
                  have covered' : tokens.length ≤ more := by omega
                  simp only
                  split_ifs
                  · rw [(ih [] _ fewer' covered').1]
                    apply bind_congr_ok
                    intro inner opened
                    have left := (parse_suffix more).1 opened
                    exact (ih _ _ (left.trans fewer') (left.trans covered')).2
                  · rw [(ih [] _ fewer' covered').2]
                    apply bind_congr_ok
                    intro inner opened
                    have left := (parse_suffix more).2 opened
                    exact (ih _ _ (left.trans fewer') (left.trans covered')).2
                  · exact (ih _ _ fewer' covered').2

/-! ## The parser without the bound -/

/-- `parse_array` from a token on. -/
def arrayFrom (tokens : List Token) (children : List JElement) (ok : Bool) :
    Except Stop Parsed :=
  parseArray tokens.length tokens children ok

/-- `parse_object` from a token on. -/
def objectFrom (tokens : List Token) (children : List JElement) (ok : Bool) :
    Except Stop Parsed :=
  parseObject tokens.length tokens children ok

variable {tok colon value : Token} {tokens : List Token} {children : List JElement} {ok : Bool}

/-- With enough fuel `parse_array` does not depend on it. -/
theorem parseArray_eq {fuel : ℕ} (enough : tokens.length ≤ fuel) (children : List JElement)
    (ok : Bool) : parseArray fuel tokens children ok = arrayFrom tokens children ok :=
  (parse_enough fuel children ok enough le_rfl).1

/-- With enough fuel `parse_object` does not depend on it. -/
theorem parseObject_eq {fuel : ℕ} (enough : tokens.length ≤ fuel) (children : List JElement)
    (ok : Bool) : parseObject fuel tokens children ok = objectFrom tokens children ok :=
  (parse_enough fuel children ok enough le_rfl).2

/-- The end of the tokens ends an array. -/
theorem arrayFrom_nil (children : List JElement) (ok : Bool) :
    arrayFrom [] children ok = .ok ([], children, ok) := rfl

/-- So does its closing bracket. -/
theorem arrayFrom_close (close : tok.first = 93) :
    arrayFrom (tok :: tokens) children ok = .ok (tokens, children, ok) := by
  rw [arrayFrom, List.length_cons, parseArray, if_pos close]

/-- A comma is passed over. -/
theorem arrayFrom_comma (comma : tok.first = 44) :
    arrayFrom (tok :: tokens) children ok = arrayFrom tokens children ok := by
  rw [arrayFrom, List.length_cons, parseArray, if_neg (by rw [comma]; decide), if_pos comma]
  rfl

/-- A brace begins an object in the array. -/
theorem arrayFrom_object (brace : tok.first = 123) :
    arrayFrom (tok :: tokens) children ok = (do
      let inner ← objectFrom tokens [] ok
      arrayFrom inner.1 (children ++ [⟨none, tpObject, none, inner.2.1⟩]) inner.2.2) := by
  rw [arrayFrom, List.length_cons, parseArray, if_neg (by rw [brace]; decide),
    if_neg (by rw [brace]; decide), if_pos brace]
  apply bind_congr_ok
  intro inner opened
  exact parseArray_eq ((parse_suffix _).2 opened) _ _

/-- The tokens that `parse_array` does not take for a child by their first character. -/
def leavesArray (ch : Byte) : Bool := ch = 93 || ch = 44 || ch = 123

/-- Any other token is an element. -/
theorem arrayFrom_value (plain : leavesArray tok.first = false) :
    arrayFrom (tok :: tokens) children ok =
      arrayFrom tokens (children ++ [⟨none, tok.tp, some tok.buf, []⟩]) ok := by
  unfold leavesArray at plain
  simp only [Bool.or_eq_false_iff, decide_eq_false_iff_not] at plain
  rw [arrayFrom, List.length_cons, parseArray, if_neg plain.1.1, if_neg plain.1.2,
    if_neg plain.2]
  rfl

/-- The end of the tokens ends an object. -/
theorem objectFrom_nil (children : List JElement) (ok : Bool) :
    objectFrom [] children ok = .ok ([], children, ok) := rfl

/-- So does its closing brace. -/
theorem objectFrom_close (close : tok.first = 125) :
    objectFrom (tok :: tokens) children ok = .ok (tokens, children, ok) := by
  unfold objectFrom
  rw [List.length_cons]
  unfold parseObject
  simp only [close, ↓reduceIte]

/-- A comma is passed over in an object too. -/
theorem objectFrom_comma (comma : tok.first = 44) :
    objectFrom (tok :: tokens) children ok = objectFrom tokens children ok := by
  unfold objectFrom
  rw [List.length_cons, parseObject.eq_def]
  simp only
  rw [if_neg (by rw [comma]; decide), if_pos comma]

/-- The tokens that `parse_object` does not take for a name by their first character. -/
def leavesObject (ch : Byte) : Bool := ch = 125 || ch = 44

/-- Without two tokens behind the name a null pointer is read. -/
theorem objectFrom_short (plain : leavesObject tok.first = false) (short : tokens.length < 2) :
    objectFrom (tok :: tokens) children ok = .error .undefined := by
  unfold leavesObject at plain
  simp only [Bool.or_eq_false_iff, decide_eq_false_iff_not] at plain
  unfold objectFrom
  rw [List.length_cons, parseObject.eq_def]
  simp only
  rw [if_neg plain.1, if_neg plain.2]
  match tokens, short with
  | [], _ => rfl
  | [_], _ => rfl

/-- What `parse_object` does with a name, the token behind it and a value. -/
def memberFrom (tok colon value : Token) (tokens : List Token) (children : List JElement)
    (ok : Bool) : Except Stop Parsed :=
  if value.first = 91 then do
    let inner ← arrayFrom tokens [] (ok && tok.tp = tokString && colon.buf = [58])
    objectFrom inner.1 (children ++ [⟨some tok.buf, tpArray, none, inner.2.1⟩]) inner.2.2
  else if value.first = 123 then do
    let inner ← objectFrom tokens [] (ok && tok.tp = tokString && colon.buf = [58])
    objectFrom inner.1 (children ++ [⟨some tok.buf, tpObject, none, inner.2.1⟩]) inner.2.2
  else
    objectFrom tokens (children ++ [⟨some tok.buf, value.tp, some value.buf, []⟩])
      (ok && tok.tp = tokString && colon.buf = [58])

/-- A member with an array. -/
theorem memberFrom_array (bracket : value.first = 91) :
    memberFrom tok colon value tokens children ok = (do
      let inner ← arrayFrom tokens [] (ok && tok.tp = tokString && colon.buf = [58])
      objectFrom inner.1 (children ++ [⟨some tok.buf, tpArray, none, inner.2.1⟩]) inner.2.2) :=
  if_pos bracket

/-- A member with an object. -/
theorem memberFrom_object (brace : value.first = 123) :
    memberFrom tok colon value tokens children ok = (do
      let inner ← objectFrom tokens [] (ok && tok.tp = tokString && colon.buf = [58])
      objectFrom inner.1 (children ++ [⟨some tok.buf, tpObject, none, inner.2.1⟩])
        inner.2.2) := by
  rw [memberFrom, if_neg (by rw [brace]; decide), if_pos brace]

/-- The first characters by which `parse_object` takes a value for an array or an object. -/
def opensValue (ch : Byte) : Bool := ch = 91 || ch = 123

/-- A member with any other value. -/
theorem memberFrom_value (plain : opensValue value.first = false) :
    memberFrom tok colon value tokens children ok =
      objectFrom tokens (children ++ [⟨some tok.buf, value.tp, some value.buf, []⟩])
        (ok && tok.tp = tokString && colon.buf = [58]) := by
  unfold opensValue at plain
  simp only [Bool.or_eq_false_iff, decide_eq_false_iff_not] at plain
  rw [memberFrom, if_neg plain.1, if_neg plain.2]

/-- Any other token than a brace or a comma begins a member. -/
theorem objectFrom_member (plain : leavesObject tok.first = false) :
    objectFrom (tok :: colon :: value :: tokens) children ok =
      memberFrom tok colon value tokens children ok := by
  unfold leavesObject at plain
  simp only [Bool.or_eq_false_iff, decide_eq_false_iff_not] at plain
  unfold objectFrom memberFrom
  simp only [List.length_cons]
  rw [parseObject, if_neg plain.1, if_neg plain.2]
  simp only
  have enough : tokens.length ≤ tokens.length + 2 := Nat.le_add_right _ 2
  split_ifs
  · rw [parseArray_eq enough]
    apply bind_congr_ok
    intro inner opened
    exact parseObject_eq (((parse_suffix _).1 opened).trans enough) _ _
  · rw [parseObject_eq enough]
    apply bind_congr_ok
    intro inner opened
    exact parseObject_eq (((parse_suffix _).2 opened).trans enough) _ _
  · exact parseObject_eq enough _ _

/-- An array leaves no more tokens than there were. -/
theorem arrayFrom_suffix {parsed : Parsed} (ended : arrayFrom tokens children ok = .ok parsed) :
    parsed.1.length ≤ tokens.length :=
  (parse_suffix _).1 ended

/-- An object leaves no more tokens than there were. -/
theorem objectFrom_suffix {parsed : Parsed}
    (ended : objectFrom tokens children ok = .ok parsed) : parsed.1.length ≤ tokens.length :=
  (parse_suffix _).2 ended

end Pqfh.Json
