import Pqfh.Postgres.Query

/-! # Reading the words of a condition

The shape of a condition does not depend on what its literals are: AND binds stronger than OR,
and parentheses are read first. `Pqfh.parseAs` reads words with any reading of the literals, each
taken with the column before it; the server reads numerals and quoted texts (`Pqfh.parse`).
-/

namespace Pqfh

variable (literal : ℕ → Token → Option Value)

/-- Read an expression of a level, with a reading of the literal that a column is compared with. -/
def parseAs : ℕ → Level → List Token → Option (Expr × List Token)
  | 0, _, _ => none
  | n + 1, .disjunction, tokens =>
      match parseAs n .conjunction tokens with
      | some (left, .or :: rest) =>
          (parseAs n .disjunction rest).map fun right => (.or left right.1, right.2)
      | other => other
  | n + 1, .conjunction, tokens =>
      match parseAs n .comparison tokens with
      | some (left, .and :: rest) =>
          (parseAs n .conjunction rest).map fun right => (.and left right.1, right.2)
      | other => other
  | _ + 1, .comparison, .column i :: .compare op :: word :: rest =>
      (literal i word).map fun value => (.compare i op value, rest)
  | n + 1, .comparison, .opening :: rest =>
      match parseAs n .disjunction rest with
      | some (inner, .closing :: rest) => some (inner, rest)
      | _ => none
  | _ + 1, .comparison, _ => none

/-- The condition that words write, with a reading of its literals. -/
def readConditionAs (tokens : List Token) : Option Expr :=
  match parseAs literal (3 * tokens.length + 3) .disjunction tokens with
  | some (condition, []) => some condition
  | _ => none

/-- A condition is parsed with the words read as literals. -/
theorem parse_eq_parseAs (n : ℕ) (level : Level) (tokens : List Token) :
    parse n level tokens = parseAs (fun _ word => word.literal) n level tokens := by
  induction n, level, tokens using parse.induct with
  | case1 => simp only [parse, parseAs]
  | case2 n tokens left rest read ih₁ ih₂ => simp only [parse, parseAs, ← ih₁, ← ih₂, read]
  | case3 n tokens other ih => simp only [parse, parseAs, ← ih]
  | case4 n tokens left rest read ih₁ ih₂ => simp only [parse, parseAs, ← ih₁, ← ih₂, read]
  | case5 n tokens other ih => simp only [parse, parseAs, ← ih]
  | case6 n i op word rest => simp only [parse, parseAs]
  | case7 n rest inner rest' read ih => simp only [parse, parseAs, ← ih, read]
  | case8 n rest other ih => simp only [parse, parseAs, ← ih]
  | case9 n tokens => simp [parse, parseAs]

/-! ## What is read, level by level -/

section Levels

variable {literal : ℕ → Token → Option Value}

/-- A disjunction is a conjunction, or one and a disjunction behind OR. -/
theorem parseAs_disjunction_succ (n : ℕ) (tokens : List Token) :
    parseAs literal (n + 1) .disjunction tokens =
      match parseAs literal n .conjunction tokens with
      | some (left, .or :: rest) =>
          (parseAs literal n .disjunction rest).map fun right => (.or left right.1, right.2)
      | other => other := rfl

/-- A conjunction is a comparison, or one and a conjunction behind AND. -/
theorem parseAs_conjunction_succ (n : ℕ) (tokens : List Token) :
    parseAs literal (n + 1) .conjunction tokens =
      match parseAs literal n .comparison tokens with
      | some (left, .and :: rest) =>
          (parseAs literal n .conjunction rest).map fun right => (.and left right.1, right.2)
      | other => other := rfl

/-- A column, an operator and a word make a comparison. -/
theorem parseAs_comparison {word : Token} {value : Value} {i : ℕ}
    (denoted : literal i word = some value) (n : ℕ) (op : Comparison) (rest : List Token) :
    parseAs literal (n + 1) .comparison (.column i :: .compare op :: word :: rest) =
      some (.compare i op value, rest) := by
  change (literal i word).map (fun value => (Expr.compare i op value, rest)) = _
  rw [denoted]
  rfl

/-- A disjunction between parentheses makes a comparison. -/
theorem parseAs_parentheses {n : ℕ} {tokens rest : List Token} {inner : Expr}
    (read : parseAs literal n .disjunction tokens = some (inner, .closing :: rest)) :
    parseAs literal (n + 1) .comparison (.opening :: tokens) = some (inner, rest) := by
  change (match parseAs literal n .disjunction tokens with
    | some (inner, .closing :: rest) => some (inner, rest)
    | _ => none) = _
  rw [read]

/-- A comparison, AND and a conjunction make a conjunction. -/
theorem parseAs_and {n : ℕ} {tokens rest rest' : List Token} {left right : Expr}
    (read : parseAs literal n .comparison tokens = some (left, .and :: rest))
    (further : parseAs literal n .conjunction rest = some (right, rest')) :
    parseAs literal (n + 1) .conjunction tokens = some (.and left right, rest') := by
  rw [parseAs_conjunction_succ, read]
  dsimp only
  rw [further]
  rfl

/-- A conjunction, OR and a disjunction make a disjunction. -/
theorem parseAs_or {n : ℕ} {tokens rest rest' : List Token} {left right : Expr}
    (read : parseAs literal n .conjunction tokens = some (left, .or :: rest))
    (further : parseAs literal n .disjunction rest = some (right, rest')) :
    parseAs literal (n + 1) .disjunction tokens = some (.or left right, rest') := by
  rw [parseAs_disjunction_succ, read]
  dsimp only
  rw [further]
  rfl

/-- A comparison without AND behind it is a conjunction. -/
theorem parseAs_conjunction {n : ℕ} {tokens rest : List Token} {condition : Expr}
    (read : parseAs literal n .comparison tokens = some (condition, rest))
    (ended : rest.head? ≠ some .and) :
    parseAs literal (n + 1) .conjunction tokens = some (condition, rest) := by
  rw [parseAs_conjunction_succ, read]
  split
  · rename_i equal
    cases equal
    exact (ended rfl).elim
  · rfl

/-- A conjunction without OR behind it is a disjunction. -/
theorem parseAs_disjunction {n : ℕ} {tokens rest : List Token} {condition : Expr}
    (read : parseAs literal n .conjunction tokens = some (condition, rest))
    (ended : rest.head? ≠ some .or) :
    parseAs literal (n + 1) .disjunction tokens = some (condition, rest) := by
  rw [parseAs_disjunction_succ, read]
  split
  · rename_i equal
    cases equal
    exact (ended rfl).elim
  · rfl

end Levels

/-! ## Words that are read whole -/

/-- Words that are read as a condition, whatever closes it. -/
def ReadsAs (level : Level) (fuel : ℕ) (tokens : List Token) (condition : Expr) : Prop :=
  ∀ n rest, fuel ≤ n → rest.head? ≠ some .and → rest.head? ≠ some .or →
    parseAs literal n level (tokens ++ rest) = some (condition, rest)

variable {literal}

/-- More fuel reads the same condition. -/
theorem ReadsAs.mono {level : Level} {fuel more : ℕ} {tokens : List Token} {condition : Expr}
    (read : ReadsAs literal level fuel tokens condition) (enough : fuel ≤ more) :
    ReadsAs literal level more tokens condition :=
  fun n rest large => read n rest (enough.trans large)

/-- A conjunction is read as a disjunction. -/
theorem ReadsAs.disjunction {fuel : ℕ} {tokens : List Token} {condition : Expr}
    (read : ReadsAs literal .conjunction fuel tokens condition) :
    ReadsAs literal .disjunction (fuel + 1) tokens condition := by
  intro n rest enough noAnd noOr
  obtain ⟨n, rfl⟩ := Nat.exists_eq_add_of_le' enough
  exact parseAs_disjunction (read (n + fuel) rest (by omega) noAnd noOr) noOr

/-- A comparison with the last column is read. -/
theorem readsAs_last {word : Token} {value : Value} {i : ℕ} (denoted : literal i word = some value)
    (op : Comparison) :
    ReadsAs literal .conjunction 2 [.column i, .compare op, word] (.compare i op value) := by
  intro n rest enough noAnd noOr
  obtain ⟨n, rfl⟩ := Nat.exists_eq_add_of_le' enough
  exact parseAs_conjunction (parseAs_comparison denoted n op rest) noAnd

/-- An equality in front of a condition is read with it. -/
theorem readsAs_eq {fuel : ℕ} {word : Token} {value : Value} {i : ℕ} {tokens : List Token}
    {condition : Expr} (denoted : literal i word = some value)
    (read : ReadsAs literal .conjunction fuel tokens condition) (enough : 1 ≤ fuel) :
    ReadsAs literal .conjunction (fuel + 1) ([.column i, .compare .eq, word, .and] ++ tokens)
      (.and (.compare i .eq value) condition) := by
  intro n rest large noAnd noOr
  obtain ⟨k, rfl⟩ := Nat.exists_eq_add_of_le' (by omega : 2 ≤ n)
  exact parseAs_and (parseAs_comparison denoted k .eq _) (read (k + 1) rest (by omega) noAnd noOr)

/-- The words for a column before the last, of a comparison that is no equality. -/
theorem readsAs_strict {fuel : ℕ} {word : Token} {value : Value} {i : ℕ} {tokens : List Token}
    {condition : Expr} (denoted : literal i word = some value) (op : Comparison)
    (read : ReadsAs literal .disjunction fuel tokens condition) :
    ReadsAs literal .disjunction (fuel + 8)
      ([.column i, .compare op, word, .or, .opening, .column i, .compare .eq, word, .and,
        .opening] ++ tokens ++ [.closing, .closing])
      (.or (.compare i op value) (.and (.compare i .eq value) condition)) := by
  intro n rest enough noAnd noOr
  obtain ⟨n, rfl⟩ := Nat.exists_eq_add_of_le' enough
  have words : [.column i, .compare op, word, .or, .opening, .column i, .compare .eq, word,
      .and, .opening] ++ tokens ++ [.closing, .closing] ++ rest =
      .column i :: .compare op :: word :: .or :: .opening :: .column i :: .compare .eq ::
        word :: .and :: .opening :: (tokens ++ .closing :: .closing :: rest) := by
    simp only [List.cons_append, List.append_assoc, List.nil_append]
  rw [words]
  -- from the innermost parentheses outwards
  have inner := parseAs_parentheses (read (n + fuel) (.closing :: .closing :: rest) (by omega)
    (by simp) (by simp))
  have second := parseAs_and (parseAs_comparison denoted (n + fuel + 1) .eq
      (.and :: .opening :: (tokens ++ .closing :: .closing :: rest)))
    (parseAs_conjunction inner (by simp))
  have outer := parseAs_parentheses (parseAs_disjunction second (by simp))
  have right := parseAs_disjunction (parseAs_conjunction outer noAnd) noOr
  have left := parseAs_conjunction (parseAs_comparison denoted (n + fuel + 5) op
    (.or :: .opening :: .column i :: .compare .eq :: word :: .and :: .opening ::
      (tokens ++ .closing :: .closing :: rest))) (by simp)
  exact parseAs_or left right

/-- Words that are read whole write their condition. -/
theorem ReadsAs.condition {fuel : ℕ} {tokens : List Token} {condition : Expr}
    (read : ReadsAs literal .disjunction fuel tokens condition)
    (enough : fuel ≤ 3 * tokens.length + 3) :
    readConditionAs literal tokens = some condition := by
  have parsed := read (3 * tokens.length + 3) [] enough (by exact nofun) (by exact nofun)
  rw [List.append_nil] at parsed
  unfold readConditionAs
  rw [parsed]

end Pqfh
