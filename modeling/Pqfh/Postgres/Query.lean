import Pqfh.Postgres.Session

/-! # Queries and their cursors

The query of a START has a condition, a text that the server reads with the precedence of
SQL, and an ORDER BY part. A cursor WITH HOLD keeps the rows that the query finds when it is
declared.
-/

namespace Pqfh

/-! ## Conditions -/

/-- A condition as the server reads it. -/
inductive Expr where
  | compare (i : ℕ) (op : Comparison) (value : Value)
  | and (left right : Expr)
  | or (left right : Expr)
  deriving DecidableEq

/-- The value of a literal. A number is a plain numeral. -/
def Token.literal : Token → Option Value
  | .number text => (plainNumeral text).map .num
  | .quoted text => some (.chr (rtrim text))
  | _ => none

/-- What is read next: OR binds weaker than AND. -/
inductive Level where
  | disjunction
  | conjunction
  | comparison

/-- Read an expression of a level, and what is left after it. -/
def parse : ℕ → Level → List Token → Option (Expr × List Token)
  | 0, _, _ => none
  | n + 1, .disjunction, tokens =>
      match parse n .conjunction tokens with
      | some (left, .or :: rest) =>
          (parse n .disjunction rest).map fun right => (.or left right.1, right.2)
      | other => other
  | n + 1, .conjunction, tokens =>
      match parse n .comparison tokens with
      | some (left, .and :: rest) =>
          (parse n .conjunction rest).map fun right => (.and left right.1, right.2)
      | other => other
  | _ + 1, .comparison, .column i :: .compare op :: literal :: rest =>
      literal.literal.map fun value => (.compare i op value, rest)
  | n + 1, .comparison, .opening :: rest =>
      match parse n .disjunction rest with
      | some (inner, .closing :: rest) => some (inner, rest)
      | _ => none
  | _ + 1, .comparison, _ => none

/-- The condition that words write. Each word adds at most three levels. -/
def readCondition (tokens : List Token) : Option Expr :=
  match parse (3 * tokens.length + 3) .disjunction tokens with
  | some (condition, []) => some condition
  | _ => none

/-! ## Order -/

/-- The order of values. NULL comes last. -/
def Postgres.valueLe (pg : Postgres) : Value → Value → Bool
  | _, .null => true
  | .null, _ => false
  | .num a, .num b => a ≤ b
  | .num _, .chr _ => true
  | .chr _, .num _ => false
  | .chr a, .chr b => pg.textLe a b

/-- A comparison of two values, which does not hold of NULL. -/
def Postgres.compares (pg : Postgres) (op : Comparison) (left right : Value) : Bool :=
  left ≠ .null && right ≠ .null && match op with
    | .eq => left = right
    | .gt => pg.valueLe right left && left ≠ right
    | .ge => pg.valueLe right left
    | .lt => pg.valueLe left right && left ≠ right
    | .le => pg.valueLe left right

/-- A row meets a condition that the server has read. -/
def Expr.holds (pg : Postgres) (row : Row) : Expr → Bool
  | .compare i op value => pg.compares op (row.getD i .null) value
  | .and left right => left.holds pg row && right.holds pg row
  | .or left right => left.holds pg row || right.holds pg row

/-- The order of rows by columns, each ascending or descending. -/
def Postgres.rowLe (pg : Postgres) : List (ℕ × Bool) → Row → Row → Bool
  | [], _, _ => true
  | (i, desc) :: rest, a, b =>
      if a.getD i .null = b.getD i .null then pg.rowLe rest a b
      else if desc then pg.valueLe (b.getD i .null) (a.getD i .null)
      else pg.valueLe (a.getD i .null) (b.getD i .null)

/-- The rows that a query finds, in their order. -/
def Postgres.query (pg : Postgres) (tokens : List Token) (order : List (ℕ × Bool))
    (rows : List Row) : Option (List Row) :=
  match readCondition tokens with
  | some condition => some (pg.arrange (pg.rowLe order) (rows.filter (condition.holds pg)))
  | none => pg.unforeseen tokens rows

/-! ## Cursors -/

/-- The cursor of an open table set to something. -/
def Conn.setCursor (conn : Conn) (handle : ℕ) (cursor : Option Cursor) : Conn :=
  { conn with cursors := Function.update conn.cursors handle cursor }

/-- DECLARE CURSOR WITH HOLD: the connection after, and whether it succeeded. -/
def Conn.declare (pg : Postgres) (conn : Conn) (handle relation : ℕ) (tokens : List Token)
    (order : List (ℕ × Bool)) : Conn × Bool :=
  if conn.aborted then (conn, false)
  else
    match conn.cursors handle, (conn.working relation).bind (pg.query tokens order) with
    | none, some rows => (conn.setCursor handle (some ⟨rows, false⟩), true)
    | _, _ => (conn.fail, false)

/-- FETCH NEXT: the connection after, and the row if there is one. -/
def Conn.fetch (conn : Conn) (handle : ℕ) : Conn × Option Row :=
  if conn.aborted then (conn, none)
  else
    match conn.cursors handle with
    | none => (conn.fail, none)
    | some ⟨[], _⟩ => (conn, none)
    | some ⟨row :: rows, held⟩ => (conn.setCursor handle (some ⟨rows, held⟩), some row)

/-- CLOSE of a cursor. -/
def Conn.closeCursor (conn : Conn) (handle : ℕ) : Conn :=
  if conn.aborted then conn
  else if (conn.cursors handle).isSome then conn.setCursor handle none
  else conn.fail

/-! ## Orders are orders -/

variable (pg : Postgres)

theorem Postgres.valueLe_total (a b : Value) : pg.valueLe a b = true ∨ pg.valueLe b a = true := by
  cases a <;> cases b <;> simp [Postgres.valueLe, pg.textLe_total, le_total]

theorem Postgres.valueLe_trans {a b c : Value} (one : pg.valueLe a b = true)
    (two : pg.valueLe b c = true) : pg.valueLe a c = true := by
  cases a <;> cases b <;> cases c <;>
    simp only [Postgres.valueLe, decide_eq_true_eq, Bool.false_eq_true] at one two ⊢
  · exact one.trans two
  · exact pg.textLe_trans _ _ _ one two

theorem Postgres.valueLe_antisymm {a b : Value} (one : pg.valueLe a b = true)
    (two : pg.valueLe b a = true) : a = b := by
  cases a <;> cases b <;>
    simp only [Postgres.valueLe, decide_eq_true_eq, Bool.false_eq_true] at one two
  · rfl
  · rw [le_antisymm one two]
  · rw [pg.textLe_antisymm _ _ one two]

theorem Postgres.rowLe_total (order : List (ℕ × Bool)) (a b : Row) :
    pg.rowLe order a b = true ∨ pg.rowLe order b a = true := by
  induction order with
  | nil => exact Or.inl rfl
  | cons column rest ih =>
      obtain ⟨i, desc⟩ := column
      by_cases same : a.getD i .null = b.getD i .null
      · simp only [Postgres.rowLe, same, ↓reduceIte]
        exact ih
      · simp only [Postgres.rowLe, same, Ne.symm same, ↓reduceIte]
        cases desc with
        | false => exact pg.valueLe_total _ _
        | true => exact pg.valueLe_total _ _

theorem Postgres.rowLe_trans (order : List (ℕ × Bool)) (a b c : Row)
    (one : pg.rowLe order a b = true) (two : pg.rowLe order b c = true) :
    pg.rowLe order a c = true := by
  induction order with
  | nil => rfl
  | cons column rest ih =>
      obtain ⟨i, desc⟩ := column
      unfold Postgres.rowLe at one two ⊢
      generalize a.getD i .null = x at *
      generalize b.getD i .null = y at *
      generalize c.getD i .null = z at *
      by_cases xy : x = y
      · subst xy
        by_cases xz : x = z
        · rw [if_pos xz] at two ⊢
          rw [if_pos rfl] at one
          exact ih one two
        · rw [if_neg xz] at two ⊢
          exact two
      · rw [if_neg xy] at one
        by_cases yz : y = z
        · subst yz
          rw [if_neg xy]
          exact one
        · rw [if_neg yz] at two
          cases desc with
          | false =>
              by_cases xz : x = z
              · subst xz
                exact absurd (pg.valueLe_antisymm one two) xy
              · rw [if_neg xz]
                exact pg.valueLe_trans one two
          | true =>
              by_cases xz : x = z
              · subst xz
                exact absurd (pg.valueLe_antisymm two one) xy
              · rw [if_neg xz]
                exact pg.valueLe_trans two one

/-- The rows of a query whose condition is read: those that meet it, in order. -/
theorem Postgres.query_sorted {tokens : List Token} {condition : Expr} (order : List (ℕ × Bool))
    (rows : List Row) (read : readCondition tokens = some condition) :
    ∃ found, pg.query tokens order rows = some found ∧
      found.Perm (rows.filter (condition.holds pg)) ∧
      found.Pairwise fun a b => pg.rowLe order a b = true := by
  refine ⟨pg.arrange (pg.rowLe order) (rows.filter (condition.holds pg)), ?_, ?_, ?_⟩
  · unfold Postgres.query
    rw [read]
  · exact pg.arrange_perm _ _
  · exact pg.arrange_sorted _ _ (pg.rowLe_total order) (pg.rowLe_trans order)

end Pqfh
