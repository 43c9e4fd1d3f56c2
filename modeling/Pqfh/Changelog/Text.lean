import Pqfh.Table.Record

/-! # The texts of the changelog

A trigger puts a row of the changelog for each change of a table, with the values of the row
changed as one text. `create_changelog_function` writes the trigger function: for each column an
expression that gives its text, empty for NULL, and bars between them. `sync_execute` and
`apply_changelog` take the text apart again and fill the record area.

A bar in a value is not marked in any way, and the zeros of a NULL number with decimals are too
many. `Pqfh.rebuilds_iff`: on all other rows the record is rebuilt.
-/

namespace Pqfh

/-! ## The trigger function -/

/-- An expression of the trigger function. -/
inductive ChangelogExpr where
  /-- `coalesce(NEW.name, '')`, or `coalesce(NEW.name::varchar, '')`, for the column at a
  position. -/
  | column (i : ℕ) (varchar : Bool)
  | bar
  | concat (left right : ChangelogExpr)
  deriving Repr, DecidableEq

/-- The expression as `create_changelog_function` writes it, for OLD or NEW. -/
def ChangelogExpr.sql (cols : List Column) (record : String) : ChangelogExpr → String
  | .column i varchar =>
      "coalesce(" ++ record ++ "." ++ ((cols[i]?.map Column.name).getD "") ++
        (if varchar then "::varchar" else "") ++ ", '')  "
  | .bar => "'|'"
  | .concat left right => left.sql cols record ++ " || " ++ right.sql cols record

/-- The expression of a column. -/
def columnExpr (col : Column) (i : ℕ) : ChangelogExpr := .column i (col.tp = .numeric)

/-- The loop of `create_changelog_function` after the first column. -/
def concatColumns : List Column → ℕ → ChangelogExpr → ChangelogExpr
  | [], _, expr => expr
  | col :: cols, i, expr =>
      concatColumns cols (i + 1) (.concat (.concat expr .bar) (columnExpr col i))

/-- The sizes of `aux` and of `old` and `new`, without the NUL at the end. -/
def auxSize : ℕ := 256
def dataSize : ℕ := 8192

/-- `create_changelog_function`: the expression assigned to `old_data` and to `new_data`. Without
columns the assignments are never set. -/
def createChangelogFunction : List Column → Except Stop ChangelogExpr
  | [] => .error .undefined
  | col :: cols =>
      let expr := concatColumns cols 1 (columnExpr col 0)
      let old := "            old_data := " ++ expr.sql (col :: cols) "OLD" ++ ";"
      let new := "            new_data := " ++ expr.sql (col :: cols) "NEW" ++ ";"
      if (∀ other ∈ col :: cols,
            other.name.utf8ByteSize + (if other.tp = .numeric then 27 else 18) ≤ auxSize) ∧
          old.utf8ByteSize ≤ dataSize ∧ new.utf8ByteSize ≤ dataSize then .ok expr
      else .error .undefined

/-- The text of a value in the changelog. A number is cast to `varchar`; a character value loses
the blanks at its end when it is taken for a text. -/
def columnText (col : Column) : Value → List Byte
  | .null => []
  | .num number => printValue col (.num number)
  | .chr text => rtrim text

/-- What the expression gives for a row. -/
def ChangelogExpr.eval (cols : List Column) (row : Row) : ChangelogExpr → List Byte
  | .column i _ =>
      match cols[i]?, row[i]? with
      | some col, some value => columnText col value
      | _, _ => []
  | .bar => [124]
  | .concat left right => left.eval cols row ++ right.eval cols row

/-- The texts of values with bars between them. -/
def joinTexts : List (List Byte) → List Byte
  | [] => []
  | [text] => text
  | text :: rest => text ++ 124 :: joinTexts rest

/-- The text that the trigger function puts for a row. -/
def changelogText (cols : List Column) (row : Row) : List Byte :=
  joinTexts (List.zipWith columnText cols row)

theorem joinTexts_cons {text : List Byte} {rest : List (List Byte)} (more : rest ≠ []) :
    joinTexts (text :: rest) = text ++ 124 :: joinTexts rest := by
  cases rest with
  | nil => exact (more rfl).elim
  | cons _ _ => rfl

theorem drop_eq_cons {α : Type} {whole rest : List α} {first : α} {i : ℕ}
    (place : whole.drop i = first :: rest) :
    whole[i]? = some first ∧ whole.drop (i + 1) = rest := by
  refine ⟨?_, ?_⟩
  · rw [← List.head?_drop, place]
    rfl
  · rw [← List.drop_drop, place]
    rfl

theorem joinTexts_join (front text : List Byte) (rest : List (List Byte)) :
    joinTexts ((front ++ [124] ++ text) :: rest) = joinTexts (front :: text :: rest) := by
  rw [joinTexts_cons (List.cons_ne_nil text rest), List.append_assoc]
  cases rest with
  | nil => rfl
  | cons next rest =>
      rw [joinTexts_cons (List.cons_ne_nil next rest), joinTexts_cons (List.cons_ne_nil next rest),
        List.append_assoc, List.append_assoc]
      rfl

/-- The loop puts the texts of the columns after what is there. -/
theorem concatColumns_eval (whole : List Column) (row : Row) :
    ∀ (cols : List Column) (values : Row) (i : ℕ) (expr : ChangelogExpr),
      values.length = cols.length → whole.drop i = cols → row.drop i = values →
      (concatColumns cols i expr).eval whole row =
        joinTexts (expr.eval whole row :: List.zipWith columnText cols values) := by
  intro cols
  induction cols with
  | nil =>
      intro values i expr _ _ _
      rfl
  | cons col cols ih =>
      intro values i expr length place place'
      cases values with
      | nil => cases length
      | cons value values =>
          obtain ⟨here, later⟩ := drop_eq_cons place
          obtain ⟨here', later'⟩ := drop_eq_cons place'
          rw [concatColumns, ih values (i + 1) _ (Nat.succ.inj length) later later',
            List.zipWith_cons_cons]
          simp only [ChangelogExpr.eval, columnExpr, here, here']
          exact joinTexts_join _ _ _

/-- The trigger function puts the text of each column, with bars between them. -/
theorem createChangelogFunction_eval {cols : List Column} {expr : ChangelogExpr} {row : Row}
    (created : createChangelogFunction cols = .ok expr) (typed : row.length = cols.length) :
    expr.eval cols row = changelogText cols row := by
  cases cols with
  | nil => cases created
  | cons col cols =>
      cases row with
      | nil => cases typed
      | cons value row =>
          simp only [createChangelogFunction] at created
          split at created
          case isFalse => cases created
          case isTrue =>
            cases created
            exact concatColumns_eval (col :: cols) (value :: row) cols row 1 _ (Nat.succ.inj typed)
              rfl rfl

end Pqfh
