import Mathlib.Logic.Function.Basic
import Pqfh.Postgres.Value

/-! # The connection to the server

The handler works in one long transaction, begun when it connects and begun anew after
each commit. A statement that fails aborts the transaction: every later statement fails,
and the COMMIT at its end rolls back. Cursors are declared WITH HOLD: they keep the rows
found when declared, and outlive the transaction unless it is rolled back.
-/

namespace Pqfh

/-- A cursor: the rows still to be fetched, and whether a commit has kept it. -/
structure Cursor where
  rows : List Row
  held : Bool

/-- The state of the connection. Cursors are named after the open table they belong to. -/
structure Conn where
  committed : Db
  working : Db
  aborted : Bool
  cursors : ℕ → Option Cursor

/-- A row meets a condition. -/
def meets (condition : Condition) (row : Row) : Bool :=
  condition.all fun equality => row[equality.1]? = some equality.2

/-- A row with some columns set. -/
def setRow (set : List (ℕ × Value)) (row : Row) : Row :=
  set.foldl (fun row assignment => row.set assignment.1 assignment.2) row

/-- What a statement makes of the rows of its relation. -/
def Statement.onRows : Statement → List Row → List Row
  | .insert _ row, rows => rows ++ [row]
  | .update _ set condition, rows =>
      rows.map fun row => if meets condition row then setRow set row else row
  | .delete _ condition, rows => rows.filter fun row => !meets condition row

/-- The relation a statement is about. -/
def Statement.relation : Statement → ℕ
  | .insert relation _ => relation
  | .update relation _ _ => relation
  | .delete relation _ => relation

/-- What a statement makes of a database, unless its relation does not exist. -/
def Statement.apply (statement : Statement) (db : Db) : Option Db :=
  (db statement.relation).map fun rows =>
    Function.update db statement.relation (some (statement.onRows rows))

/-- A statement failed. -/
def Conn.fail (conn : Conn) : Conn := { conn with aborted := true }

/-- Execute a statement: the connection after, and whether it succeeded. The parameters of
a statement without a meaning did not stand for values. -/
def Conn.exec (pg : Postgres) (conn : Conn) (statement : Option Statement) : Conn × Bool :=
  if conn.aborted then (conn, false)
  else
    match statement with
    | none => (conn.fail, false)
    | some statement =>
        match statement.apply conn.working with
        | none => (conn.fail, false)
        | some db =>
            if pg.refuses statement conn.working then (conn.fail, false)
            else ({ conn with working := db }, true)

/-- What a statement about relations makes of a database. -/
def Ddl.apply : Ddl → Db → Option Db
  | .create relation parent, db =>
      if (db parent).isSome ∧ db relation = none then some (Function.update db relation (some []))
      else none
  | .index relation _, db => if (db relation).isSome then some db else none
  | .truncate relation, db =>
      if (db relation).isSome then some (Function.update db relation (some [])) else none
  | .drop relation, db =>
      if (db relation).isSome then some (Function.update db relation none) else none

/-- Execute a statement about relations. -/
def Conn.execDdl (pg : Postgres) (conn : Conn) (ddl : Ddl) : Conn × Bool :=
  if conn.aborted then (conn, false)
  else
    match ddl.apply conn.working with
    | none => (conn.fail, false)
    | some db =>
        if pg.refusesDdl ddl conn.working then (conn.fail, false)
        else ({ conn with working := db }, true)

/-- Select the rows of a relation that meet a condition. -/
def Conn.select (conn : Conn) (relation : ℕ) (condition : Option Condition) :
    Conn × Option (List Row) :=
  if conn.aborted then (conn, none)
  else
    match condition, conn.working relation with
    | some condition, some rows => (conn, some (rows.filter (meets condition)))
    | _, _ => (conn.fail, none)

/-- `PQprepare` of a statement on a relation. The handler exits when it fails. -/
def Conn.prepare (conn : Conn) (relation : ℕ) : Except Stop Unit :=
  if conn.aborted || (conn.working relation).isNone then .error .exit else .ok ()

/-- COMMIT, then BEGIN. An aborted transaction is rolled back instead. -/
def Conn.commit (conn : Conn) : Conn :=
  if conn.aborted then
    { conn with
      working := conn.committed
      aborted := false
      cursors := fun handle => (conn.cursors handle).filter Cursor.held }
  else
    { conn with
      committed := conn.working
      cursors :=
        fun handle => (conn.cursors handle).map fun cursor => { cursor with held := true } }

/-! ## Rows with columns set -/

theorem length_setRow (set : List (ℕ × Value)) (row : Row) :
    (setRow set row).length = row.length := by
  unfold setRow
  induction set generalizing row with
  | nil => rfl
  | cons assignment rest ih => rw [List.foldl_cons, ih, List.length_set]

theorem getElem?_setRow_of_notMem {set : List (ℕ × Value)} {i : ℕ} (row : Row)
    (unset : i ∉ set.map Prod.fst) : (setRow set row)[i]? = row[i]? := by
  unfold setRow
  induction set generalizing row with
  | nil => rfl
  | cons assignment rest ih =>
      rw [List.map_cons, List.mem_cons, not_or] at unset
      rw [List.foldl_cons, ih _ unset.2, List.getElem?_set_ne (Ne.symm unset.1)]

theorem getElem?_setRow_of_mem {set : List (ℕ × Value)} {i : ℕ} {value : Value} {row : Row}
    (once : (set.map Prod.fst).Nodup) (inside : i < row.length) (member : (i, value) ∈ set) :
    (setRow set row)[i]? = some value := by
  induction set generalizing row with
  | nil => cases member
  | cons assignment rest ih =>
      rw [List.map_cons, List.nodup_cons] at once
      rcases List.mem_cons.mp member with rfl | member
      · have first := getElem?_setRow_of_notMem (row.set i value) once.1
        rw [List.getElem?_set_self inside] at first
        exact first
      · exact ih once.2 (by rw [List.length_set]; exact inside) member

end Pqfh
