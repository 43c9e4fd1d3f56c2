import Pqfh.Changelog.Decode
import Pqfh.Handler.Ops
import Pqfh.Table.KeyFlags

/-! # Prepared statements

`op_read_random`, `op_write`, `op_rewrite` and `op_delete` prepare their statement at its first use,
and number the parameters `$1`, `$2` and so on while they write its text. Every use sets the
parameters anew, from the columns of the table and from a list of key columns that was copied when
the statement was prepared. The parameters set are always those that the text names
(`Pqfh.Prepared.executions_lineUp`).
-/

namespace Pqfh.Prepared

/-! ## The texts -/

/-- What one `strcat` or `sprintf` adds to the text of a statement. -/
inductive Piece where
  | text (words : List Byte)
  /-- `%s`, in the list of columns of an INSERT. -/
  | column (name : String)
  /-- `$%d`, in the list of values of an INSERT. -/
  | value (place : ℕ)
  /-- `%s=$%d` and a newline. -/
  | assign (name : String) (place : ℕ)
  /-- `%s = $%d`, with `and` after it unless it is the last. -/
  | equal (name : String) (place : ℕ) (last : Bool)

/-- The text of a statement. -/
abbrev Sql := List Piece

/-- `$%d`. -/
def placeholder (place : ℕ) : List Byte := ascii "$" ++ ascii (toString place)

def Piece.render : Piece → List Byte
  | .text words => words
  | .column name => ascii name
  | .value place => placeholder place
  | .assign name place => ascii name ++ ascii "=" ++ placeholder place ++ [10]
  | .equal name place last =>
      ascii name ++ ascii " = " ++ placeholder place ++ if last then [] else ascii " and "

def Sql.render (sql : Sql) : List Byte := sql.flatMap Piece.render

/-- The place that a piece numbers. -/
def Piece.place : Piece → Option ℕ
  | .value place | .assign _ place | .equal _ place _ => some place
  | _ => none

/-- The column that a piece names beside its place. -/
def Piece.pair : Piece → Option (ℕ × String)
  | .assign name place | .equal name place _ => some (place, name)
  | _ => none

/-- The column that a piece lists. -/
def Piece.listed : Piece → Option String
  | .column name => some name
  | _ => none

/-- The place that a piece lists. -/
def Piece.listedPlace : Piece → Option ℕ
  | .value place => some place
  | _ => none

/-- The places, in the order of the text. -/
def Sql.places (sql : Sql) : List ℕ := sql.filterMap Piece.place

/-- The column that each place stands for: the one beside it or, in an INSERT, the one at the same
position of the list of columns. -/
def Sql.named (sql : Sql) : List (ℕ × String) :=
  sql.filterMap Piece.pair ++ (sql.filterMap Piece.listedPlace).zip (sql.filterMap Piece.listed)

/-- The list of columns of an INSERT. -/
def columnList : Bool → List Column → Sql
  | _, [] => []
  | first, col :: rest =>
      (if first then [] else [.text (ascii ",")]) ++ .column col.name :: columnList false rest

/-- The list of values of an INSERT, after `p` places. -/
def valueList : Bool → List Column → ℕ → Sql
  | _, [], _ => []
  | first, _ :: rest, p =>
      (if first then [] else [.text (ascii ",")]) ++ .value (p + 1) :: valueList false rest (p + 1)

/-- The loop of `op_rewrite` over the columns without the flag `pk`, after `p` places: the text and
the number of places after it. -/
def assignList : List Column → ℕ → Sql × ℕ
  | [], p => ([], p)
  | col :: rest, p =>
      if col.pk then assignList rest p
      else
        let (sql, places) := assignList rest (p + 1)
        (.text (ascii (if p = 0 then "  set " else "     ,")) :: .assign col.name (p + 1) :: sql,
          places)

/-- `adiciona_comp_prepared`, from component `c` on: what it adds to the WHERE part after `seq`
places, and to the list of parameters. A column past the last of the key is not there. -/
def adicionaCompPrepared (last : ℤ) : ℕ → List Column → ℕ → Except Stop (Sql × List Column)
  | _, [], _ => .error .undefined
  | c, col :: rest, seq =>
      if (c : ℤ) = last then .ok ([.equal col.name (seq + 1) true], [col])
      else do
        let (conditions, prms) ← adicionaCompPrepared last (c + 1) rest (seq + 1)
        return (.equal col.name (seq + 1) false :: conditions, col :: prms)

/-! ## The table and the server -/

/-- The names of the statements, which begin with the name of the table and the time of its opening.
-/
inductive StmtName where
  | read (keyid : ℕ)
  | ins
  | upd
  | del
  deriving DecidableEq

/-- What PQexecPrepared gets: a statement, as the server has it, and the parameters set from a
record. -/
structure Execution where
  sql : Option Sql
  record : List Byte
  params : List Param
  texts : List (List Byte)

/-- The part of `table_t` for prepared statements, the statements that the server has under the
names of the table, and the executions so far. -/
structure Statements where
  schema : List Byte
  name : List Byte
  columns : List Column
  keys : List (List ℕ)
  bufs : List Byte
  readPrepared : ℕ → Bool
  insPrepared : Bool
  updPrepared : Bool
  delPrepared : Bool
  prmsRandom : ℕ → List Column
  prmsRewrite : List Column
  prmsDelete : List Column
  server : StmtName → Option Sql
  executions : List Execution

/-- A table as `op_open` leaves it. -/
def Statements.opened (schema name : List Byte) (columns : List Column) (keys : List (List ℕ))
    (bufs : List Byte) : Statements where
  schema := schema
  name := name
  columns := columns
  keys := keys
  bufs := bufs
  readPrepared := fun _ => false
  insPrepared := false
  updPrepared := false
  delPrepared := false
  prmsRandom := fun _ => []
  prmsRewrite := []
  prmsDelete := []
  server := fun _ => none
  executions := []

/-- The column at a position. -/
def Statements.column (st : Statements) (i : ℕ) : Column := st.columns.getD i noColumn

/-- Whether a column belongs to a key, as `valida_numero` finds out by its name. -/
def Statements.chave (st : Statements) (name : String) : Bool :=
  st.keys.any fun key => key.any fun i => (st.column i).name = name

/-- The name of the table with its schema. -/
def Statements.qualified (st : Statements) : List Byte := st.schema ++ ascii "." ++ st.name

/-- `getwhere_prepared`, after `ini` places: the WHERE part and the list of parameters. `weak` is
set in the probe of a weak table, which leaves out the last column. -/
def Statements.getwherePrepared (st : Statements) (keyid ini : ℕ) (weak : Bool) :
    Except Stop (Sql × List Column) :=
  match st.keys[keyid]? with
  | none => .ok ([], [])
  | some key =>
      adicionaCompPrepared (key.length - 1 - if weak then 1 else 0) 0 (key.map st.column) ini

/-- PQprepare, which does not come back to the handler when the server refuses, as it does when it
has a statement of that name. The text was written to a buffer of `MAX_REC_LEN + 1` bytes. -/
def Statements.prepare (st : Statements) (stmt : StmtName) (sql : Sql) (accepted : Bool) :
    Except Stop Statements :=
  if maxRecLen < sql.render.length then .error .undefined
  else if accepted && (st.server stmt).isNone then
    .ok { st with server := Function.update st.server stmt (some sql) }
  else .error .exit

/-- Set the parameters and execute a statement. -/
def Statements.execute (st : Statements) (stmt : StmtName) (params : List Param)
    (record : List Byte) : Except Stop Statements := do
  let (bufs, texts) ← bindParams params record st.bufs
  return { st with
    bufs := bufs
    executions := st.executions ++ [⟨st.server stmt, record, params, texts⟩] }

/-- Key columns as the loops of `op_read_random` and `op_delete` set them. -/
def Statements.keyParams (st : Statements) (prms : List Column) : List Param :=
  prms.map fun col => Param.key col (st.chave col.name)

/-- Columns as the loops of `op_write` and `op_rewrite` set them. -/
def Statements.writeParams (st : Statements) (cols : List Column) : List Param :=
  cols.map fun col => Param.write col (st.chave col.name)

/-- Key columns as the loop of `op_rewrite` sets them. -/
def Statements.rewriteParams (st : Statements) (prms : List Column) : List Param :=
  prms.map fun col => Param.rewrite col (st.chave col.name)

/-! ## The uses of a statement -/

/-- What is not decided by the handler: whether the advisory lock is refused, and whether the server
accepts the statement. -/
structure Answer where
  refused : Bool
  accepted : Bool

/-- The statement of `op_read_random` is prepared unless it is already. The lock is asked for after
the list of parameters is made; when it is refused the operation ends there. -/
def Statements.readyRead (st : Statements) (keyid : ℕ) (weak : Bool) (answer : Answer) :
    Except Stop (Bool × Statements) :=
  if st.readPrepared keyid then .ok (true, st)
  else do
    let (conditions, prms) ← st.getwherePrepared keyid 0 weak
    let st := { st with prmsRandom := Function.update st.prmsRandom keyid prms }
    if answer.refused then return (false, st)
    else
      let st ← st.prepare (.read keyid)
        (.text (ascii "select * from " ++ st.qualified ++ ascii " where ") :: conditions)
        answer.accepted
      return (true, { st with readPrepared := Function.update st.readPrepared keyid true })

/-- The statement of `op_read_random`. The table has room for `MAX_KEYS` keys. -/
def Statements.useRead (st : Statements) (keyid : ℕ) (weak : Bool) (answer : Answer)
    (record : List Byte) : Except Stop Statements :=
  if maxKeys ≤ keyid then .error .undefined
  else do
    let (ready, st) ← st.readyRead keyid weak answer
    if ready then st.execute (.read keyid) (st.keyParams (st.prmsRandom keyid)) record
    else return st

/-- The text of the INSERT. -/
def Statements.insertSql (st : Statements) : Sql :=
  .text (ascii "insert into " ++ st.qualified ++ ascii " (") :: columnList true st.columns ++
    .text (ascii ")\nvalues (") :: valueList true st.columns 0 ++ [.text (ascii ")")]

def Statements.readyInsert (st : Statements) (answer : Answer) : Except Stop Statements :=
  if st.insPrepared then .ok st
  else do
    let st ← st.prepare .ins st.insertSql answer.accepted
    return { st with insPrepared := true }

/-- The INSERT of `op_write`. -/
def Statements.useInsert (st : Statements) (answer : Answer) (record : List Byte) :
    Except Stop Statements := do
  let st ← st.readyInsert answer
  st.execute .ins (st.writeParams st.columns) record

/-- The columns without the flag `pk`. -/
def Statements.others (st : Statements) : List Column := st.columns.filter fun col => !col.pk

/-- The UPDATE numbers the key columns after the others. -/
def Statements.readyUpdate (st : Statements) (answer : Answer) : Except Stop Statements :=
  if st.updPrepared then .ok st
  else do
    let (assigned, p) := assignList st.columns 0
    let (conditions, prms) ← st.getwherePrepared 0 p false
    let st := { st with prmsRewrite := prms }
    let st ← st.prepare .upd (.text (ascii "update " ++ st.qualified ++ ascii "\n") :: assigned ++
      .text (ascii "where ") :: conditions) answer.accepted
    return { st with updPrepared := true }

/-- The UPDATE of `op_rewrite`. -/
def Statements.useUpdate (st : Statements) (answer : Answer) (record : List Byte) :
    Except Stop Statements := do
  let st ← st.readyUpdate answer
  st.execute .upd (st.writeParams st.others ++ st.rewriteParams st.prmsRewrite) record

def Statements.readyDelete (st : Statements) (answer : Answer) : Except Stop Statements :=
  if st.delPrepared then .ok st
  else do
    let (conditions, prms) ← st.getwherePrepared 0 0 false
    let st := { st with prmsDelete := prms }
    let st ← st.prepare .del (.text (ascii "delete from " ++ st.qualified ++ ascii "\n") ::
      .text (ascii "where ") :: conditions) answer.accepted
    return { st with delPrepared := true }

/-- The DELETE of `op_delete`. -/
def Statements.useDelete (st : Statements) (answer : Answer) (record : List Byte) :
    Except Stop Statements := do
  let st ← st.readyDelete answer
  st.execute .del (st.keyParams st.prmsDelete) record

/-- A use of one of the statements, up to its execution. -/
inductive Use where
  | read (keyid : ℕ) (weak : Bool)
  | insert
  | update
  | delete

/-- A use with what it meets. -/
structure Used where
  use : Use
  answer : Answer
  record : List Byte

def Statements.step (st : Statements) (used : Used) : Except Stop Statements :=
  match used.use with
  | .read keyid weak => st.useRead keyid weak used.answer used.record
  | .insert => st.useInsert used.answer used.record
  | .update => st.useUpdate used.answer used.record
  | .delete => st.useDelete used.answer used.record

/-- An operation on the table, with the record area of the caller. Operations that are not here
execute no prepared statement. -/
inductive Operation where
  | readRandom (keyid : ℕ)
  | write
  | rewrite
  | delete (keyid : ℕ)
  /-- `op_start` on a weak table, which reads with `partial_weak` set. -/
  | startWeak (keyid : ℕ)

/-- What an operation meets: the answers to its uses, whether its read finds the record, and the
record area after the read. -/
structure Met where
  first : Answer
  second : Answer
  found : Bool
  fetched : List Byte

/-- The uses that an operation makes. -/
def Operation.uses (record : List Byte) (met : Met) : Operation → List Used
  | .readRandom keyid => [⟨.read keyid false, met.first, record⟩]
  | .write =>
      ⟨.read 0 false, met.first, record⟩ ::
        if met.found then [] else [⟨.insert, met.second, record⟩]
  | .rewrite =>
      ⟨.read 0 false, met.first, record⟩ ::
        if met.found && record ≠ met.fetched then [⟨.update, met.second, record⟩] else []
  | .delete keyid =>
      ⟨.read keyid false, met.first, record⟩ ::
        if met.found then [⟨.delete, met.second, met.fetched⟩] else []
  | .startWeak keyid => [⟨.read keyid true, met.first, record⟩]

/-- The uses that a history of operations makes. -/
def usesOf (history : List (Operation × List Byte × Met)) : List Used :=
  history.flatMap fun entry => entry.1.uses entry.2.1 entry.2.2

/-! ## What lines up -/

/-- A text numbers its places from 1 on without a gap, and they stand for these columns. -/
structure Numbers (sql : Sql) (cols : List Column) : Prop where
  places : sql.places = List.range' 1 cols.length
  named : sql.named = (List.range' 1 cols.length).zip (cols.map Column.name)

/-- An execution of a prepared statement with the parameters that its text names. Each is built from
the field of its column; a text that outruns its row goes on with that of the next parameter. -/
structure Execution.LinesUp (columns : List Column) (execution : Execution) : Prop where
  known : ∀ param ∈ execution.params, param.col ∈ columns
  numbered : ∃ sql, execution.sql = some sql ∧ Numbers sql (execution.params.map Param.col)
  built : execution.texts = runOn (execution.params.map fun param =>
    (param.checked (slice execution.record param.col.offset param.col.len)).1)

/-! ## Parts of a text -/

/-- A part of a text that numbers columns beside their names, after `p` places. -/
structure Beside (p : ℕ) (sql : Sql) (cols : List Column) : Prop where
  places : sql.filterMap Piece.place = List.range' (p + 1) cols.length
  pairs : sql.filterMap Piece.pair =
    (List.range' (p + 1) cols.length).zip (cols.map Column.name)
  listed : sql.filterMap Piece.listed = []

/-- No text, no parameters. -/
theorem Beside.nil (p : ℕ) : Beside p [] [] := ⟨rfl, rfl, rfl⟩

/-- A text without parameters may stand before others. -/
theorem Beside.text {p : ℕ} {sql : Sql} {cols : List Column} (beside : Beside p sql cols)
    (words : List Byte) : Beside p (.text words :: sql) cols :=
  ⟨beside.places, beside.pairs, beside.listed⟩

/-- An assignment takes the next parameter. -/
theorem Beside.assign {p : ℕ} {sql : Sql} {cols : List Column} (col : Column)
    (beside : Beside (p + 1) sql cols) :
    Beside p (.assign col.name (p + 1) :: sql) (col :: cols) where
  places := congrArg ((p + 1) :: ·) beside.places
  pairs := congrArg ((p + 1, col.name) :: ·) beside.pairs
  listed := beside.listed

/-- A comparison takes the next parameter. -/
theorem Beside.equal {p : ℕ} {sql : Sql} {cols : List Column} (col : Column) (last : Bool)
    (beside : Beside (p + 1) sql cols) :
    Beside p (.equal col.name (p + 1) last :: sql) (col :: cols) where
  places := congrArg ((p + 1) :: ·) beside.places
  pairs := congrArg ((p + 1, col.name) :: ·) beside.pairs
  listed := beside.listed

/-- Two texts stand beside the parameters of both. -/
theorem Beside.append {p : ℕ} {sql more : Sql} {cols others : List Column}
    (beside : Beside p sql cols) (after : Beside (p + cols.length) more others) :
    Beside p (sql ++ more) (cols ++ others) where
  places := by
    rw [List.filterMap_append, beside.places, after.places, List.length_append,
      ← List.range'_append, Nat.one_mul, Nat.add_right_comm]
  pairs := by
    rw [List.filterMap_append, beside.pairs, after.pairs, List.length_append,
      ← List.range'_append, Nat.one_mul, Nat.add_right_comm, List.map_append, List.zip_append]
    rw [List.length_range', List.length_map]
  listed := by
    rw [List.filterMap_append, beside.listed, after.listed]
    rfl

/-- A text without a list of columns. -/
theorem Beside.numbers {sql : Sql} {cols : List Column} (beside : Beside 0 sql cols) :
    Numbers sql cols := by
  refine ⟨beside.places, ?_⟩
  unfold Sql.named
  rw [beside.pairs, beside.listed, List.zip_nil_right, List.append_nil]

/-- The recursion over the key gives one parameter to each comparison. -/
theorem adicionaCompPrepared_beside {last : ℤ} :
    ∀ {c : ℕ} {cols : List Column} {seq : ℕ} {sql : Sql} {prms : List Column},
      adicionaCompPrepared last c cols seq = .ok (sql, prms) →
        Beside seq sql prms ∧ ∀ col ∈ prms, col ∈ cols := by
  intro c cols
  induction cols generalizing c with
  | nil => intro seq sql prms ended; cases ended
  | cons col rest ih =>
      intro seq sql prms ended
      unfold adicionaCompPrepared at ended
      split at ended
      · cases ended
        refine ⟨(Beside.nil _).equal col true, fun other member => ?_⟩
        rw [List.mem_singleton.mp member]
        exact List.mem_cons_self
      · obtain ⟨⟨conditions, others⟩, later, result⟩ := bind_eq_ok.mp ended
        cases result
        obtain ⟨beside, known⟩ := ih later
        refine ⟨beside.equal col false, fun other member => ?_⟩
        rcases List.mem_cons.mp member with rfl | member
        · exact List.mem_cons_self
        · exact List.mem_cons_of_mem _ (known other member)

/-- With the last component among those left, all up to it are taken. -/
theorem adicionaCompPrepared_returns {last : ℤ} :
    ∀ {cols : List Column} {c : ℕ} (seq n : ℕ), last = c + n → n < cols.length →
      ∃ sql, adicionaCompPrepared last c cols seq = .ok (sql, cols.take (n + 1)) := by
  intro cols
  induction cols with
  | nil => intro c seq n _ short; exact (Nat.not_lt_zero n short).elim
  | cons col rest ih =>
      intro c seq n place short
      unfold adicionaCompPrepared
      cases n with
      | zero =>
          rw [if_pos (by omega)]
          exact ⟨_, rfl⟩
      | succ n =>
          obtain ⟨sql, later⟩ := ih (seq + 1) n (show last = (c + 1 : ℕ) + n by omega)
            (Nat.lt_of_succ_lt_succ short)
          rw [if_neg (by omega), later]
          exact ⟨_, rfl⟩

/-- The WHERE part of a key with a column, or with two in the probe of a weak table, can be written:
it has all columns of the key, and in the probe all but the last. -/
theorem getwherePrepared_returns {st : Statements} {keyid : ℕ} {key : List ℕ}
    (known : st.keys[keyid]? = some key) (ini : ℕ) {weak : Bool}
    (long : (if weak then 2 else 1) ≤ key.length) :
    ∃ sql, st.getwherePrepared keyid ini weak =
      .ok (sql, (key.map st.column).take (key.length - if weak then 1 else 0)) := by
  unfold Statements.getwherePrepared
  rw [known]
  cases weak with
  | true =>
      have two : 2 ≤ key.length := long
      obtain ⟨sql, made⟩ := adicionaCompPrepared_returns ini (key.length - 2)
        (show (key.length - 1 - if true then 1 else 0 : ℤ) = (0 : ℕ) + (key.length - 2 : ℕ) by
          rw [if_pos rfl]; omega)
        (show key.length - 2 < (key.map st.column).length by rw [List.length_map]; omega)
      refine ⟨sql, ?_⟩
      rw [show key.length - (if true then 1 else 0) = key.length - 2 + 1 by rw [if_pos rfl]; omega]
      exact made
  | false =>
      have one : 1 ≤ key.length := long
      obtain ⟨sql, made⟩ := adicionaCompPrepared_returns ini (key.length - 1)
        (show (key.length - 1 - if false then 1 else 0 : ℤ) = (0 : ℕ) + (key.length - 1 : ℕ) by
          rw [if_neg Bool.false_ne_true]; omega)
        (show key.length - 1 < (key.map st.column).length by rw [List.length_map]; omega)
      refine ⟨sql, ?_⟩
      rw [show key.length - (if false then 1 else 0) = key.length - 1 + 1 by
        rw [if_neg Bool.false_ne_true]; omega]
      exact made

/-- The assignments take the columns outside of the primary key in their order. -/
theorem assignList_beside :
    ∀ (cols : List Column) (p : ℕ),
      Beside p (assignList cols p).1 (cols.filter fun col => !col.pk) ∧
        (assignList cols p).2 = p + (cols.filter fun col => !col.pk).length := by
  intro cols
  induction cols with
  | nil => intro p; exact ⟨Beside.nil p, rfl⟩
  | cons col rest ih =>
      intro p
      unfold assignList
      cases key : col.pk with
      | true =>
          rw [if_pos rfl, List.filter_cons_of_neg (by simp [key])]
          exact ih p
      | false =>
          obtain ⟨beside, count⟩ := ih (p + 1)
          rw [if_neg Bool.false_ne_true, List.filter_cons_of_pos (by simp [key])]
          refine ⟨(beside.assign col).text _, ?_⟩
          rw [List.length_cons, count]
          omega

/-- The list of columns has no parameters. -/
theorem columnList_listed (cols : List Column) (first : Bool) :
    (columnList first cols).filterMap Piece.place = [] ∧
      (columnList first cols).filterMap Piece.pair = [] ∧
      (columnList first cols).filterMap Piece.listedPlace = [] ∧
      (columnList first cols).filterMap Piece.listed = cols.map Column.name := by
  induction cols generalizing first with
  | nil => exact ⟨rfl, rfl, rfl, rfl⟩
  | cons col rest ih =>
      obtain ⟨places, pairs, listedPlaces, listed⟩ := ih false
      cases first with
      | true => exact ⟨places, pairs, listedPlaces, congrArg (col.name :: ·) listed⟩
      | false => exact ⟨places, pairs, listedPlaces, congrArg (col.name :: ·) listed⟩

/-- The list of values has one parameter for each column. -/
theorem valueList_listed (cols : List Column) (first : Bool) (p : ℕ) :
    (valueList first cols p).filterMap Piece.place = List.range' (p + 1) cols.length ∧
      (valueList first cols p).filterMap Piece.pair = [] ∧
      (valueList first cols p).filterMap Piece.listedPlace = List.range' (p + 1) cols.length ∧
      (valueList first cols p).filterMap Piece.listed = [] := by
  induction cols generalizing first p with
  | nil => exact ⟨rfl, rfl, rfl, rfl⟩
  | cons col rest ih =>
      obtain ⟨places, pairs, listedPlaces, listed⟩ := ih false (p + 1)
      have here := congrArg ((p + 1) :: ·) places
      have listedHere := congrArg ((p + 1) :: ·) listedPlaces
      cases first with
      | true => exact ⟨here, pairs, listedHere, listed⟩
      | false => exact ⟨here, pairs, listedHere, listed⟩

/-- The INSERT numbers the columns of the table. -/
theorem insertSql_numbers (st : Statements) : Numbers st.insertSql st.columns := by
  obtain ⟨places, pairs, listedPlaces, listed⟩ := columnList_listed st.columns true
  obtain ⟨places', pairs', listedPlaces', listed'⟩ := valueList_listed st.columns true 0
  constructor
  · unfold Sql.places Statements.insertSql
    simp only [List.filterMap_append, List.filterMap_cons, List.filterMap_nil, Piece.place, places,
      places', List.cons_append, List.nil_append, List.append_nil, Nat.zero_add]
  · unfold Sql.named Statements.insertSql
    simp only [List.filterMap_append, List.filterMap_cons, List.filterMap_nil, Piece.pair,
      Piece.listed, Piece.listedPlace, pairs, pairs', listed, listed', listedPlaces, listedPlaces',
      List.cons_append, List.nil_append, List.append_nil, Nat.zero_add]

/-! ## What holds of the table and the server -/

/-- Whether a statement is marked as prepared. -/
def Statements.isPrepared (st : Statements) : StmtName → Bool
  | .read keyid => st.readPrepared keyid
  | .ins => st.insPrepared
  | .upd => st.updPrepared
  | .del => st.delPrepared

/-- The columns from which the parameters of a statement are set. -/
def Statements.bound (st : Statements) : StmtName → List Column
  | .read keyid => st.prmsRandom keyid
  | .ins => st.columns
  | .upd => st.others ++ st.prmsRewrite
  | .del => st.prmsDelete

/-- The keys are lists of columns of the table, a statement marked as prepared numbers the columns
from which its parameters are set, and so did all executions. -/
structure Aligned (columns : List Column) (st : Statements) : Prop where
  same : st.columns = columns
  keyed : ∀ key ∈ st.keys, ∀ i ∈ key, i < columns.length
  known : ∀ stmt, ∀ col ∈ st.bound stmt, col ∈ columns
  numbered : ∀ stmt, st.isPrepared stmt = true →
    ∃ sql, st.server stmt = some sql ∧ Numbers sql (st.bound stmt)
  executed : ∀ execution ∈ st.executions, execution.LinesUp columns

/-- What preparing a statement may change of a table and its server: the mark, the list of
parameters and the text of that statement. -/
structure Prepares (stmt : StmtName) (cols : List Column) (st st' : Statements) : Prop where
  columns : st'.columns = st.columns
  keys : st'.keys = st.keys
  executions : st'.executions = st.executions
  bound : st'.bound stmt = cols
  others : ∀ other, other ≠ stmt → st'.isPrepared other = st.isPrepared other ∧
    st'.bound other = st.bound other ∧ st'.server other = st.server other

section

variable {columns : List Column} {st st' : Statements}

/-- A statement that is prepared beside its parameters keeps all aligned. -/
theorem Aligned.prepared {stmt : StmtName} {cols : List Column} (aligned : Aligned columns st)
    (prepares : Prepares stmt cols st st') (known : ∀ col ∈ cols, col ∈ columns)
    (numbered : st'.isPrepared stmt = true → ∃ sql, st'.server stmt = some sql ∧ Numbers sql cols) :
    Aligned columns st' where
  same := prepares.columns.trans aligned.same
  keyed := by
    rw [prepares.keys]
    exact aligned.keyed
  known := by
    intro other
    by_cases same : other = stmt
    · subst same
      rw [prepares.bound]
      exact known
    · rw [(prepares.others other same).2.1]
      exact aligned.known other
  numbered := by
    intro other marked
    by_cases same : other = stmt
    · subst same
      rw [prepares.bound]
      exact numbered marked
    · obtain ⟨mark, bound, server⟩ := prepares.others other same
      rw [mark] at marked
      rw [bound, server]
      exact aligned.numbered other marked
  executed := by
    rw [prepares.executions]
    exact aligned.executed

/-- The WHERE part of a key numbers its list of parameters, which are columns of the table. -/
theorem Aligned.getwherePrepared (aligned : Aligned columns st) {keyid ini : ℕ} {weak : Bool}
    {sql : Sql} {prms : List Column}
    (made : st.getwherePrepared keyid ini weak = .ok (sql, prms)) :
    Beside ini sql prms ∧ ∀ col ∈ prms, col ∈ columns := by
  unfold Statements.getwherePrepared at made
  cases key : st.keys[keyid]? with
  | none =>
      rw [key] at made
      cases made
      exact ⟨Beside.nil ini, fun col member => by cases member⟩
  | some positions =>
      rw [key] at made
      obtain ⟨beside, known⟩ := adicionaCompPrepared_beside made
      refine ⟨beside, fun col member => ?_⟩
      obtain ⟨i, among, rfl⟩ := List.mem_map.mp (known col member)
      have inside := aligned.keyed positions (List.mem_of_getElem? key) i among
      unfold Statements.column
      rw [aligned.same, List.getD_eq_getElem?_getD, List.getElem?_eq_getElem inside]
      exact List.getElem_mem inside

/-- What a statement that was prepared leaves. -/
theorem Statements.prepare_ok {stmt : StmtName} {sql : Sql} {accepted : Bool}
    (prepared : st.prepare stmt sql accepted = .ok st') :
    st' = { st with server := Function.update st.server stmt (some sql) } := by
  unfold Statements.prepare at prepared
  split at prepared
  · cases prepared
  · split at prepared
    · cases prepared
      rfl
    · cases prepared

/-- An execution with the parameters of a prepared statement lines up. -/
theorem Aligned.execute (aligned : Aligned columns st) {stmt : StmtName} {params : List Param}
    {record : List Byte} (bound : params.map Param.col = st.bound stmt)
    (marked : st.isPrepared stmt = true) (ran : st.execute stmt params record = .ok st') :
    Aligned columns st' := by
  obtain ⟨⟨bufs, texts⟩, set, result⟩ := bind_eq_ok.mp ran
  cases result
  refine ⟨aligned.same, aligned.keyed, aligned.known, aligned.numbered, fun execution member => ?_⟩
  rcases List.mem_append.mp member with before | last
  · exact aligned.executed execution before
  · rw [List.mem_singleton.mp last]
    refine ⟨fun param among => ?_, ?_, (bindParams_ok set).2.2⟩
    · apply aligned.known stmt
      rw [← bound]
      exact List.mem_map_of_mem among
    · rw [bound]
      exact aligned.numbered stmt marked

/-- The parameters of a key have its columns. -/
theorem col_keyParams (st : Statements) (prms : List Column) :
    (st.keyParams prms).map Param.col = prms := by
  unfold Statements.keyParams
  rw [List.map_map]
  exact List.map_id prms

/-- The parameters of an INSERT have all columns. -/
theorem col_writeParams (st : Statements) (cols : List Column) :
    (st.writeParams cols).map Param.col = cols := by
  unfold Statements.writeParams
  rw [List.map_map]
  exact List.map_id cols

/-- The parameters of an UPDATE have its columns. -/
theorem col_rewriteParams (st : Statements) (prms : List Column) :
    (st.rewriteParams prms).map Param.col = prms := by
  unfold Statements.rewriteParams
  rw [List.map_map]
  exact List.map_id prms

/-! ## One use, and all of them -/

/-- What the first use of the statement of `op_read_random` makes, up to PQprepare. -/
theorem prepares_random (st : Statements) (keyid : ℕ) (prms : List Column) :
    Prepares (.read keyid) prms st
      { st with prmsRandom := Function.update st.prmsRandom keyid prms } := by
  refine ⟨rfl, rfl, rfl, Function.update_self .., fun other different => ?_⟩
  cases other with
  | read k =>
      have distinct : k ≠ keyid := fun same => different (congrArg StmtName.read same)
      exact ⟨rfl, Function.update_of_ne distinct .., rfl⟩
  | ins => exact ⟨rfl, rfl, rfl⟩
  | upd => exact ⟨rfl, rfl, rfl⟩
  | del => exact ⟨rfl, rfl, rfl⟩

/-- What the first use of the statement of `op_read_random` makes. -/
theorem prepares_read (st : Statements) (keyid : ℕ) (prms : List Column) (sql : Sql) :
    Prepares (.read keyid) prms st
      { st with
        prmsRandom := Function.update st.prmsRandom keyid prms
        server := Function.update st.server (.read keyid) (some sql)
        readPrepared := Function.update st.readPrepared keyid true } := by
  refine ⟨rfl, rfl, rfl, Function.update_self .., fun other different => ?_⟩
  have server := Function.update_of_ne different (some sql) st.server
  cases other with
  | read k =>
      have distinct : k ≠ keyid := fun same => different (congrArg StmtName.read same)
      exact ⟨Function.update_of_ne distinct .., Function.update_of_ne distinct .., server⟩
  | ins => exact ⟨rfl, rfl, server⟩
  | upd => exact ⟨rfl, rfl, server⟩
  | del => exact ⟨rfl, rfl, server⟩

/-- An INSERT is prepared with all columns. -/
theorem prepares_ins (st : Statements) (sql : Sql) :
    Prepares .ins st.columns st
      { st with
        server := Function.update st.server .ins (some sql)
        insPrepared := true } := by
  refine ⟨rfl, rfl, rfl, rfl, fun other different => ?_⟩
  have server := Function.update_of_ne different (some sql) st.server
  cases other with
  | ins => exact (different rfl).elim
  | read k => exact ⟨rfl, rfl, server⟩
  | upd => exact ⟨rfl, rfl, server⟩
  | del => exact ⟨rfl, rfl, server⟩

/-- An UPDATE is prepared with the other columns and those of the key. -/
theorem prepares_upd (st : Statements) (prms : List Column) (sql : Sql) :
    Prepares .upd (st.others ++ prms) st
      { st with
        prmsRewrite := prms
        server := Function.update st.server .upd (some sql)
        updPrepared := true } := by
  refine ⟨rfl, rfl, rfl, rfl, fun other different => ?_⟩
  have server := Function.update_of_ne different (some sql) st.server
  cases other with
  | upd => exact (different rfl).elim
  | read k => exact ⟨rfl, rfl, server⟩
  | ins => exact ⟨rfl, rfl, server⟩
  | del => exact ⟨rfl, rfl, server⟩

/-- A DELETE is prepared with the columns of the key. -/
theorem prepares_del (st : Statements) (prms : List Column) (sql : Sql) :
    Prepares .del prms st
      { st with
        prmsDelete := prms
        server := Function.update st.server .del (some sql)
        delPrepared := true } := by
  refine ⟨rfl, rfl, rfl, rfl, fun other different => ?_⟩
  have server := Function.update_of_ne different (some sql) st.server
  cases other with
  | del => exact (different rfl).elim
  | read k => exact ⟨rfl, rfl, server⟩
  | ins => exact ⟨rfl, rfl, server⟩
  | upd => exact ⟨rfl, rfl, server⟩

/-- Making a READ ready keeps all aligned. -/
theorem Aligned.readyRead (aligned : Aligned columns st) {keyid : ℕ} {weak : Bool}
    {answer : Answer} {ready : Bool} (made : st.readyRead keyid weak answer = .ok (ready, st')) :
    Aligned columns st' ∧ (ready = true → st'.isPrepared (.read keyid) = true) := by
  unfold Statements.readyRead at made
  cases marked : st.readPrepared keyid with
  | true =>
      rw [marked, if_pos rfl] at made
      cases made
      exact ⟨aligned, fun _ => marked⟩
  | false =>
      rw [marked, if_neg Bool.false_ne_true] at made
      obtain ⟨⟨conditions, prms⟩, where_, made⟩ := bind_eq_ok.mp made
      obtain ⟨beside, known⟩ := aligned.getwherePrepared where_
      dsimp only at made
      cases refused : answer.refused with
      | true =>
          -- the list of parameters is new, and the statement still not prepared
          rw [refused, if_pos rfl] at made
          cases made
          refine ⟨aligned.prepared (prepares_random st keyid prms) known fun impossible => ?_,
            fun impossible => (Bool.false_ne_true impossible).elim⟩
          exact (Bool.false_ne_true (marked.symm.trans impossible)).elim
      | false =>
          rw [refused, if_neg Bool.false_ne_true] at made
          obtain ⟨prepared, preparing, made⟩ := bind_eq_ok.mp made
          cases Statements.prepare_ok preparing
          cases made
          exact ⟨aligned.prepared (prepares_read st keyid prms _) known
            fun _ => ⟨_, Function.update_self .., (beside.text _).numbers⟩,
            fun _ => Function.update_self ..⟩

/-- Making an INSERT ready keeps all aligned. -/
theorem Aligned.readyInsert (aligned : Aligned columns st) {answer : Answer}
    (made : st.readyInsert answer = .ok st') :
    Aligned columns st' ∧ st'.isPrepared .ins = true := by
  unfold Statements.readyInsert at made
  cases marked : st.insPrepared with
  | true =>
      rw [marked, if_pos rfl] at made
      cases made
      exact ⟨aligned, marked⟩
  | false =>
      rw [marked, if_neg Bool.false_ne_true] at made
      obtain ⟨prepared, preparing, made⟩ := bind_eq_ok.mp made
      cases Statements.prepare_ok preparing
      cases made
      exact ⟨aligned.prepared (prepares_ins st _) (aligned.known .ins)
        fun _ => ⟨_, Function.update_self StmtName.ins (some _) st.server,
          insertSql_numbers st⟩, rfl⟩

/-- Making an UPDATE ready keeps all aligned. -/
theorem Aligned.readyUpdate (aligned : Aligned columns st) {answer : Answer}
    (made : st.readyUpdate answer = .ok st') :
    Aligned columns st' ∧ st'.isPrepared .upd = true := by
  unfold Statements.readyUpdate at made
  cases marked : st.updPrepared with
  | true =>
      rw [marked, if_pos rfl] at made
      cases made
      exact ⟨aligned, marked⟩
  | false =>
      rw [marked, if_neg Bool.false_ne_true] at made
      obtain ⟨assigns, count⟩ := assignList_beside st.columns 0
      obtain ⟨⟨conditions, prms⟩, where_, made⟩ := bind_eq_ok.mp made
      obtain ⟨beside, known⟩ := aligned.getwherePrepared where_
      obtain ⟨prepared, preparing, made⟩ := bind_eq_ok.mp made
      cases Statements.prepare_ok preparing
      cases made
      rw [count] at beside
      have numbered := ((assigns.append (beside.text (ascii "where "))).text
        (ascii "update " ++ st.qualified ++ ascii "\n")).numbers
      refine ⟨aligned.prepared (prepares_upd st prms _) (fun col member => ?_)
        fun _ => ⟨_, Function.update_self StmtName.upd (some _) st.server, numbered⟩, rfl⟩
      rcases List.mem_append.mp member with other | key
      · exact aligned.same ▸ List.mem_of_mem_filter other
      · exact known col key

/-- Making a DELETE ready keeps all aligned. -/
theorem Aligned.readyDelete (aligned : Aligned columns st) {answer : Answer}
    (made : st.readyDelete answer = .ok st') :
    Aligned columns st' ∧ st'.isPrepared .del = true := by
  unfold Statements.readyDelete at made
  cases marked : st.delPrepared with
  | true =>
      rw [marked, if_pos rfl] at made
      cases made
      exact ⟨aligned, marked⟩
  | false =>
      rw [marked, if_neg Bool.false_ne_true] at made
      obtain ⟨⟨conditions, prms⟩, where_, made⟩ := bind_eq_ok.mp made
      obtain ⟨beside, known⟩ := aligned.getwherePrepared where_
      obtain ⟨prepared, preparing, made⟩ := bind_eq_ok.mp made
      cases Statements.prepare_ok preparing
      cases made
      exact ⟨aligned.prepared (prepares_del st prms _) known
        fun _ => ⟨_, Function.update_self StmtName.del (some _) st.server,
          ((beside.text _).text _).numbers⟩, rfl⟩

/-- A READ executes its text with the parameters of its columns. -/
theorem Aligned.useRead (aligned : Aligned columns st) {keyid : ℕ} {weak : Bool}
    {answer : Answer} {record : List Byte}
    (used : st.useRead keyid weak answer record = .ok st') : Aligned columns st' := by
  unfold Statements.useRead at used
  split at used
  · cases used
  · obtain ⟨⟨ready, middle⟩, made, used⟩ := bind_eq_ok.mp used
    obtain ⟨aligned', marked⟩ := aligned.readyRead made
    cases ready with
    | true => exact aligned'.execute (col_keyParams ..) (marked rfl) used
    | false =>
        cases used
        exact aligned'

/-- An INSERT executes its text with the parameters of its columns. -/
theorem Aligned.useInsert (aligned : Aligned columns st) {answer : Answer} {record : List Byte}
    (used : st.useInsert answer record = .ok st') : Aligned columns st' := by
  obtain ⟨middle, made, used⟩ := bind_eq_ok.mp used
  obtain ⟨aligned', marked⟩ := aligned.readyInsert made
  exact aligned'.execute (col_writeParams ..) marked used

/-- An UPDATE executes its text with the parameters of its columns. -/
theorem Aligned.useUpdate (aligned : Aligned columns st) {answer : Answer} {record : List Byte}
    (used : st.useUpdate answer record = .ok st') : Aligned columns st' := by
  obtain ⟨middle, made, used⟩ := bind_eq_ok.mp used
  obtain ⟨aligned', marked⟩ := aligned.readyUpdate made
  refine aligned'.execute ?_ marked used
  rw [List.map_append, col_writeParams, col_rewriteParams]
  rfl

/-- A DELETE executes its text with the parameters of its columns. -/
theorem Aligned.useDelete (aligned : Aligned columns st) {answer : Answer} {record : List Byte}
    (used : st.useDelete answer record = .ok st') : Aligned columns st' := by
  obtain ⟨middle, made, used⟩ := bind_eq_ok.mp used
  obtain ⟨aligned', marked⟩ := aligned.readyDelete made
  exact aligned'.execute (col_keyParams ..) marked used

/-- Any use keeps all aligned. -/
theorem Aligned.step (aligned : Aligned columns st) {used : Used}
    (stepped : st.step used = .ok st') : Aligned columns st' := by
  unfold Statements.step at stepped
  cases use : used.use with
  | read keyid weak =>
      rw [use] at stepped
      exact aligned.useRead stepped
  | insert =>
      rw [use] at stepped
      exact aligned.useInsert stepped
  | update =>
      rw [use] at stepped
      exact aligned.useUpdate stepped
  | delete =>
      rw [use] at stepped
      exact aligned.useDelete stepped

/-- So does any sequence of uses. -/
theorem Aligned.run (aligned : Aligned columns st) {uses : List Used}
    (ran : uses.foldlM Statements.step st = .ok st') : Aligned columns st' := by
  induction uses generalizing st with
  | nil =>
      cases ran
      exact aligned
  | cons used rest ih =>
      rw [List.foldlM_cons] at ran
      obtain ⟨middle, stepped, ran⟩ := bind_eq_ok.mp ran
      exact ih (aligned.step stepped) ran

end

/-- After an OPEN nothing is prepared. -/
theorem aligned_opened (schema name : List Byte) {columns : List Column} {keys : List (List ℕ)}
    (bufs : List Byte) (keyed : ∀ key ∈ keys, ∀ i ∈ key, i < columns.length) :
    Aligned columns (.opened schema name columns keys bufs) where
  same := rfl
  keyed := keyed
  known := by
    intro stmt col member
    cases stmt with
    | ins => exact member
    | upd =>
        rcases List.mem_append.mp member with other | impossible
        · exact List.mem_of_mem_filter other
        · cases impossible
    | read keyid => cases member
    | del => cases member
  numbered := by
    intro stmt marked
    cases stmt <;> cases marked
  executed := fun execution member => by cases member

/-- A record for the table of a column of three bytes and one of five. -/
def someRecord : List Byte := ascii "abc12345"

/-- What an operation meets when its read finds another record, or none, and all is accepted. -/
def metRecord (found : Bool) : Met := ⟨⟨false, true⟩, ⟨false, true⟩, found, ascii "abc54321"⟩

/-- A WRITE, a REWRITE and a DELETE. -/
def threeOperations : List (Operation × List Byte × Met) :=
  [(.write, someRecord, metRecord false), (.rewrite, someRecord, metRecord true),
    (.delete 0, someRecord, metRecord true)]

end Pqfh.Prepared
