import Pqfh.Handler.Params
import Pqfh.Postgres.Session
import Pqfh.Table.Record

/-! # Operations on a table

`op_read_random`, `op_write`, `op_rewrite` and `op_delete`, on an open table and the file
control description (fcd) of the caller. Each operation takes the state and gives the
state after it, unless the process ends.

The replication of a table to other databases and the calls of external services are left
out, and so are log files, which are taken to be writable.
-/

namespace Pqfh

/-- `fcd->status`. -/
abbrev Status := Byte × Byte

def stOk : Status := (48, 48)
def stDuplKey : Status := (50, 50)
def stRecNotFound : Status := (50, 51)
def stError : Status := (57, 57)
def stLocked : Status := (57, 57)
def stNotOpenedRead : Status := (52, 55)
def stNotOpenedWrite : Status := (52, 56)
def stNotOpenedUpdel : Status := (52, 57)

/-- The mode of the handler, from the file `.pqfh` or the fcd. -/
inductive Mode where
  | I
  | W
  | A
  | B
  deriving Repr, DecidableEq

/-- The part of an fcd that the operations use. The record area has `rec_len` bytes. -/
structure Fcd where
  status : Status
  openMode : ℕ
  keyId : ℕ
  record : List Byte
  lockAutomatic : Bool
  ignoreLock : Bool
  /-- The flag `isam`, set for files that are not kept in the database. -/
  isam : Bool
  fileName : List Byte
  kdb : ℕ → Byte
  /-- The address of the open table. -/
  fileId : ℕ
  /-- The flag `sign`, set by `op_open`. -/
  sign : Bool

/-- The direction of a scan. -/
inductive Dir where
  | n
  | p
  deriving Repr, DecidableEq

/-- `table_t`. A statement is prepared for the columns of its WHERE part; those of the
UPDATE and the DELETE are always the columns of key 0. -/
structure Table where
  handle : ℕ
  relation : ℕ
  oid : ℕ
  name : List Byte
  columns : List Column
  keys : List (List ℕ)
  bufs : List Byte
  readPrepared : ℕ → Option (List ℕ)
  insPrepared : Bool
  updPrepared : Bool
  delPrepared : Bool
  advisoryLock : ℤ
  restart : Option Dir
  first : Bool
  keyNext : Option ℕ
  bufNext : List Byte
  recNext : List Byte
  keyPrev : Option ℕ
  bufPrev : List Byte
  recPrev : List Byte
  cursor : Bool
  partialKey : ℕ

/-- The buffers of a new table, which are not cleared. -/
structure Buffers where
  bufs : List Byte
  bufNext : List Byte
  recNext : List Byte
  bufPrev : List Byte
  recPrev : List Byte

/-- A table as `op_open` leaves it. -/
def Table.opened (handle relation oid : ℕ) (name : List Byte) (columns : List Column)
    (keys : List (List ℕ)) (partialKey : ℕ) (buffers : Buffers) : Table where
  handle := handle
  relation := relation
  oid := oid
  name := name
  columns := columns
  keys := keys
  bufs := buffers.bufs
  readPrepared := fun _ => none
  insPrepared := false
  updPrepared := false
  delPrepared := false
  advisoryLock := 0
  restart := none
  first := false
  keyNext := none
  bufNext := buffers.bufNext
  recNext := buffers.recNext
  keyPrev := none
  bufPrev := buffers.bufPrev
  recPrev := buffers.recPrev
  cursor := false
  partialKey := partialKey

/-- The connection, the variables of the process, an open table and the caller's fcd. -/
structure State where
  conn : Conn
  pendingCommits : ℕ
  eofStart : Bool
  tab : Table
  fcd : Fcd

/-- The server and the settings, which stay the same during an operation. -/
structure Env where
  pg : Postgres
  mode : Mode
  /-- `force_partial`, set by the modes written in small letters. -/
  forcePartial : Bool
  /-- `tabela_convertida`, what the file `pg01a01` says of a table. -/
  convertida : List Byte → Bool
  /-- `nome_dicionario`, what the file `pg01a02` says of a table. -/
  nomeDicionario : List Byte → List Byte

/-! ## Columns and parameters -/

/-- A column that is not there. -/
def noColumn : Column := ⟨"", .character, 1, 0, 0, false, one_digit, no_decimals_of_one⟩

/-- The column at a position. -/
def Table.column (tab : Table) (i : ℕ) : Column := tab.columns.getD i noColumn

/-- Whether a column belongs to a key, as `valida_numero` looks it up. -/
def Table.chave (tab : Table) (i : ℕ) : Bool := tab.keys.any fun key => key.contains i

/-- The values that parameters stand for in a condition. -/
def Table.condition (pg : Postgres) (tab : Table) (cols : List ℕ) (texts : List (List Byte)) :
    Option Condition :=
  (cols.zip texts).mapM fun pair => (pg.denote (tab.column pair.1) pair.2).map (pair.1, ·)

/-- The values that parameters stand for when assigned. -/
def Table.assignment (pg : Postgres) (tab : Table) (cols : List ℕ) (texts : List (List Byte)) :
    Option (List (ℕ × Value)) :=
  (cols.zip texts).mapM fun pair => (pg.store (tab.column pair.1) pair.2).map (pair.1, ·)

/-- The length of the buffers that hold keys, `MAX_KEY_LEN`. -/
def maxKeyLen : ℕ := 256

/-- The number of keys a table has room for, `MAX_KEYS`. -/
def maxKeys : ℕ := 16

/-- `getkbuf`: the key fields of a record, one after the other. -/
def getkbuf (tab : Table) (keyid : ℕ) (record : List Byte) : Except Stop (List Byte) :=
  match tab.keys[keyid]? with
  | none => .error .undefined
  | some cols =>
      if keyid < maxKeys ∧ (cols.map fun i => (tab.column i).len).sum ≤ maxKeyLen ∧
          ∀ i ∈ cols, (tab.column i).offset + (tab.column i).len ≤ record.length then
        .ok (cols.flatMap fun i => slice record (tab.column i).offset (tab.column i).len)
      else .error .undefined

/-- `atoi` of a text. -/
def atoi (text : List Byte) : ℤ :=
  let body := text.dropWhile fun byte => byte = 32 ∨ (9 ≤ byte ∧ byte ≤ 13)
  let digits (rest : List Byte) : ℤ := Decimal.value (textDigits (rest.takeWhile isDigit))
  match body with
  | [] => 0
  | first :: rest => if first = 45 then -digits rest else if first = 43 then digits rest
      else digits body

/-! ## Small changes of the state -/

def State.setStatus (st : State) (status : Status) : State :=
  { st with fcd := { st.fcd with status := status } }

def State.setKeyId (st : State) (keyid : ℕ) : State :=
  { st with fcd := { st.fcd with keyId := keyid } }

def State.setRecord (st : State) (record : List Byte) : State :=
  { st with fcd := { st.fcd with record := record } }

def State.setBufs (st : State) (bufs : List Byte) : State :=
  { st with tab := { st.tab with bufs := bufs } }

def State.setConn (st : State) (conn : Conn) : State := { st with conn := conn }

/-- Forget where a scan stands, as `op_rewrite` and `op_delete` do first. -/
def State.resetScan (st : State) : State :=
  { st with tab := { st.tab with restart := none, keyNext := none, keyPrev := none } }

/-- `unlock`. -/
def State.unlock (st : State) : State :=
  { st with
    tab := { st.tab with advisoryLock := 0 }
    pendingCommits := st.pendingCommits + 1 }

/-! ## op_read_random -/

/-- The columns of the WHERE part that `op_read_random` prepares for a key: all of them, or
all but the last in the probe of a weak table. -/
def randomColumns (tab : Table) (keyid : ℕ) (weak : Bool) : Except Stop (List ℕ) :=
  match tab.keys[keyid]?, weak with
  | some (first :: rest), false => .ok (first :: rest)
  | some (first :: second :: rest), true => .ok (first :: second :: rest).dropLast
  | _, _ => .error .undefined

/-- Whether `op_read_random` asks for an advisory lock when it prepares its statement. -/
def wantsLock (env : Env) (withLock : Bool) (kbuf : List Byte) (st : State) : Bool :=
  ((0 < st.fcd.openMode && st.fcd.lockAutomatic && !st.fcd.ignoreLock) || withLock) &&
    env.mode ≠ .W && 0 < st.tab.oid && 0 < atoi kbuf

/-- Prepare the statement of `op_read_random` unless it is prepared already. The result has
no columns when the record is locked by another process. -/
def prepareRandom (env : Env) (weak withLock : Bool) (kbuf : List Byte) (st : State) :
    Except Stop (Option (List ℕ) × State) :=
  match st.tab.readPrepared st.fcd.keyId with
  | some cols => .ok (some cols, st)
  | none => do
      let cols ← randomColumns st.tab st.fcd.keyId weak
      let asks := wantsLock env withLock kbuf st
      if asks && (st.conn.aborted || !env.pg.tryLock st.tab.oid (atoi kbuf)) then
        return (none, st)
      else
        st.conn.prepare st.tab.relation
        return (some cols, { st with tab := { st.tab with
          advisoryLock := if asks then atoi kbuf else st.tab.advisoryLock
          readPrepared := Function.update st.tab.readPrepared st.fcd.keyId (some cols) } })

/-- The parameters of a condition on key columns. -/
def keyParams (tab : Table) (cols : List ℕ) : List Param :=
  cols.map fun i => Param.key (tab.column i) (tab.chave i)

/-- The end of `op_read_random`: execute the statement and fetch the first row into the
record area, unless the table is only probed. -/
def fetchRandom (env : Env) (weak : Bool) (cols : List ℕ) (st : State) : Except Stop State := do
  let (bufs, texts) ← bindParams (keyParams st.tab cols) st.fcd.record st.tab.bufs
  let (conn, rows) := st.conn.select st.tab.relation (st.tab.condition env.pg cols texts)
  let st := (st.setBufs bufs).setConn conn
  match rows with
  | none | some [] => return st.setStatus stRecNotFound
  | some (row :: _) =>
      if weak then return st.setStatus stOk
      else
        let record ← pq2cob st.tab.columns row st.fcd.record
        return (st.setRecord record).setStatus stOk

/-- `op_read_random`. `weak` is set in the probe of a weak table by `op_start`. -/
def opReadRandom (env : Env) (weak withLock : Bool) (st : State) : Except Stop State :=
  if st.fcd.openMode = 128 then .ok (st.setStatus stNotOpenedRead)
  else do
    let st := if 0 < st.tab.advisoryLock then st.unlock else st
    let kbuf ← getkbuf st.tab st.fcd.keyId st.fcd.record
    match ← prepareRandom env weak withLock (cstr kbuf) st with
    | (none, st) => return st.setStatus stLocked
    | (some cols, st) => fetchRandom env weak cols st

/-! ## op_write -/

/-- The parameters of the INSERT. -/
def writeParams (tab : Table) : List Param :=
  (List.range tab.columns.length).map fun i => Param.write (tab.column i) (tab.chave i)

/-- The part of `op_write` that inserts the record. -/
def insertRecord (env : Env) (st : State) : Except Stop State := do
  if !st.tab.insPrepared then st.conn.prepare st.tab.relation
  let (bufs, texts) ← bindParams (writeParams st.tab) st.fcd.record st.tab.bufs
  let row := (st.tab.assignment env.pg (List.range st.tab.columns.length) texts).map
    fun values => values.map Prod.snd
  let (conn, done) := st.conn.exec env.pg (row.map (.insert st.tab.relation))
  let st := (st.setBufs bufs).setConn conn
  return { st.setStatus (if done then stOk else stError) with
    tab := { st.tab with insPrepared := true }
    pendingCommits := st.pendingCommits + 1 }

/-- `op_write` on a file that is not the control file. -/
def opWrite (env : Env) (st : State) : Except Stop State :=
  if st.fcd.openMode = 128 then .ok (st.setStatus stNotOpenedWrite)
  else do
    let keyid := st.fcd.keyId
    let st ← opReadRandom env false false (st.setKeyId 0)
    if st.fcd.status = stOk then return (st.setStatus stDuplKey).setKeyId keyid
    else
      let st ← insertRecord env st
      return st.setKeyId keyid

/-! ## op_rewrite -/

/-- The parameters of the UPDATE: the columns it sets, then the columns of key 0. -/
def rewriteParams (tab : Table) : List Param :=
  (setColumns tab.columns).map (fun i => Param.write (tab.column i) (tab.chave i)) ++
    (whereColumns tab.keys 0).map (fun i => Param.rewrite (tab.column i) (tab.chave i))

/-- The UPDATE that parameters stand for. -/
def updateStatement (pg : Postgres) (tab : Table) (texts : List (List Byte)) : Option Statement :=
  let set := setColumns tab.columns
  match tab.assignment pg set texts,
    tab.condition pg (whereColumns tab.keys 0) (texts.drop set.length) with
  | some values, some condition => some (.update tab.relation values condition)
  | _, _ => none

/-- Prepare the UPDATE. Without a column to set it is not SQL. -/
def prepareUpdate (st : State) : Except Stop Unit :=
  if setColumns st.tab.columns = [] then .error .exit else st.conn.prepare st.tab.relation

/-- The part of `op_rewrite` that updates the row. -/
def updateRecord (env : Env) (st : State) : Except Stop State := do
  if !st.tab.updPrepared then prepareUpdate st
  let (bufs, texts) ← bindParams (rewriteParams st.tab) st.fcd.record st.tab.bufs
  let (conn, done) := st.conn.exec env.pg (updateStatement env.pg st.tab texts)
  let st := (st.setBufs bufs).setConn conn
  return { st.setStatus (if done then stOk else stRecNotFound) with
    tab := { st.tab with updPrepared := true }
    pendingCommits := st.pendingCommits + 1 }

/-- `op_rewrite`, with its result. -/
def opRewrite (env : Env) (st : State) : Except Stop (Bool × State) :=
  if st.fcd.openMode = 128 then .ok (false, st.setStatus stNotOpenedUpdel)
  else do
    let keyid := st.fcd.keyId
    let record := st.fcd.record
    let st ← opReadRandom env false false (st.resetScan.setKeyId 0)
    if st.fcd.status ≠ stOk then return (false, st.setKeyId keyid)
    else if record = st.fcd.record then return (true, (st.setStatus stOk).setKeyId keyid)
    else
      let _ ← getkbuf st.tab 0 record
      let st ← updateRecord env (st.setRecord record)
      return (true, st.setKeyId keyid)

/-! ## op_delete -/

/-- The part of `op_delete` that deletes the row. -/
def deleteRecord (env : Env) (st : State) : Except Stop State := do
  if !st.tab.delPrepared then st.conn.prepare st.tab.relation
  let cols := whereColumns st.tab.keys 0
  let (bufs, texts) ← bindParams (keyParams st.tab cols) st.fcd.record st.tab.bufs
  let (conn, done) := st.conn.exec env.pg
    ((st.tab.condition env.pg cols texts).map (.delete st.tab.relation))
  let st := (st.setBufs bufs).setConn conn
  return { st.setStatus (if done then stOk else stRecNotFound) with
    tab := { st.tab with delPrepared := true }
    pendingCommits := st.pendingCommits + 1 }

/-- `op_delete`. It reads by the key in use, which need not be key 0. -/
def opDelete (env : Env) (st : State) : Except Stop State :=
  if st.fcd.openMode = 128 then .ok (st.setStatus stNotOpenedUpdel)
  else do
    let st ← opReadRandom env false false st.resetScan
    if st.fcd.status ≠ stOk then return st.setStatus stRecNotFound
    else
      let _ ← getkbuf st.tab 0 st.fcd.record
      deleteRecord env st

end Pqfh
