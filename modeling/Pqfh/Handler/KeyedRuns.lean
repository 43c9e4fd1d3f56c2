import Pqfh.Handler.DualWrite
import Pqfh.Handler.Keyed

/-! # The handler as a set of indexed files

In mode B the database alone keeps the files. A program works on several open files, some of them on
one table, and commits when it likes. As long as its records can be kept (`Pqfh.Storable`), a call
does on its table what the call of an indexed file does, and gives back what this gives
(`Pqfh.callFile_refines`).
-/

namespace Pqfh

open KeyedStore

variable {σ : Type}

/-! ## The operations as calls of an indexed file -/

/-- The fcd with the answer of an indexed file. A record found is put over the record area, also by
a WRITE that is refused. -/
def Fcd.answered (fcd : Fcd) (size : ℕ) : Reply (List Byte) → Fcd
  | .done => { fcd with status := stOk }
  | .found record => { fcd with status := stOk, record := record ++ fcd.record.drop size }
  | .refused record =>
      { fcd with status := stDuplKey, record := record ++ fcd.record.drop size }
  | .missing => { fcd with status := stRecNotFound }

/-- An operation has done what a call does on the records that the table stands for. -/
structure Performs (st : State) (records : List (List Byte))
    (request : Call (List Byte) (List Byte)) (st' : State) (records' : List (List Byte)) :
    Prop where
  store : (perform (st.tab.keyOf 0) request (ofList (st.tab.keyOf 0) records)).2 =
    ofList (st.tab.keyOf 0) records'
  recordOf : ∀ record ∈ records', RecordOf st.tab.columns record
  distinct : (records'.map (st.tab.keyOf 0)).Nodup
  moves : Moves st st' st'.fcd.status st'.fcd.record (records'.map (rowOf st.tab.columns))
  answer : st'.fcd = st.fcd.answered (totalLen st.tab.columns)
    (perform (st.tab.keyOf 0) request (ofList (st.tab.keyOf 0) records)).1

/-- What an operation did is read off the state it left. -/
theorem Moves.self {st st' : State} {status : Status} {area : List Byte} {rows : List Row}
    (moves : Moves st st' status area rows) :
    Moves st st' st'.fcd.status st'.fcd.record rows := by
  have status := moves.fcd
  rw [status]
  exact moves

section Operations

variable {env : Env} {st : State} {records : List (List Byte)}

/-- READ by key does what the store of records does. -/
theorem opReadRandom_performs (withLock : Bool)
    (server : KeyedServer env.pg st.tab.relation st.tab.keys) (keyed : KeyedState st records)
    (primary : st.fcd.keyId = 0) (probe : KeyOk st.tab 0 st.fcd.record) :
    ∃ st', opReadRandom env false withLock st = .ok st' ∧
      Performs st records (.read (st.tab.keyOf 0 st.fcd.record)) st' records := by
  obtain ⟨st', read, found⟩ := opReadRandom_keyed withLock server keyed
    (primary ▸ keyed.table.primary) (primary ▸ probe)
  rw [primary] at found
  refine ⟨st', read, ?_⟩
  cases stored : ofList (st.tab.keyOf 0) records (st.tab.keyOf 0 st.fcd.record) with
  | some record =>
      rw [stored] at found
      exact ⟨by simp only [perform, stored], keyed.recordOf, keyed.distinct, found.self,
        by simp only [perform, stored]; exact found.fcd⟩
  | none =>
      rw [stored] at found
      exact ⟨by simp only [perform, stored], keyed.recordOf, keyed.distinct, found.self,
        by simp only [perform, stored]; exact found.fcd⟩

/-- WRITE does what the store of records does. -/
theorem opWrite_performs (server : KeyedServer env.pg st.tab.relation st.tab.keys)
    (keyed : KeyedState st records) (storable : Storable st.tab st.fcd.record) :
    ∃ st' records', opWrite env st = .ok st' ∧ Performs st records
      (.write (st.fcd.record.take (totalLen st.tab.columns))) st' records' := by
  obtain ⟨st', wrote, moves⟩ := opWrite_keyed server keyed storable
  have key := keyed.table.keyOf_take st.fcd.record
  cases stored : ofList (st.tab.keyOf 0) records (st.tab.keyOf 0 st.fcd.record) with
  | some record =>
      rw [stored] at moves
      refine ⟨st', records, wrote, ?_⟩
      exact ⟨by simp only [perform, key, stored], keyed.recordOf, keyed.distinct, moves.self,
        by simp only [perform, key, stored]; exact moves.fcd⟩
  | none =>
      rw [stored] at moves
      refine ⟨st', records ++ [st.fcd.record.take (totalLen st.tab.columns)], wrote, ?_⟩
      have new := storable.wellFormed.take keyed.table.laid keyed.room
      rw [← key] at stored
      exact
        { store := by
            simp only [perform, stored]
            exact (ofList_append _ stored).symm
          recordOf := by
            intro record member
            rcases List.mem_append.mp member with old | added
            · exact keyed.recordOf record old
            · rw [List.mem_singleton.mp added]
              exact new
          distinct := nodup_append _ keyed.distinct stored
          moves := moves.self
          answer := by
            simp only [perform, stored]
            exact moves.fcd }

/-- REWRITE does what the store of records does, and says whether it did. -/
theorem opRewrite_performs (server : KeyedServer env.pg st.tab.relation st.tab.keys)
    (keyed : KeyedState st records) (storable : Storable st.tab st.fcd.record) :
    ∃ done st' records', opRewrite env st = .ok (done, st') ∧
      (done = true ↔ st'.fcd.status = stOk) ∧ Performs st records
        (.rewrite (st.fcd.record.take (totalLen st.tab.columns))) st' records' := by
  obtain ⟨done, st', rewrote, moves⟩ := opRewrite_keyed server keyed storable
  have key := keyed.table.keyOf_take st.fcd.record
  cases stored : ofList (st.tab.keyOf 0) records (st.tab.keyOf 0 st.fcd.record) with
  | none =>
      rw [stored] at moves
      have status : st'.fcd.status = stRecNotFound := by rw [moves.2.fcd]
      refine ⟨done, st', records, rewrote, ?_, ?_⟩
      · rw [moves.1, status]
        decide
      exact ⟨by simp only [perform, key, stored], keyed.recordOf, keyed.distinct, moves.2.self,
        by simp only [perform, key, stored]; exact moves.2.fcd⟩
  | some record =>
      rw [stored] at moves
      refine ⟨done, st', replace (st.tab.keyOf 0)
        (st.fcd.record.take (totalLen st.tab.columns)) records, rewrote, ?_, ?_⟩
      · have status : st'.fcd.status = stOk := by rw [moves.2.fcd]
        exact iff_of_true moves.1 status
      have new := storable.wellFormed.take keyed.table.laid keyed.room
      rw [← key] at stored
      exact
        { store := by
            simp only [perform, stored]
            exact (ofList_replace keyed.distinct (by rw [stored]; exact Option.some_ne_none _)).symm
          recordOf := by
            intro record member
            rcases mem_replace member with rfl | old
            · exact new
            · exact keyed.recordOf record old
          distinct := by rw [map_key_replace]; exact keyed.distinct
          moves := moves.2.self
          answer := by
            simp only [perform, stored]
            exact moves.2.fcd }

/-- DELETE does what the store of records does. -/
theorem opDelete_performs (server : KeyedServer env.pg st.tab.relation st.tab.keys)
    (keyed : KeyedState st records) (primary : st.fcd.keyId = 0)
    (probe : KeyOk st.tab 0 st.fcd.record) :
    ∃ st' records', opDelete env st = .ok st' ∧
      Performs st records (.delete (st.tab.keyOf 0 st.fcd.record)) st' records' := by
  obtain ⟨st', deleted, moves⟩ := opDelete_keyed server keyed primary probe
  cases stored : ofList (st.tab.keyOf 0) records (st.tab.keyOf 0 st.fcd.record) with
  | none =>
      rw [stored] at moves
      refine ⟨st', records, deleted, ?_⟩
      exact ⟨by simp only [perform, stored], keyed.recordOf, keyed.distinct, moves.self,
        by simp only [perform, stored]; exact moves.fcd⟩
  | some record =>
      rw [stored] at moves
      refine ⟨st', remove (st.tab.keyOf 0) (st.tab.keyOf 0 st.fcd.record) records, deleted, ?_⟩
      exact
        { store := by
            simp only [perform, stored]
            exact (ofList_remove _).symm
          recordOf := fun record member => keyed.recordOf record (List.mem_of_mem_filter member)
          distinct := nodup_remove _ keyed.distinct
          moves := moves.self
          answer := by
            simp only [perform, stored]
            exact moves.fcd }

end Operations

/-! ## Calls of a program -/

/-- The operations of an indexed file by its primary key, and COMMIT. -/
inductive FileOp where
  | read (lock : Bool)
  | write
  | rewrite
  | delete
  | commit
  deriving DecidableEq

/-- The operation code. -/
def FileOp.opcode : FileOp → Opcode
  | .read false => .readRandom
  | .read true => .readLock
  | .write => .write
  | .rewrite => .rewrite
  | .delete => .delete
  | .commit => .commit

/-- A call of a program, with the fcd as the program leaves it and what the memory happens to
hold. -/
structure FileCall where
  op : FileOp
  fcd : Fcd
  garbage : Garbage

/-- The files that are open, with their tables, the tables that are kept as files, open or not, and
what they look like. -/
structure FileSet where
  relation : ℕ → Option ℕ
  kept : ℕ → Prop
  layout : ℕ → Table

/-- The call of an indexed file that an operation is, for a record area. -/
def FileOp.request (op : FileOp) (tab : Table) (area : List Byte) :
    Option (Call (List Byte) (List Byte)) :=
  match op with
  | .read _ => some (.read (tab.keyOf 0 area))
  | .write => some (.write (area.take (totalLen tab.columns)))
  | .rewrite => some (.rewrite (area.take (totalLen tab.columns)))
  | .delete => some (.delete (tab.keyOf 0 area))
  | .commit => none

/-- What a call makes of the records of the tables, and what it returns. -/
def FileSet.serve (files : FileSet) (call : FileCall)
    (stores : ℕ → Records (List Byte) (List Byte)) :
    Reply (List Byte) × (ℕ → Records (List Byte) (List Byte)) :=
  match files.relation call.fcd.fileId with
  | none => (.done, stores)
  | some relation =>
      let tab := files.layout relation
      match call.op.request tab call.fcd.record with
      | none => (.done, stores)
      | some request =>
          let (reply, store) := KeyedStore.perform (tab.keyOf 0) request (stores relation)
          (reply, Function.update stores relation store)

/-- The fcd that a call gives back. COMMIT changes nothing. -/
def FileSet.answer (files : FileSet) (call : FileCall) (reply : Reply (List Byte)) : Fcd :=
  if call.op = .commit then call.fcd
  else call.fcd.answered
    (totalLen (files.layout ((files.relation call.fcd.fileId).getD 0)).columns) reply

/-- A call on an open file by its primary key, with a record that the table can keep. -/
structure FileSet.Admits (files : FileSet) (call : FileCall) : Prop where
  known : (files.relation call.fcd.fileId).isSome
  opened : call.fcd.openMode ≠ 128
  kept : call.fcd.isam = false
  primary : call.fcd.keyId = 0
  room : ∀ relation ∈ files.relation call.fcd.fileId,
    totalLen (files.layout relation).columns ≤ call.fcd.record.length
  probe : ∀ relation ∈ files.relation call.fcd.fileId,
    KeyOk (files.layout relation) 0 call.fcd.record
  storable : call.op = .write ∨ call.op = .rewrite →
    ∀ relation ∈ files.relation call.fcd.fileId, Storable (files.layout relation) call.fcd.record

/-- The table that a file has open. -/
structure FileSet.Open (files : FileSet) (relation : ℕ) (tab : Table) : Prop where
  table : KeyedTable tab
  named : tab.relation = relation
  columns : tab.columns = (files.layout relation).columns
  keys : tab.keys = (files.layout relation).keys

/-- The server keeps the keys of a table that is open. -/
theorem FileSet.Open.server {files : FileSet} {relation : ℕ} {tab : Table}
    (isOpen : files.Open relation tab) {pg : Postgres}
    (server : KeyedServer pg relation (files.layout relation).keys) :
    KeyedServer pg tab.relation tab.keys := by
  rw [isOpen.named, isOpen.keys]
  exact server

/-- The tables stand for the stores. -/
structure FileSet.Stands (files : FileSet) (proc : Process)
    (stores : ℕ → Records (List Byte) (List Byte)) : Prop where
  running : proc.conn.aborted = false
  tables : ∀ file relation, files.relation file = some relation →
    files.kept relation ∧ ∃ tab, proc.tables file = some tab ∧ files.Open relation tab
  rows : ∀ relation, files.kept relation → ∃ records,
    proc.conn.working relation = some (records.map (rowOf (files.layout relation).columns)) ∧
      (∀ record ∈ records, RecordOf (files.layout relation).columns record) ∧
      (records.map ((files.layout relation).keyOf 0)).Nodup ∧
      stores relation = ofList ((files.layout relation).keyOf 0) records

/-- The tables of a process are scanned on where they were. -/
structure Process.ScansOn (proc proc' : Process) : Prop where
  weak : proc'.weak = proc.weak
  eofStart : proc'.eofStart = proc.eofStart
  tables : ∀ file tab', proc'.tables file = some tab' →
    ∃ tab, proc.tables file = some tab ∧ tab.ScansOn tab'
  cursors : ∀ handle,
    (proc'.conn.cursors handle).map Cursor.rows = (proc.conn.cursors handle).map Cursor.rows

/-- A call of `pqfh`, with the fcd that it gives back. -/
def callFile (extfh : Extfh σ) (env : Env) (call : FileCall) (sys : Sys σ) :
    Except Stop (Fcd × Sys σ) := do
  let sys ← pqfh extfh env call.garbage call.op.opcode { sys with fcd := call.fcd }
  return (sys.fcd, sys)

/-! ## A call on a table -/

section Calls

variable {files : FileSet} {sys : Sys σ} {stores : ℕ → Records (List Byte) (List Byte)}

/-- An operation on an open file that has a table. -/
theorem Sys.run_of {closed : Status} {op : State → Except Stop State} {tab : Table} {st' : State}
    (opened : sys.fcd.openMode ≠ 128) (live : sys.proc.tables sys.fcd.fileId = some tab)
    (operated : op (sys.state tab) = .ok st') : sys.run closed op = .ok (sys.put st') := by
  unfold Sys.run Sys.onTable
  rw [if_neg opened, live]
  dsimp only
  rw [operated]
  rfl

/-- REWRITE of an open file is the operation on its table. -/
theorem Sys.opRewrite_of {env : Env} {tab : Table} {done : Bool} {st' : State}
    (opened : sys.fcd.openMode ≠ 128) (live : sys.proc.tables sys.fcd.fileId = some tab)
    (operated : Pqfh.opRewrite env (sys.state tab) = .ok (done, st')) :
    sys.opRewrite env = .ok (done, sys.put st') := by
  unfold Sys.opRewrite Sys.onTable
  rw [if_neg opened, live]
  dsimp only
  rw [operated]
  rfl

/-- In mode B a call on a file that is kept in the database goes there. -/
theorem pqfh_database {extfh : Extfh σ} {env : Env} {garbage : Garbage} {opcode : Opcode}
    (mode : env.mode = .B) (kept : sys.fcd.isam = false) (other : opcode ≠ .commit) :
    pqfh extfh env garbage opcode sys = databaseOp extfh env garbage [] opcode sys := by
  have same : sys.setIsam false = sys := by
    unfold Sys.setIsam
    rw [← kept]
  unfold pqfh
  simp only [same, ite_self, mode, other, decide_false, Bool.and_false, Bool.false_and,
    reduceCtorEq, Bool.false_eq_true, ↓reduceIte, kept]
  unfold direct
  apply if_neg
  rw [mode]
  exact fun both => nomatch both.1

/-- The state of the table that an open file has. -/
theorem FileSet.Stands.keyed (stands : files.Stands sys.proc stores) {relation : ℕ}
    (here : files.relation sys.fcd.fileId = some relation) (opened : sys.fcd.openMode ≠ 128)
    (room : totalLen (files.layout relation).columns ≤ sys.fcd.record.length) :
    ∃ tab records, sys.proc.tables sys.fcd.fileId = some tab ∧ files.Open relation tab ∧
      KeyedState (sys.state tab) records ∧ stores relation = ofList (tab.keyOf 0) records := by
  obtain ⟨kept, tab, live, isOpen⟩ := stands.tables _ _ here
  obtain ⟨records, present, recordOf, distinct, store⟩ := stands.rows _ kept
  have key := keyOf_congr isOpen.columns isOpen.keys 0
  refine ⟨tab, records, live, isOpen, ?_, by rw [key]; exact store⟩
  exact
    { table := isOpen.table
      opened := opened
      room := by
        change totalLen tab.columns ≤ _
        rw [isOpen.columns]
        exact room
      running := stands.running
      present := by
        change sys.proc.conn.working tab.relation = some (records.map (rowOf tab.columns))
        rw [isOpen.named, isOpen.columns]
        exact present
      recordOf := by
        change ∀ record ∈ records, RecordOf tab.columns record
        rw [isOpen.columns]
        exact recordOf
      distinct := by
        change (records.map (tab.keyOf 0)).Nodup
        rw [key]
        exact distinct }

/-- The tables after an operation on one of them. -/
theorem FileSet.Stands.put (stands : files.Stands sys.proc stores) {relation : ℕ}
    (here : files.relation sys.fcd.fileId = some relation) {tab : Table} {st' : State}
    {status : Status} {area : List Byte} {records' : List (List Byte)}
    (isOpen : files.Open relation tab)
    (moves : Moves (sys.state tab) st' status area (records'.map (rowOf tab.columns)))
    (recordOf : ∀ record ∈ records', RecordOf tab.columns record)
    (distinct : (records'.map (tab.keyOf 0)).Nodup) :
    files.Stands (sys.put st').proc
      (Function.update stores relation (ofList (tab.keyOf 0) records')) where
  running := moves.running
  tables := by
    intro file other there
    change files.kept other ∧ ∃ tab', Function.update sys.proc.tables sys.fcd.fileId
      (some st'.tab) file = some tab' ∧ _
    by_cases same : file = sys.fcd.fileId
    · subst same
      rw [here, Option.some_inj] at there
      subst there
      rw [Function.update_self]
      refine ⟨(stands.tables _ _ here).1, _, rfl, moves.table isOpen.table, ?_, ?_, ?_⟩
      · exact moves.relation.trans isOpen.named
      · exact moves.columns.trans isOpen.columns
      · exact moves.keys.trans isOpen.keys
    · rw [Function.update_of_ne same]
      exact stands.tables file other there
  rows := by
    intro other there
    change ∃ records, st'.conn.working other = _ ∧ _
    rw [moves.working]
    change ∃ records, Function.update sys.proc.conn.working tab.relation _ other = _ ∧ _
    rw [isOpen.named]
    by_cases same : other = relation
    · subst same
      rw [Function.update_self, Function.update_self, ← isOpen.columns,
        ← keyOf_congr isOpen.columns isOpen.keys 0]
      exact ⟨records', rfl, recordOf, distinct, rfl⟩
    · rw [Function.update_of_ne same, Function.update_of_ne same]
      exact stands.rows other there

/-- An operation on one table leaves the scans of the others. -/
theorem Sys.put_scansOn {tab : Table} {st' : State}
    (live : sys.proc.tables sys.fcd.fileId = some tab) (scan : ScansOn (sys.state tab) st') :
    sys.proc.ScansOn (sys.put st').proc where
  weak := rfl
  eofStart := scan.eofStart
  tables := by
    intro file tab' there
    change Function.update sys.proc.tables sys.fcd.fileId (some st'.tab) file = some tab' at there
    by_cases same : file = sys.fcd.fileId
    · subst same
      rw [Function.update_self, Option.some_inj] at there
      subst there
      exact ⟨tab, live, scan.toScansOn⟩
    · rw [Function.update_of_ne same] at there
      exact ⟨tab', there, .refl tab'⟩
  cursors := by
    intro handle
    change (st'.conn.cursors handle).map Cursor.rows = _
    rw [scan.cursors]
    rfl

/-- The cursors outlive a COMMIT. -/
theorem pqfhCommit_scansOn (running : sys.proc.conn.aborted = false) :
    sys.proc.ScansOn sys.pqfhCommit.proc where
  weak := rfl
  eofStart := rfl
  tables := fun _ tab' there => ⟨tab', there, .refl tab'⟩
  cursors := by
    intro handle
    change (sys.proc.conn.commit.cursors handle).map Cursor.rows = _
    unfold Conn.commit
    rw [running, if_neg Bool.false_ne_true]
    dsimp only
    cases sys.proc.conn.cursors handle with
    | none => rfl
    | some cursor => rfl

/-- The rows are still there when the transaction is committed. -/
theorem FileSet.Stands.commit (stands : files.Stands sys.proc stores) :
    files.Stands sys.pqfhCommit.proc stores where
  running := by
    change (sys.proc.conn.commit).aborted = false
    unfold Conn.commit
    rw [stands.running, if_neg Bool.false_ne_true]
  tables := stands.tables
  rows := by
    have working : sys.pqfhCommit.proc.conn.working = sys.proc.conn.working := by
      change sys.proc.conn.commit.working = _
      unfold Conn.commit
      rw [stands.running]
      rfl
    rw [working]
    exact stands.rows

/-- The rows are gone when the table is truncated. -/
theorem FileSet.Stands.truncate {proc : Process} (stands : files.Stands proc stores)
    {relation : ℕ} (kept : files.kept relation) {pg : Postgres}
    (granted : pg.refusesDdl (.truncate relation) proc.conn.working = false) :
    files.Stands { proc with conn := (proc.conn.execDdl pg (.truncate relation)).1 }
      (Function.update stores relation fun _ => none) := by
  obtain ⟨records, present, _⟩ := stands.rows relation kept
  have applied : (Ddl.truncate relation).apply proc.conn.working =
      some (Function.update proc.conn.working relation (some [])) :=
    if_pos (by rw [present]; rfl)
  have truncated : proc.conn.execDdl pg (.truncate relation) = ({ proc.conn with
      working := Function.update proc.conn.working relation (some []) }, true) := by
    unfold Conn.execDdl
    rw [if_neg (by rw [stands.running]; exact Bool.false_ne_true), applied]
    dsimp only
    rw [granted]
    rfl
  rw [truncated]
  refine ⟨stands.running, stands.tables, ?_⟩
  intro other there
  change ∃ records, Function.update proc.conn.working relation (some []) other = _ ∧ _
  by_cases same : other = relation
  · subst same
    rw [Function.update_self, Function.update_self]
    exact ⟨[], rfl, nofun, List.nodup_nil, rfl⟩
  · rw [Function.update_of_ne same, Function.update_of_ne same]
    exact stands.rows other there

/-- An operation on the database has done what a call of an indexed file does. -/
structure FileSet.Does (files : FileSet) (relation : ℕ)
    (stores : ℕ → Records (List Byte) (List Byte)) (request : Call (List Byte) (List Byte))
    (sys sys' : Sys σ) : Prop where
  fcd : sys'.fcd = sys.fcd.answered (totalLen (files.layout relation).columns)
    (perform ((files.layout relation).keyOf 0) request (stores relation)).1
  native : sys'.files = sys.files
  free : sys'.proc.free = sys.proc.free
  scans : sys.proc.ScansOn sys'.proc
  stands : files.Stands sys'.proc (Function.update stores relation
    (perform ((files.layout relation).keyOf 0) request (stores relation)).2)

/-- What is done on the table of a file is done on the store of its relation, and the others stand.
-/
theorem FileSet.Stands.does (stands : files.Stands sys.proc stores) {relation : ℕ}
    (here : files.relation sys.fcd.fileId = some relation) {tab : Table}
    (live : sys.proc.tables sys.fcd.fileId = some tab) (isOpen : files.Open relation tab)
    {records records' : List (List Byte)} (store : stores relation = ofList (tab.keyOf 0) records)
    {request : Call (List Byte) (List Byte)} {st' : State}
    (performs : Performs (sys.state tab) records request st' records') :
    files.Does relation stores request sys (sys.put st') := by
  have key := keyOf_congr isOpen.columns isOpen.keys 0
  have after : (perform (tab.keyOf 0) request (ofList (tab.keyOf 0) records)).2 =
    ofList (tab.keyOf 0) records' := performs.store
  rw [← store, key] at after
  have answer : st'.fcd = sys.fcd.answered (totalLen tab.columns)
    (perform (tab.keyOf 0) request (ofList (tab.keyOf 0) records)).1 := performs.answer
  rw [← store, key, isOpen.columns] at answer
  refine ⟨answer, rfl, rfl, Sys.put_scansOn live performs.moves.scan, ?_⟩
  rw [after, ← key]
  exact stands.put here isOpen performs.moves performs.recordOf performs.distinct

/-- What a call asks of an open file. -/
structure FileSet.Usable (files : FileSet) (env : Env) (relation : ℕ) (fcd : Fcd) : Prop where
  here : files.relation fcd.fileId = some relation
  server : KeyedServer env.pg relation (files.layout relation).keys
  opened : fcd.openMode ≠ 128
  primary : fcd.keyId = 0
  room : totalLen (files.layout relation).columns ≤ fcd.record.length

section Database

variable {env : Env} {relation : ℕ}

/-- READ by key of one file among several. -/
theorem FileSet.Stands.readRandom (stands : files.Stands sys.proc stores)
    (usable : files.Usable env relation sys.fcd)
    (probe : KeyOk (files.layout relation) 0 sys.fcd.record) (lock : Bool) :
    ∃ sys', sys.run stNotOpenedRead (opReadRandom env false lock) = .ok sys' ∧
      files.Does relation stores (.read ((files.layout relation).keyOf 0 sys.fcd.record)) sys
        sys' := by
  obtain ⟨tab, records, live, isOpen, keyed, store⟩ :=
    stands.keyed usable.here usable.opened usable.room
  obtain ⟨st', read, performs⟩ := opReadRandom_performs lock
    (isOpen.server usable.server) keyed usable.primary (probe.congr isOpen.columns isOpen.keys)
  have key := keyOf_congr isOpen.columns isOpen.keys 0
  refine ⟨_, Sys.run_of usable.opened live read, ?_⟩
  rw [← key]
  exact stands.does usable.here live isOpen store performs

/-- WRITE of one file among several. -/
theorem FileSet.Stands.write (stands : files.Stands sys.proc stores)
    (usable : files.Usable env relation sys.fcd)
    (storable : Storable (files.layout relation) sys.fcd.record) :
    ∃ sys', sys.run stNotOpenedWrite (opWrite env) = .ok sys' ∧
      files.Does relation stores
        (.write (sys.fcd.record.take (totalLen (files.layout relation).columns))) sys sys' := by
  obtain ⟨tab, records, live, isOpen, keyed, store⟩ :=
    stands.keyed usable.here usable.opened usable.room
  obtain ⟨st', records', wrote, performs⟩ := opWrite_performs (isOpen.server usable.server) keyed
    (storable.congr isOpen.columns isOpen.keys)
  refine ⟨_, Sys.run_of usable.opened live wrote, ?_⟩
  rw [← isOpen.columns]
  exact stands.does usable.here live isOpen store performs

/-- REWRITE of one file among several. -/
theorem FileSet.Stands.rewrite (stands : files.Stands sys.proc stores)
    (usable : files.Usable env relation sys.fcd)
    (storable : Storable (files.layout relation) sys.fcd.record) :
    ∃ done sys', sys.opRewrite env = .ok (done, sys') ∧ (done = true ↔ sys'.fcd.status = stOk) ∧
      files.Does relation stores
        (.rewrite (sys.fcd.record.take (totalLen (files.layout relation).columns))) sys sys' := by
  obtain ⟨tab, records, live, isOpen, keyed, store⟩ :=
    stands.keyed usable.here usable.opened usable.room
  obtain ⟨done, st', records', rewrote, status, performs⟩ := opRewrite_performs
    (isOpen.server usable.server) keyed (storable.congr isOpen.columns isOpen.keys)
  refine ⟨_, _, Sys.opRewrite_of usable.opened live rewrote, status, ?_⟩
  rw [← isOpen.columns]
  exact stands.does usable.here live isOpen store performs

/-- DELETE of one file among several. -/
theorem FileSet.Stands.delete (stands : files.Stands sys.proc stores)
    (usable : files.Usable env relation sys.fcd)
    (probe : KeyOk (files.layout relation) 0 sys.fcd.record) :
    ∃ sys', sys.run stNotOpenedUpdel (opDelete env) = .ok sys' ∧
      files.Does relation stores (.delete ((files.layout relation).keyOf 0 sys.fcd.record)) sys
        sys' := by
  obtain ⟨tab, records, live, isOpen, keyed, store⟩ :=
    stands.keyed usable.here usable.opened usable.room
  obtain ⟨st', records', deleted, performs⟩ := opDelete_performs (isOpen.server usable.server)
    keyed usable.primary (probe.congr isOpen.columns isOpen.keys)
  have key := keyOf_congr isOpen.columns isOpen.keys 0
  refine ⟨_, Sys.run_of usable.opened live deleted, ?_⟩
  rw [← key]
  exact stands.does usable.here live isOpen store performs

end Database

end Calls

/-! ## Calls and runs -/

section Runs

variable {extfh : Extfh σ} {env : Env} {files : FileSet}

/-- A call on an open file is performed on the records of its table. -/
theorem FileSet.serve_open {call : FileCall} {relation : ℕ}
    (here : files.relation call.fcd.fileId = some relation)
    {request : Call (List Byte) (List Byte)}
    (requested : call.op.request (files.layout relation) call.fcd.record = some request)
    (stores : ℕ → Records (List Byte) (List Byte)) :
    files.serve call stores =
      ((KeyedStore.perform ((files.layout relation).keyOf 0) request (stores relation)).1,
        Function.update stores relation
          (KeyedStore.perform ((files.layout relation).keyOf 0) request (stores relation)).2) := by
  unfold FileSet.serve
  rw [here]
  dsimp only
  rw [requested]

/-- What a call returns and leaves when its operation has done what an indexed file does. -/
theorem FileSet.Does.called {sys sys' : Sys σ} {stores : ℕ → Records (List Byte) (List Byte)}
    {call : FileCall} {relation : ℕ} (here : files.relation call.fcd.fileId = some relation)
    {request : Call (List Byte) (List Byte)}
    (requested : call.op.request (files.layout relation) call.fcd.record = some request)
    (does : files.Does relation stores request { sys with fcd := call.fcd } sys')
    (called : pqfh extfh env call.garbage call.op.opcode { sys with fcd := call.fcd } = .ok sys') :
    ∃ sys', callFile extfh env call sys =
        .ok (files.answer call (files.serve call stores).1, sys') ∧
      files.Stands sys'.proc (files.serve call stores).2 ∧ sys'.proc.free = sys.proc.free ∧
      sys.proc.ScansOn sys'.proc := by
  have other : call.op ≠ .commit := by
    intro commit
    rw [commit] at requested
    cases requested
  have performed := files.serve_open here requested stores
  refine ⟨sys', ?_, ?_, does.free, does.scans⟩
  · unfold callFile
    rw [called, ok_bind, performed]
    unfold FileSet.answer
    rw [if_neg other, here, Option.getD_some]
    exact congrArg (fun fcd => Except.ok (fcd, sys')) does.fcd
  · rw [performed]
    exact does.stands

/-- A call in mode B does on its table what the call of an indexed file does. -/
theorem callFile_refines (mode : env.mode = .B)
    (server : ∀ file relation, files.relation file = some relation →
      KeyedServer env.pg relation (files.layout relation).keys)
    (call : FileCall) (sys : Sys σ) (stores : ℕ → Records (List Byte) (List Byte))
    (admits : files.Admits call) (stands : files.Stands sys.proc stores) :
    ∃ sys', callFile extfh env call sys =
        .ok (files.answer call (files.serve call stores).1, sys') ∧
      files.Stands sys'.proc (files.serve call stores).2 ∧ sys'.proc.free = sys.proc.free ∧
      sys.proc.ScansOn sys'.proc := by
  obtain ⟨relation, here⟩ := Option.isSome_iff_exists.mp admits.known
  have usable : files.Usable env relation ({ sys with fcd := call.fcd } : Sys σ).fcd :=
    ⟨here, server _ _ here, admits.opened, admits.primary, admits.room relation here⟩
  have probe := admits.probe relation here
  have storable := fun changes => admits.storable changes relation here
  have database := fun other => @pqfh_database σ { sys with fcd := call.fcd } extfh env
    call.garbage call.op.opcode mode admits.kept other
  have stands' : files.Stands ({ sys with fcd := call.fcd } : Sys σ).proc stores := stands
  have shadow : ∀ op : Except Stop (Sys σ),
      unlessShadow env { sys with fcd := call.fcd } op = op := by
    intro op
    unfold unlessShadow
    rw [mode, if_neg (by decide)]
  cases op : call.op with
  | read lock =>
      obtain ⟨sys', read, does⟩ := stands'.readRandom usable probe lock
      apply does.called here (by rw [op]; rfl)
      rw [database (by rw [op]; cases lock <;> exact nofun), op]
      cases lock with
      | false => exact (shadow _).trans read
      | true => exact (shadow _).trans read
  | write =>
      obtain ⟨sys', wrote, does⟩ := stands'.write usable (storable (Or.inl op))
      apply does.called here (by rw [op]; rfl)
      rw [database (by rw [op]; exact nofun), op]
      change writeBoth extfh env _ = _
      unfold writeBoth
      rw [wrote, ok_bind, mode]
      rfl
  | rewrite =>
      obtain ⟨done, sys', rewrote, _, does⟩ := stands'.rewrite usable (storable (Or.inr op))
      apply does.called here (by rw [op]; rfl)
      rw [database (by rw [op]; exact nofun), op]
      change rewriteBoth extfh env _ _ = _
      unfold rewriteBoth
      rw [rewrote, ok_bind, mode]
      rfl
  | delete =>
      obtain ⟨sys', deleted, does⟩ := stands'.delete usable probe
      apply does.called here (by rw [op]; rfl)
      rw [database (by rw [op]; exact nofun), op]
      change deleteBoth extfh env _ = _
      unfold deleteBoth
      rw [deleted, ok_bind, mode]
      rfl
  | commit =>
      refine ⟨Sys.pqfhCommit { sys with fcd := call.fcd }, ?_, ?_, rfl,
        @pqfhCommit_scansOn σ { sys with fcd := call.fcd } stands.running⟩
      · have committed : pqfh extfh env call.garbage call.op.opcode { sys with fcd := call.fcd } =
            .ok (Sys.pqfhCommit { sys with fcd := call.fcd }) := by
          rw [op]
          simp [pqfh, direct, databaseOp, FileOp.opcode, mode, Sys.pqfhCommit, admits.kept]
        unfold callFile FileSet.answer
        rw [committed, ok_bind, if_pos op]
        rfl
      · unfold FileSet.serve
        rw [here, op]
        exact stands'.commit

end Runs

/-- The file of people, open as file 0. -/
def peopleFiles : FileSet where
  relation := fun file => if file = 0 then some 1 else none
  kept := fun relation => relation = 1
  layout := fun _ => peopleTable

/-- The process that has the file of people open. -/
def peopleOpen : Sys Unit where
  files := ()
  proc :=
    { conn := (people 0).conn
      pendingCommits := 0
      inTransaction := false
      eofStart := false
      weak := []
      ncomps := 0
      tables := fun _ => some peopleTable
      free := 1 }
  fcd := openedFcd 0 [49, 65]

/-- A person has a digit as key and a letter behind it. -/
theorem peopleTable_keyed : KeyedTable peopleTable where
  laid := by decide
  few := by decide
  short := by decide
  size := List.length_replicate
  count := by decide
  primary := by decide
  keys := by decide
  once := by decide
  flags := by decide
  whole := by decide
  prepared := nofun

/-- The plain server keeps the keys of every relation. -/
theorem plainServer_keyed (relation : ℕ) (keys : List (List ℕ)) :
    KeyedServer plainServer.pg relation keys := ⟨fun _ _ _ _ _ _ => rfl, fun _ _ => rfl⟩

/-- Two people stand in the file. -/
theorem peopleOpen_stands : peopleFiles.Stands peopleOpen.proc fun _ =>
    ofList (peopleTable.keyOf 0) [[49, 65], [50, 65]] where
  running := rfl
  tables := by
    intro file relation there
    unfold peopleFiles at there
    dsimp only at there
    split at there
    · cases there
      exact ⟨rfl, peopleTable, rfl, peopleTable_keyed, rfl, rfl, rfl⟩
    · cases there
  rows := by
    intro relation there
    have rows : ([[49, 65], [50, 65]] : List (List Byte)).map (rowOf peopleTable.columns) =
        neighbours := by decide +kernel
    refine ⟨[[49, 65], [50, 65]], congrArg some rows.symm, ?_,
      (by decide : ([[49, 65], [50, 65]].map (peopleTable.keyOf 0)).Nodup), rfl⟩
    have recordOf : ∀ record ∈ ([[49, 65], [50, 65]] : List (List Byte)),
        record.length = totalLen peopleTable.columns ∧ RecordOk peopleTable.columns record := by
      decide +kernel
    exact fun record member => ⟨(recordOf record member).1, (recordOf record member).2⟩

/-- A call on the file of people. -/
def peopleCall (op : FileOp) (record : List Byte) : FileCall := ⟨op, openedFcd 0 record, noGarbage⟩

/-- A third person is written and a duplicate of the second refused; after COMMIT the first moves
to another city and the second is deleted twice. -/
def peopleCalls (lock : Bool) : List FileCall :=
  [peopleCall .write [51, 66], peopleCall .write [50, 67], peopleCall .commit [49, 65],
    peopleCall .rewrite [49, 66], peopleCall .delete [50, 65], peopleCall .delete [50, 65],
    peopleCall (.read lock) [49, 0]]

/-- A call on the file of people is admitted when its record is a person. -/
theorem peopleCall_admitted {op : FileOp} {record : List Byte} (probe : KeyOk peopleTable 0 record)
    (room : 2 ≤ record.length)
    (storable : op = .write ∨ op = .rewrite → Storable peopleTable record) :
    peopleFiles.Admits (peopleCall op record) :=
  ⟨rfl, (by decide : (openedFcd 0 []).openMode ≠ 128), rfl, rfl, fun _ _ => room,
    fun _ _ => probe, fun changes _ _ => storable changes⟩

/-- The calls of the example are admitted. -/
theorem people_admitted (lock : Bool) : ∀ call ∈ peopleCalls lock, peopleFiles.Admits call := by
  unfold peopleCalls
  simp only [List.forall_mem_cons]
  refine ⟨peopleCall_admitted ?_ ?_ ?_, peopleCall_admitted ?_ ?_ ?_,
    peopleCall_admitted ?_ ?_ ?_, peopleCall_admitted ?_ ?_ ?_, peopleCall_admitted ?_ ?_ ?_,
    peopleCall_admitted ?_ ?_ ?_, peopleCall_admitted ?_ ?_ ?_, nofun⟩
  all_goals
    cases lock <;> decide +kernel

end Pqfh
