import Pqfh.Foundation.Transaction
import Pqfh.Handler.Dispatch
import Pqfh.Handler.OpsFrame
import Pqfh.Handler.ScanSpec

/-! # The ledger of a connection

All the tables of a process are updated over one connection, in one transaction after the
other. This module writes down what each operation changes (`Pqfh.databaseEntries`) and
proves that the database is what these changes and the commits between them make of it
(`Pqfh.databaseOp_accounted`).
-/

namespace Pqfh

open Transaction

/-- The part of a connection that transactions are about. -/
def Conn.session (conn : Conn) : Session Db := ⟨conn.committed, conn.working, conn.aborted⟩

/-- A change of the database: of the rows of a relation, or of the relations. -/
inductive Change where
  | row (statement : Statement)
  | table (ddl : Ddl)
  deriving DecidableEq

/-- What a change makes of a database. -/
def Change.apply : Change → Db → Option Db
  | .row statement, db => statement.apply db
  | .table ddl, db => ddl.apply db

/-! ## What the operations change -/

/-- The texts that parameters give. -/
def boundTexts (params : List Param) (record : List Byte) : List (List Byte) :=
  runOn (params.map fun param => (param.checked (slice record param.col.offset param.col.len)).1)

/-- The INSERT of a record. -/
def insertStatement (pg : Postgres) (tab : Table) (record : List Byte) : Option Statement :=
  (tab.assignment pg (List.range tab.columns.length) (boundTexts (writeParams tab) record)).map
    fun values => .insert tab.relation (values.map Prod.snd)

/-- The UPDATE by a record. -/
def rewriteStatement (pg : Postgres) (tab : Table) (record : List Byte) : Option Statement :=
  updateStatement pg tab (boundTexts (rewriteParams tab) record)

/-- The DELETE of the row in the record area. -/
def deleteStatement (pg : Postgres) (tab : Table) (record : List Byte) : Option Statement :=
  let cols := whereColumns tab.keys 0
  (tab.condition pg cols (boundTexts (keyParams tab cols) record)).map (.delete tab.relation)

/-- The entry of a statement. -/
def rowEntry (statement : Option Statement) : List (Transaction.Entry Change) :=
  statement.toList.map fun statement => .made (.row statement)

/-- What a WRITE that returned 00 has changed. -/
def writeEntries (env : Env) (st : State) : List (Transaction.Entry Change) :=
  match opWrite env st with
  | .error _ => []
  | .ok st' =>
      if st'.fcd.status = stOk then rowEntry (insertStatement env.pg st.tab st.fcd.record) else []

/-- What a REWRITE that returned 00 has changed. A row that reads as the record itself is not
updated. -/
def rewriteEntries (env : Env) (st : State) : List (Transaction.Entry Change) :=
  match opRewrite env st, opReadRandom env false false (st.resetScan.setKeyId 0) with
  | .ok (_, st'), .ok st₁ =>
      if st'.fcd.status = stOk ∧ st₁.fcd.record ≠ st.fcd.record then
        rowEntry (rewriteStatement env.pg st.tab st.fcd.record) else []
  | _, _ => []

/-- What a DELETE that returned 00 has changed. It deletes the row that its read has left in
the record area. -/
def deleteEntries (env : Env) (st : State) : List (Transaction.Entry Change) :=
  match opDelete env st with
  | .error _ => []
  | .ok st' =>
      if st'.fcd.status = stOk then rowEntry (deleteStatement env.pg st.tab st'.fcd.record) else []

/-- What an operation on an open table changes. -/
def tableEntries {σ : Type} (entries : State → List (Transaction.Entry Change)) (sys : Sys σ) :
    List (Transaction.Entry Change) :=
  if sys.fcd.openMode = 128 then []
  else
    match sys.proc.tables sys.fcd.fileId with
    | none => []
    | some tab => entries (sys.state tab)

/-- What OPEN changes: OPEN OUTPUT truncates a table, and a table that is missing is created,
with a COMMIT at the end. -/
def openEntries (env : Env) (kind : OpenKind) (conn : Conn) (fcd : Fcd) :
    List (Transaction.Entry Change) :=
  let name := baseName fcd.fileName
  let relation := env.pg.relation name
  if fcd.openMode ≠ 128 then []
  else
    match tableInfo env conn fcd name with
    | .ok (.found _ _) =>
        if kind = .output ∧ (conn.execDdl env.pg (.truncate relation)).2 = true then
          [.made (.table (.truncate relation))] else []
    | .ok .missing =>
        let create := Ddl.create relation (env.pg.relation (env.nomeDicionario name))
        if (!fcd.isam && kind ≠ .input && name ≠ env.nomeDicionario name) = true ∧
            (conn.execDdl env.pg create).2 = true then
          [.made (.table create), .commit] else []
    | _ => []

/-- What DELETE FILE changes: it drops a table and commits. -/
def deleteFileEntries (env : Env) (conn : Conn) (fcd : Fcd) : List (Transaction.Entry Change) :=
  let name := baseName fcd.fileName
  let drop := Ddl.drop (env.pg.relation name)
  if fcd.openMode ≠ 128 then []
  else
    match tableInfo env conn fcd name with
    | .ok (.found _ _) =>
        if (conn.execDdl env.pg drop).2 = true then [.made (.table drop), .commit] else []
    | _ => []

/-- What a call changes in the database. -/
def databaseEntries {σ : Type} (env : Env) (opcode : Opcode) (sys : Sys σ) :
    List (Transaction.Entry Change) :=
  match opcode with
  | .openFile kind =>
      if env.mode = .W then
        if kind = .io then openEntries env kind sys.proc.conn { sys.fcd with openMode := 128 }
        else []
      else openEntries env kind sys.proc.conn sys.fcd
  | .write => tableEntries (writeEntries env) sys
  | .rewrite => tableEntries (rewriteEntries env) sys
  | .delete => tableEntries (deleteEntries env) sys
  | .deleteFile => deleteFileEntries env sys.proc.conn sys.fcd
  | _ => []

/-! ## Quiet steps of the connection -/

/-- A COMMIT of the connection is one of the session. -/
theorem Conn.commit_session (conn : Conn) : conn.commit.session = conn.session.commit := by
  unfold Conn.commit Session.commit Conn.session
  cases running : conn.aborted with
  | false => simp
  | true => simp

/-- A failure changes no table. -/
theorem Conn.fail_quiet (conn : Conn) : Quiet conn.session conn.fail.session :=
  ⟨rfl, rfl, fun _ => rfl⟩

/-- A cursor changes no table. -/
theorem Conn.setCursor_quiet (conn : Conn) (handle : ℕ) (cursor : Option Cursor) :
    Quiet conn.session (conn.setCursor handle cursor).session := ⟨rfl, rfl, id⟩

/-- A SELECT changes no table. -/
theorem Conn.select_quiet (conn : Conn) (relation : ℕ) (condition : Option Condition) :
    Quiet conn.session (conn.select relation condition).1.session := by
  unfold Conn.select
  split
  · exact Quiet.refl _
  · split
    · exact Quiet.refl _
    · exact conn.fail_quiet

/-- A DECLARE changes no table. -/
theorem Conn.declare_quiet (pg : Postgres) (conn : Conn) (handle relation : ℕ)
    (tokens : List Token) (order : List (ℕ × Bool)) :
    Quiet conn.session (conn.declare pg handle relation tokens order).1.session := by
  unfold Conn.declare
  split
  · exact Quiet.refl _
  · split
    · exact conn.setCursor_quiet _ _
    · exact conn.fail_quiet

/-- A FETCH changes no table. -/
theorem Conn.fetch_quiet (conn : Conn) (handle : ℕ) :
    Quiet conn.session (conn.fetch handle).1.session := by
  unfold Conn.fetch
  split
  · exact Quiet.refl _
  · split
    · exact conn.fail_quiet
    · exact Quiet.refl _
    · exact conn.setCursor_quiet _ _

/-- A CLOSE changes no table. -/
theorem Conn.closeCursor_quiet (conn : Conn) (handle : ℕ) :
    Quiet conn.session (conn.closeCursor handle).session := by
  unfold Conn.closeCursor
  split
  · exact Quiet.refl _
  · split
    · exact conn.setCursor_quiet _ _
    · exact conn.fail_quiet

/-! ## Statements -/

/-- A statement that failed changes no table. -/
theorem Conn.exec_quiet {pg : Postgres} {conn conn' : Conn} {statement : Option Statement}
    (failed : conn.exec pg statement = (conn', false)) : Quiet conn.session conn'.session := by
  obtain ⟨working, committed, aborted⟩ := Conn.exec_false failed
  exact ⟨committed, working, fun _ => aborted⟩

/-- A statement that succeeded has made its change. -/
theorem Conn.exec_run {pg : Postgres} {conn conn' : Conn} {statement : Option Statement}
    (done : conn.exec pg statement = (conn', true)) :
    Run Change.apply conn.session (rowEntry statement) true conn'.session := by
  obtain ⟨running, executed, db, rfl, applied, _, rfl⟩ := Conn.exec_true done
  refine .made (Quiet.refl _) running applied (.done ?_)
  exact ⟨rfl, rfl, nofun⟩

/-- A commit, and whether it found its transaction running. -/
theorem Conn.commit_run (conn : Conn) :
    Run Change.apply conn.session [.commit] (!conn.aborted) conn.commit.session := by
  rw [Conn.commit_session, ← Bool.and_true (!conn.aborted)]
  exact .commit (Quiet.refl _) (.done (Quiet.refl _))

/-- A statement about relations has failed, or has made its change. -/
theorem Conn.execDdl_cases (pg : Postgres) (conn : Conn) (ddl : Ddl) :
    ((conn.execDdl pg ddl).2 = false ∧ Quiet conn.session (conn.execDdl pg ddl).1.session ∧
        (conn.execDdl pg ddl).1.aborted = true) ∨
      ((conn.execDdl pg ddl).2 = true ∧ (conn.execDdl pg ddl).1.aborted = false ∧
        Run Change.apply conn.session [.made (.table ddl)] true
            (conn.execDdl pg ddl).1.session) := by
  unfold Conn.execDdl
  split
  · rename_i aborted
    exact Or.inl ⟨rfl, Quiet.refl _, aborted⟩
  · rename_i running
    split
    · exact Or.inl ⟨rfl, conn.fail_quiet, rfl⟩
    · rename_i db applied
      split
      · exact Or.inl ⟨rfl, conn.fail_quiet, rfl⟩
      · refine Or.inr ⟨rfl, Bool.eq_false_iff.mpr running, ?_⟩
        exact .made (Quiet.refl _) (Bool.eq_false_iff.mpr running) applied (.done ⟨rfl, rfl, nofun⟩)

/-! ## Operations that read -/

/-- Preparing a READ changes nothing on the connection. -/
theorem prepareRandom_conn {env : Env} {weak withLock : Bool} {kbuf : List Byte} {st st' : State}
    {result : Option (List ℕ)}
    (prepared : prepareRandom env weak withLock kbuf st = .ok (result, st')) :
    st'.conn = st.conn ∧ st'.pendingCommits = st.pendingCommits := by
  cases prepareRandom_iff.mp prepared <;> exact ⟨rfl, rfl⟩

/-- A READ by key changes no table and loses no pending commit. -/
theorem fetchRandom_quiet {env : Env} {weak : Bool} {cols : List ℕ} {st st' : State}
    (fetched : fetchRandom env weak cols st = .ok st') :
    Quiet st.conn.session st'.conn.session ∧ st'.pendingCommits = st.pendingCommits := by
  cases fetchRandom_cases fetched <;> exact ⟨st.conn.select_quiet _ _, rfl⟩

/-- A random read changes nothing in the database. -/
theorem opReadRandom_quiet {env : Env} {weak withLock : Bool} {st st' : State}
    (read : opReadRandom env weak withLock st = .ok st') :
    Quiet st.conn.session st'.conn.session ∧ st.pendingCommits ≤ st'.pendingCommits := by
  have released := st.le_released_pendingCommits
  cases opReadRandom_iff.mp read with
  | closed => exact ⟨Quiet.refl _, le_rfl⟩
  | locked _ _ prepared =>
      obtain ⟨conn₂, pending₂⟩ := prepareRandom_conn prepared
      rw [← st.released_conn, ← conn₂]
      exact ⟨Quiet.refl _, released.trans pending₂.ge⟩
  | fetched _ _ prepared fetched =>
      obtain ⟨conn₂, pending₂⟩ := prepareRandom_conn prepared
      obtain ⟨quiet, pending⟩ := fetchRandom_quiet fetched
      rw [← st.released_conn, ← conn₂]
      exact ⟨quiet, released.trans (pending₂.ge.trans pending.ge)⟩

/-- Neither does a READ in order. -/
theorem fetchNextPrev_quiet {stack : ℕ → Byte} {dir : Dir} {st st' : State}
    (fetched : fetchNextPrev stack dir st = .ok st') :
    Quiet st.conn.session st'.conn.session ∧ st'.pendingCommits = st.pendingCommits := by
  have quiet := st.conn.fetch_quiet st.tab.handle
  cases fetchNextPrev_iff.mp fetched with
  | ended => exact ⟨quiet, rfl⟩
  | read => cases dir <;> exact ⟨quiet, rfl⟩

/-- Reading on changes nothing in the database. -/
theorem opNextPrev_quiet {stack : ℕ → Byte} {dir : Dir} {st st' : State}
    (read : opNextPrev stack dir st = .ok st') :
    Quiet st.conn.session st'.conn.session ∧ st'.pendingCommits = st.pendingCommits := by
  cases opNextPrev_iff.mp read with
  | fetched _ _ _ _ fetched =>
      have kept := fetchNextPrev_quiet fetched
      exact kept
  | _ => exact ⟨Quiet.refl _, rfl⟩

/-- Closing the cursor of the table changes no table. -/
theorem State.closeCursor_quiet (st : State) :
    Quiet st.conn.session st.closeCursor.conn.session ∧
      st.closeCursor.pendingCommits = st.pendingCommits := by
  unfold State.closeCursor
  split
  · exact ⟨st.conn.closeCursor_quiet _, rfl⟩
  · exact ⟨Quiet.refl _, rfl⟩

/-- Declaring a cursor changes no table. -/
theorem declareScan_quiet {env : Env} {weak : Bool} {stack : ℕ → Byte} {op : Comparison}
    {st st' : State} (declared : declareScan env weak stack op st = .ok st') :
    Quiet st.conn.session st'.conn.session ∧ st'.pendingCommits = st.pendingCommits := by
  unfold declareScan at declared
  obtain ⟨closed, counted⟩ := st.closeCursor_quiet
  dsimp only at declared
  obtain ⟨⟨tokens, order⟩, _, declared⟩ := bind_eq_ok.mp declared
  dsimp only at declared
  split at declared
  · cases declared
  · obtain ⟨st₁, read, declared⟩ := bind_eq_ok.mp declared
    obtain ⟨quiet, pending⟩ := opNextPrev_quiet read
    have opened := closed.trans ((st.closeCursor.conn.declare_quiet env.pg _ _ tokens order).trans
      quiet)
    rw [counted] at pending
    split at declared
    · cases declared
      exact ⟨opened, pending⟩
    · cases declared
      exact ⟨opened, pending⟩

/-- START changes nothing in the database. -/
theorem opStart_quiet {env : Env} {weak : Bool} {stack inner : ℕ → Byte} {op : Comparison}
    {st st' : State} (started : opStart env weak stack inner op st = .ok st') :
    Quiet st.conn.session st'.conn.session ∧ st.pendingCommits ≤ st'.pendingCommits := by
  unfold opStart at started
  split at started
  · cases started
    exact ⟨Quiet.refl _, le_rfl⟩
  · obtain ⟨key, _, started⟩ := bind_eq_ok.mp started
    split at started
    · cases started
      cases op <;> exact ⟨Quiet.refl _, le_rfl⟩
    · split at started
      · obtain ⟨st₁, read, started⟩ := bind_eq_ok.mp started
        obtain ⟨quiet, counted⟩ := opReadRandom_quiet read
        split at started
        · cases started
          exact ⟨quiet, counted⟩
        · obtain ⟨later, same⟩ := declareScan_quiet started
          exact ⟨quiet.trans later, counted.trans same.ge⟩
      · obtain ⟨later, same⟩ := declareScan_quiet started
        exact ⟨later, same.ge⟩

/-! ## Operations that update -/

/-- An operation on a table went through entries, and counted them. -/
structure Booked (entries : List (Transaction.Entry Change)) (st st' : State) : Prop where
  run : Run Change.apply st.conn.session entries true st'.conn.session
  counted : st.pendingCommits ≤ st'.pendingCommits
  covered : entries ≠ [] → 0 < st'.pendingCommits

/-- What changes no table has no entry in the ledger. -/
theorem Booked.of_quiet {st st' : State}
    (quiet : Quiet st.conn.session st'.conn.session ∧ st.pendingCommits ≤ st'.pendingCommits) :
    Booked [] st st' :=
  ⟨.done quiet.1, quiet.2, fun some => absurd rfl some⟩

/-- A statement was sent and counted: the status is 00 and it made its entries, or neither. -/
structure Sent (entries : List (Transaction.Entry Change)) (st st' : State) : Prop where
  pending : st'.pendingCommits = st.pendingCommits + 1
  made : st'.fcd.status = stOk → Run Change.apply st.conn.session entries true st'.conn.session
  failed : st'.fcd.status ≠ stOk → Quiet st.conn.session st'.conn.session

/-- A statement after a read books its entries just when the status is 00. -/
theorem Sent.booked {entries : List (Transaction.Entry Change)} {st st₁ st' : State}
    (sent : Sent entries st₁ st') (quiet : Quiet st.conn.session st₁.conn.session)
    (counted : st.pendingCommits ≤ st₁.pendingCommits) :
    Booked (if st'.fcd.status = stOk then entries else []) st st' := by
  have counted' : st.pendingCommits < st'.pendingCommits := by
    rw [sent.pending]
    exact Nat.lt_succ_of_le counted
  by_cases ok : st'.fcd.status = stOk
  · rw [if_pos ok]
    exact ⟨(sent.made ok).quiet_first quiet, counted'.le, fun _ => Nat.zero_lt_of_lt counted'⟩
  · rw [if_neg ok]
    exact Booked.of_quiet ⟨quiet.trans (sent.failed ok), counted'.le⟩

/-- What became of a statement that was sent. -/
theorem Sent.of_exec {pg : Postgres} {statement : Option Statement} {st st' : State} {done : Bool}
    (executed : st.conn.exec pg statement = (st'.conn, done))
    (pending : st'.pendingCommits = st.pendingCommits + 1)
    (status : st'.fcd.status = stOk ↔ done = true) : Sent (rowEntry statement) st st' where
  pending := pending
  made := fun ok => by
    rw [status.mp ok] at executed
    exact Conn.exec_run executed
  failed := fun failed => by
    rw [Bool.eq_false_iff.mpr (mt status.mpr failed)] at executed
    exact Conn.exec_quiet executed

/-- A WRITE sends its INSERT. -/
theorem insertRecord_sent {env : Env} {st st' : State}
    (inserted : insertRecord env st = .ok st') :
    Sent (rowEntry (insertStatement env.pg st.tab st.fcd.record)) st st' := by
  unfold insertRecord at inserted
  have inserted := (guard_ok inserted).1
  obtain ⟨⟨bufs, texts⟩, bound, inserted⟩ := bind_eq_ok.mp inserted
  obtain ⟨_, _, sent⟩ := bindParams_ok bound
  dsimp only at inserted
  generalize executed : st.conn.exec env.pg _ = outcome at inserted
  obtain ⟨conn, done⟩ := outcome
  cases inserted
  rw [Option.map_map, sent] at executed
  refine .of_exec executed rfl ?_
  cases done with
  | true => exact ⟨fun _ => rfl, fun _ => rfl⟩
  | false => exact ⟨fun ok => absurd ok (by decide : stError ≠ stOk), nofun⟩

/-- What an INSERT says depends on the layout of the table only. -/
theorem Kept.insertStatement {st st' : State} (kept : Kept st st') (pg : Postgres)
    (record : List Byte) :
    insertStatement pg st'.tab record = insertStatement pg st.tab record := by
  unfold Pqfh.insertStatement
  rw [kept.columns, kept.writeParams, kept.assignment, kept.relation]

/-- A WRITE makes its change just when it returns 00. -/
theorem opWrite_booked {env : Env} {st st' : State} (wrote : opWrite env st = .ok st') :
    Booked (writeEntries env st) st st' := by
  have entries : writeEntries env st = if st'.fcd.status = stOk then
      rowEntry (insertStatement env.pg st.tab st.fcd.record) else [] := by
    unfold writeEntries
    rw [wrote]
  rw [entries]
  unfold opWrite at wrote
  split at wrote
  · cases wrote
    exact Booked.of_quiet ⟨Quiet.refl _, le_rfl⟩
  · dsimp only at wrote
    obtain ⟨st₁, read, wrote⟩ := bind_eq_ok.mp wrote
    obtain ⟨quiet, counted⟩ := opReadRandom_quiet read
    obtain ⟨kept, outcome⟩ := opReadRandom_ok read
    split at wrote
    · cases wrote
      exact Booked.of_quiet ⟨quiet, counted⟩
    · rename_i missing
      have record : st₁.fcd.record = st.fcd.record := by
        rcases outcome with ⟨_, record, _⟩ | ⟨found, _⟩
        · exact record
        · exact (missing found).elim
      obtain ⟨st₂, inserted, wrote⟩ := bind_eq_ok.mp wrote
      cases wrote
      have sent := insertRecord_sent inserted
      rw [kept.insertStatement, record] at sent
      obtain ⟨run, counted, covered⟩ := sent.booked quiet counted
      exact ⟨run, counted, covered⟩

/-- A REWRITE sends its UPDATE. -/
theorem updateRecord_sent {env : Env} {st st' : State}
    (updated : updateRecord env st = .ok st') :
    Sent (rowEntry (rewriteStatement env.pg st.tab st.fcd.record)) st st' := by
  unfold updateRecord at updated
  have updated := (guard_ok updated).1
  obtain ⟨⟨bufs, texts⟩, bound, updated⟩ := bind_eq_ok.mp updated
  obtain ⟨_, _, sent⟩ := bindParams_ok bound
  dsimp only at updated
  generalize executed : st.conn.exec env.pg _ = outcome at updated
  obtain ⟨conn, done⟩ := outcome
  cases updated
  rw [sent] at executed
  refine .of_exec executed rfl ?_
  cases done with
  | true => exact ⟨fun _ => rfl, fun _ => rfl⟩
  | false => exact ⟨fun ok => absurd ok (by decide : stRecNotFound ≠ stOk), nofun⟩

/-- The UPDATE is the same for a table that is kept. -/
theorem Kept.rewriteStatement {st st' : State} (kept : Kept st st') (pg : Postgres)
    (record : List Byte) :
    rewriteStatement pg st'.tab record = rewriteStatement pg st.tab record := by
  unfold Pqfh.rewriteStatement updateStatement
  simp only [kept.rewriteParams, kept.assignment, kept.condition, kept.relation, kept.columns,
    kept.keys]

/-- A REWRITE makes its change when it returns 00 and the row is not the record already. -/
theorem opRewrite_booked {env : Env} {st st' : State} {done : Bool}
    (rewrote : opRewrite env st = .ok (done, st')) : Booked (rewriteEntries env st) st st' := by
  have called := rewrote
  unfold opRewrite at rewrote
  split at rewrote
  · cases rewrote
    have entries : rewriteEntries env st = [] := by
      unfold rewriteEntries
      rw [called]
      split
      · rename_i ended _
        cases ended
        rfl
      · rfl
    rw [entries]
    exact Booked.of_quiet ⟨Quiet.refl _, le_rfl⟩
  · dsimp only at rewrote
    obtain ⟨st₁, read, rewrote⟩ := bind_eq_ok.mp rewrote
    have entries : rewriteEntries env st =
        if st'.fcd.status = stOk ∧ st₁.fcd.record ≠ st.fcd.record then
          rowEntry (rewriteStatement env.pg st.tab st.fcd.record) else [] := by
      unfold rewriteEntries
      rw [called, read]
    rw [entries]
    obtain ⟨quiet, counted⟩ := opReadRandom_quiet read
    have kept := (opReadRandom_ok read).1
    split at rewrote
    · rename_i missing
      cases rewrote
      rw [if_neg (fun made => missing made.1)]
      exact Booked.of_quiet ⟨quiet, counted⟩
    · split at rewrote
      · rename_i same
        cases rewrote
        rw [if_neg (fun made => made.2 same.symm)]
        exact Booked.of_quiet ⟨quiet, counted⟩
      · rename_i changed
        obtain ⟨_, _, rewrote⟩ := bind_eq_ok.mp rewrote
        obtain ⟨st₂, updated, rewrote⟩ := bind_eq_ok.mp rewrote
        cases rewrote
        have statement := kept.rewriteStatement env.pg st.fcd.record
        change rewriteStatement env.pg st₁.tab st.fcd.record =
          rewriteStatement env.pg st.tab st.fcd.record at statement
        have sent := updateRecord_sent updated
        change Sent (rowEntry (rewriteStatement env.pg st₁.tab st.fcd.record)) _ _ at sent
        rw [statement] at sent
        obtain ⟨run, counted, covered⟩ := sent.booked quiet counted
        rw [if_congr (and_iff_left (Ne.symm changed)) rfl rfl]
        exact ⟨run, counted, covered⟩

/-- A DELETE sends its DELETE statement. -/
theorem deleteRecord_sent {env : Env} {st st' : State}
    (deleted : deleteRecord env st = .ok st') :
    Sent (rowEntry (deleteStatement env.pg st.tab st.fcd.record)) st st' := by
  unfold deleteRecord at deleted
  have deleted := (guard_ok deleted).1
  obtain ⟨⟨bufs, texts⟩, bound, deleted⟩ := bind_eq_ok.mp deleted
  obtain ⟨_, _, sent⟩ := bindParams_ok bound
  dsimp only at deleted
  generalize executed : st.conn.exec env.pg _ = outcome at deleted
  obtain ⟨conn, done⟩ := outcome
  cases deleted
  rw [sent] at executed
  refine .of_exec executed rfl ?_
  cases done with
  | true => exact ⟨fun _ => rfl, fun _ => rfl⟩
  | false => exact ⟨fun ok => absurd ok (by decide : stRecNotFound ≠ stOk), nofun⟩

/-- The DELETE statement is the same for a table that is kept. -/
theorem Kept.deleteStatement {st st' : State} (kept : Kept st st') (pg : Postgres)
    (record : List Byte) :
    deleteStatement pg st'.tab record = deleteStatement pg st.tab record := by
  unfold Pqfh.deleteStatement
  simp only [kept.keyParams, kept.condition, kept.relation, kept.keys]

/-- A DELETE makes its change just when it returns 00. -/
theorem opDelete_booked {env : Env} {st st' : State} (deleted : opDelete env st = .ok st') :
    Booked (deleteEntries env st) st st' := by
  have entries : deleteEntries env st = if st'.fcd.status = stOk then
      rowEntry (deleteStatement env.pg st.tab st'.fcd.record) else [] := by
    unfold deleteEntries
    rw [deleted]
  rw [entries]
  unfold opDelete at deleted
  split at deleted
  · cases deleted
    exact Booked.of_quiet ⟨Quiet.refl _, le_rfl⟩
  · obtain ⟨st₁, read, deleted⟩ := bind_eq_ok.mp deleted
    obtain ⟨quiet, counted⟩ := opReadRandom_quiet read
    have kept := (opReadRandom_ok read).1
    split at deleted
    · cases deleted
      exact Booked.of_quiet ⟨quiet, counted⟩
    · obtain ⟨_, _, deleted⟩ := bind_eq_ok.mp deleted
      have sent := deleteRecord_sent deleted
      rw [kept.deleteStatement, ← (deleteRecord_fcd deleted).record] at sent
      exact sent.booked quiet counted

/-! ## OPEN, CLOSE and DELETE FILE -/

/-- A statement about an index that succeeded changes no rows. -/
theorem Conn.execDdl_index {pg : Postgres} {conn conn' : Conn} {relation : ℕ}
    {definition : List Byte} (done : conn.execDdl pg (.index relation definition) = (conn', true)) :
    conn' = conn := by
  unfold Conn.execDdl at done
  split at done
  · cases done
  · split at done
    · cases done
    · rename_i db applied
      split at done
      · cases done
      · cases done
        obtain ⟨_, same⟩ : (conn.working relation).isSome = true ∧ conn.working = db := by
          simpa [Ddl.apply] using applied
        rw [← same]

/-- The indexes change no row. -/
theorem createIndexes_conn {env : Env} {dictname name : List Byte}
    {indexes : List (List Byte × List Byte)} {conn conn' : Conn}
    (created : createIndexes env dictname name indexes conn = .ok conn') : conn' = conn := by
  induction indexes generalizing conn with
  | nil =>
      cases created
      rfl
  | cons index rest ih =>
      unfold createIndexes at created
      obtain ⟨definition, _, created⟩ := bind_eq_ok.mp created
      split at created
      · cases created
      · rename_i done
        rw [ih created]
        exact Conn.execDdl_index done

/-- `create_table` has made a table and committed it, or has made none. -/
theorem createTable_run {env : Env} {conn conn' : Conn} {dictname name : List Byte} {done : Bool}
    (created : createTable env conn dictname name = .ok (conn', done)) :
    Run Change.apply conn.session
      (if (conn.execDdl env.pg (.create (env.pg.relation name) (env.pg.relation dictname))).2 =
      true then
        [.made (.table (.create (env.pg.relation name) (env.pg.relation dictname))), .commit]
        else [])
      true conn'.session := by
  unfold createTable at created
  have outcome :=
    conn.execDdl_cases env.pg (.create (env.pg.relation name) (env.pg.relation dictname))
  generalize conn.execDdl env.pg _ = result at created outcome
  obtain ⟨conn₁, made⟩ := result
  obtain ⟨rfl, quiet, _⟩ | ⟨rfl, running, run⟩ := outcome
  · cases created
    exact .done quiet
  · obtain ⟨conn₂, indexed, created⟩ := bind_eq_ok.mp created
    cases created
    obtain rfl := createIndexes_conn indexed
    have commit := conn₂.commit_run
    rw [running] at commit
    exact run.trans commit

/-- An OPEN of a table that is missing runs its statements in their order. -/
theorem openMissing_run {env : Env} {kind : OpenKind} {buffers : Buffers} {name : List Byte}
    {proc proc' : Process} {fcd fcd' : Fcd}
    (opened : openMissing env kind buffers name proc fcd = .ok (proc', fcd')) :
    proc'.pendingCommits = proc.pendingCommits ∧ proc'.inTransaction = proc.inTransaction ∧
      Run Change.apply proc.conn.session
      (if (!fcd.isam && kind ≠ .input && name ≠ env.nomeDicionario name) = true ∧
          (proc.conn.execDdl env.pg (.create (env.pg.relation name)
            (env.pg.relation (env.nomeDicionario name)))).2 = true then
        [.made
        (.table (.create (env.pg.relation name) (env.pg.relation (env.nomeDicionario name)))),
          .commit] else [])
      true proc'.conn.session := by
  unfold openMissing at opened
  dsimp only at opened
  split at opened
  · rename_i creates
    obtain ⟨⟨conn, done⟩, created, opened⟩ := bind_eq_ok.mp opened
    obtain ⟨info, _, opened⟩ := bind_eq_ok.mp opened
    cases opened
    simp only [creates, true_and]
    exact ⟨rfl, rfl, createTable_run created⟩
  · rename_i creates
    rw [if_neg (fun both => creates both.1)]
    split at opened
    · cases opened
      exact ⟨rfl, rfl, .done (Quiet.refl _)⟩
    · cases opened
      exact ⟨rfl, rfl, .done (Quiet.refl _)⟩

/-- OPEN goes through its entries, and counts nothing. -/
theorem opOpen_run {env : Env} {kind : OpenKind} {buffers : Buffers} {proc proc' : Process}
    {fcd fcd' : Fcd} (opened : opOpen env kind buffers proc fcd = .ok (proc', fcd')) :
    proc'.pendingCommits = proc.pendingCommits ∧ proc'.inTransaction = proc.inTransaction ∧
      Run Change.apply proc.conn.session (openEntries env kind proc.conn fcd) true
        proc'.conn.session := by
  unfold opOpen at opened
  unfold openEntries
  split at opened
  · rename_i already
    cases opened
    rw [if_pos already]
    exact ⟨rfl, rfl, .done (Quiet.refl _)⟩
  · rename_i closed
    rw [if_neg closed]
    dsimp only at opened ⊢
    split at opened
    · cases opened
    · obtain ⟨info, looked, opened⟩ := bind_eq_ok.mp opened
      change tableInfo env proc.conn fcd (baseName fcd.fileName) = _ at looked
      rw [looked]
      cases info with
      | isam =>
          cases opened
          exact ⟨rfl, rfl, .done (Quiet.refl _)⟩
      | missing =>
          obtain ⟨same, flag, run⟩ := openMissing_run opened
          exact ⟨same, flag, run⟩
      | found columns keys =>
          have run : Run Change.apply proc.conn.session
              (if kind = .output ∧ (proc.conn.execDdl env.pg
                  (.truncate (env.pg.relation (baseName fcd.fileName)))).2 = true then
                [.made (.table (.truncate (env.pg.relation (baseName fcd.fileName))))] else [])
              true (if kind = .output then (proc.conn.execDdl env.pg
                (.truncate (env.pg.relation (baseName fcd.fileName)))).1
                else proc.conn).session := by
            by_cases output : kind = .output
            · simp only [output, true_and, if_true]
              obtain ⟨failed, quiet, _⟩ | ⟨made, _, run⟩ := proc.conn.execDdl_cases env.pg
                (.truncate (env.pg.relation (baseName fcd.fileName)))
              · simp only [failed, Bool.false_eq_true, if_false]
                exact .done quiet
              · simp only [made, if_true]
                exact run
            · simp only [output, false_and, if_false]
              exact .done (Quiet.refl _)
          dsimp only at opened
          split at opened
          · cases opened
            exact ⟨rfl, rfl, run⟩
          · cases opened
            exact ⟨rfl, rfl, run⟩

/-- What a call on the process leaves alone when it changes nothing in the database. -/
structure ProcessQuiet (proc proc' : Process) : Prop where
  session : Quiet proc.conn.session proc'.conn.session
  counted : proc.pendingCommits ≤ proc'.pendingCommits
  inTransaction : proc'.inTransaction = proc.inTransaction

/-- CLOSE changes nothing in the database. -/
theorem opClose_quiet {proc proc' : Process} {fcd fcd' : Fcd}
    (closed : opClose proc fcd = .ok (proc', fcd')) : ProcessQuiet proc proc' := by
  unfold opClose at closed
  split at closed
  · cases closed
    exact ⟨Quiet.refl _, le_rfl, rfl⟩
  · split at closed
    · cases closed
    · rename_i tab live
      cases closed
      refine ⟨?_, ?_, rfl⟩
      · dsimp only
        split
        · exact proc.conn.closeCursor_quiet _
        · exact Quiet.refl _
      · dsimp only
        split
        · exact Nat.le_succ _
        · exact le_rfl

/-- DELETE FILE goes through its entries, and counts nothing else. -/
theorem opDeleteFile_run {env : Env} {proc proc' : Process} {fcd fcd' : Fcd}
    (deleted : opDeleteFile env proc fcd = .ok (proc', fcd')) :
    (deleteFileEntries env proc.conn fcd = [] → proc'.pendingCommits = proc.pendingCommits) ∧
      proc'.inTransaction = proc.inTransaction ∧
      Run Change.apply proc.conn.session (deleteFileEntries env proc.conn fcd) true
        proc'.conn.session := by
  unfold opDeleteFile at deleted
  unfold deleteFileEntries
  dsimp only at deleted ⊢
  split at deleted
  · rename_i opened
    cases deleted
    rw [if_pos opened]
    exact ⟨fun _ => rfl, rfl, .done (Quiet.refl _)⟩
  · rename_i closed
    rw [if_neg closed]
    split at deleted
    · cases deleted
    · obtain ⟨info, looked, deleted⟩ := bind_eq_ok.mp deleted
      change tableInfo env proc.conn fcd (baseName fcd.fileName) = _ at looked
      rw [looked]
      cases info with
      | isam =>
          cases deleted
          exact ⟨fun _ => rfl, rfl, .done (Quiet.refl _)⟩
      | missing =>
          cases deleted
          exact ⟨fun _ => rfl, rfl, .done (Quiet.refl _)⟩
      | found columns keys =>
          have outcome := proc.conn.execDdl_cases env.pg
            (.drop (env.pg.relation (baseName fcd.fileName)))
          dsimp only at deleted ⊢
          generalize proc.conn.execDdl env.pg _ = result at deleted outcome
          obtain ⟨conn, made⟩ := result
          obtain ⟨rfl, quiet, _⟩ | ⟨rfl, running, run⟩ := outcome
          · cases deleted
            exact ⟨fun _ => rfl, rfl, .done quiet⟩
          · cases deleted
            refine ⟨nofun, rfl, ?_⟩
            have commit := conn.commit_run
            rw [running] at commit
            exact run.trans commit

/-! ## The switch -/

/-- A call went through entries. Unless it truncates a table, a counter at 0 after it says that
it made no change and found the counter at 0, or that it ended with a commit. -/
structure Accounted (entries : List (Transaction.Entry Change)) (proc proc' : Process) : Prop where
  run : Run Change.apply proc.conn.session entries true proc'.conn.session
  covered : (∀ relation, .made (.table (.truncate relation)) ∈ entries → 0 < proc.pendingCommits) →
    proc'.pendingCommits = 0 →
      (entries = [] ∧ proc.pendingCommits = 0) ∨ ∃ before, entries = before ++ [.commit]
  inTransaction : proc'.inTransaction = proc.inTransaction

variable {σ : Type}

/-- A process that changes no table has no entry in the ledger. -/
theorem ProcessQuiet.accounted {proc proc' : Process} (quiet : ProcessQuiet proc proc') :
    Accounted [] proc proc' := by
  refine ⟨.done quiet.session, fun _ none => Or.inl ⟨rfl, ?_⟩, quiet.inTransaction⟩
  have counted := quiet.counted
  omega

/-- Neither has one that does nothing. -/
theorem Accounted.refl (proc : Process) : Accounted [] proc proc :=
  ProcessQuiet.accounted ⟨Quiet.refl _, le_rfl, rfl⟩

/-- What an operation on its table has sent is sent by the process. -/
theorem Booked.accounted {entries : List (Transaction.Entry Change)} {sys : Sys σ} {tab : Table}
    {st : State} (booked : Booked entries (sys.state tab) st) :
    Accounted entries sys.proc (sys.put st).proc := by
  refine ⟨booked.run, fun _ none => Or.inl ?_, rfl⟩
  have counted : sys.proc.pendingCommits ≤ st.pendingCommits := booked.counted
  have none' : st.pendingCommits = 0 := none
  refine ⟨?_, by omega⟩
  by_contra some
  exact absurd none' (booked.covered some).ne'

/-- An operation on a table goes through its entries. -/
theorem Sys.run_accounted {sys sys' : Sys σ} {closed : Status} {op : State → Except Stop State}
    {entries : State → List (Transaction.Entry Change)} (ran : sys.run closed op = .ok sys')
    (booked : ∀ {st st'}, op st = .ok st' → Booked (entries st) st st') :
    Accounted (tableEntries entries sys) sys.proc sys'.proc := by
  unfold tableEntries
  obtain ⟨shut, rfl⟩ | ⟨opened, tab, st, live, operated, rfl⟩ := Sys.run_ok ran
  · rw [if_pos shut]
    exact Accounted.refl _
  · rw [if_neg opened, live]
    exact (booked operated).accounted

/-- An operation on a table that only reads has no entries. -/
theorem Sys.run_quiet {sys sys' : Sys σ} {closed : Status} {op : State → Except Stop State}
    (ran : sys.run closed op = .ok sys')
    (quiet : ∀ {st st'}, op st = .ok st' → Quiet st.conn.session st'.conn.session ∧
      st.pendingCommits ≤ st'.pendingCommits) : Accounted [] sys.proc sys'.proc := by
  have accounted := Sys.run_accounted ran fun operated => Booked.of_quiet (quiet operated)
  have none : tableEntries (fun _ => []) sys = [] := by
    unfold tableEntries
    split
    · rfl
    · split <;> rfl
  rwa [none] at accounted

/-- A REWRITE has the entries of its statements. -/
theorem Sys.opRewrite_accounted {env : Env} {sys sys' : Sys σ} {done : Bool}
    (ran : sys.opRewrite env = .ok (done, sys')) :
    Accounted (tableEntries (rewriteEntries env) sys) sys.proc sys'.proc := by
  unfold Sys.opRewrite at ran
  unfold tableEntries
  split at ran
  · rename_i shut
    cases ran
    rw [if_pos shut]
    exact Accounted.refl _
  · rename_i opened
    obtain ⟨tab, st, live, rewrote, rfl⟩ := Sys.onTable_ok ran
    rw [if_neg opened, live]
    exact (opRewrite_booked rewrote).accounted

/-- An operation on the process, with the entries of the process. -/
theorem Sys.onProcess_ok {sys sys' : Sys σ} {op : Process → Fcd → Except Stop (Process × Fcd)}
    (ran : sys.onProcess op = .ok sys') : op sys.proc sys.fcd = .ok (sys'.proc, sys'.fcd) := by
  unfold Sys.onProcess at ran
  obtain ⟨⟨proc, fcd⟩, operated, ended⟩ := bind_eq_ok.mp ran
  cases ended
  exact operated

/-- The entries of OPEN: none, a truncation, or a creation with its commit. -/
theorem openEntries_cases (env : Env) (kind : OpenKind) (conn : Conn) (fcd : Fcd) :
    openEntries env kind conn fcd = [] ∨
      (∃ relation, openEntries env kind conn fcd = [.made (.table (.truncate relation))]) ∨
      ∃ before, openEntries env kind conn fcd = before ++ [.commit] := by
  unfold openEntries
  dsimp only
  split
  · exact Or.inl rfl
  · split
    · split
      · exact Or.inr (Or.inl ⟨_, rfl⟩)
      · exact Or.inl rfl
    · split
      · exact Or.inr (Or.inr ⟨[_], rfl⟩)
      · exact Or.inl rfl
    · exact Or.inl rfl

/-- An OPEN has the entries of the table that it makes or empties. -/
theorem opOpen_accounted {env : Env} {kind : OpenKind} {buffers : Buffers} {proc proc' : Process}
    {fcd fcd' : Fcd} (opened : opOpen env kind buffers proc fcd = .ok (proc', fcd')) :
    Accounted (openEntries env kind proc.conn fcd) proc proc' := by
  obtain ⟨same, flag, run⟩ := opOpen_run opened
  refine ⟨run, fun truncates none => ?_, flag⟩
  rw [same] at none
  obtain empty | ⟨relation, truncation⟩ | committed := openEntries_cases env kind proc.conn fcd
  · exact Or.inl ⟨empty, none⟩
  · have some := truncates relation (by rw [truncation]; exact List.mem_singleton_self _)
    exact absurd none some.ne'
  · exact Or.inr committed

/-- A DELETE FILE has no entry, or ends with a commit. -/
theorem deleteFileEntries_cases (env : Env) (conn : Conn) (fcd : Fcd) :
    deleteFileEntries env conn fcd = [] ∨
      ∃ before, deleteFileEntries env conn fcd = before ++ [.commit] := by
  unfold deleteFileEntries
  dsimp only
  split
  · exact Or.inl rfl
  · split
    · split
      · exact Or.inr ⟨[_], rfl⟩
      · exact Or.inl rfl
    · exact Or.inl rfl

/-- A DELETE FILE has the entries of its DROP. -/
theorem opDeleteFile_accounted {env : Env} {proc proc' : Process} {fcd fcd' : Fcd}
    (deleted : opDeleteFile env proc fcd = .ok (proc', fcd')) :
    Accounted (deleteFileEntries env proc.conn fcd) proc proc' := by
  obtain ⟨same, flag, run⟩ := opDeleteFile_run deleted
  refine ⟨run, fun _ none => ?_, flag⟩
  obtain empty | committed := deleteFileEntries_cases env proc.conn fcd
  · rw [same empty] at none
    exact Or.inl ⟨empty, none⟩
  · exact Or.inr committed

/-- Steps that change no table may follow. -/
theorem Accounted.trans_quiet {entries : List (Transaction.Entry Change)}
    {proc proc' proc'' : Process}
    (accounted : Accounted entries proc proc') (quiet : ProcessQuiet proc' proc'') :
    Accounted entries proc proc'' := by
  refine ⟨?_, fun truncates none => ?_, quiet.inTransaction.trans accounted.inTransaction⟩
  · have run := accounted.run.trans (.done quiet.session)
    rwa [List.append_nil] at run
  · have counted := quiet.counted
    exact accounted.covered truncates (by omega)

/-- An OPEN of both copies has the entries of the OPEN in the database. -/
theorem openBoth_accounted {extfh : Extfh σ} {env : Env} {buffers : Buffers} {kind : OpenKind}
    {sys sys' : Sys σ} (opened : openBoth extfh env buffers kind sys = .ok sys') :
    Accounted (openEntries env kind sys.proc.conn sys.fcd) sys.proc sys'.proc := by
  unfold openBoth at opened
  obtain ⟨sys₁, ran, opened⟩ := bind_eq_ok.mp opened
  have accounted := opOpen_accounted (Sys.onProcess_ok ran)
  split at opened
  · cases opened
    exact accounted
  · split at opened
    · cases opened
      exact accounted
    · split at opened
      · dsimp only at opened
        split at opened
        · obtain ⟨closed, shut, opened⟩ := bind_eq_ok.mp opened
          cases opened
          have quiet := opClose_quiet (Sys.onProcess_ok shut)
          exact accounted.trans_quiet quiet
        · cases opened
          exact accounted
      · cases opened
        exact accounted

/-- A CLOSE of both copies has none. -/
theorem closeBoth_accounted {extfh : Extfh σ} {env : Env} {sys sys' : Sys σ}
    (closed : closeBoth extfh env sys = .ok sys') : Accounted [] sys.proc sys'.proc := by
  unfold closeBoth at closed
  split at closed
  · obtain ⟨sys₁, ran, closed⟩ := bind_eq_ok.mp closed
    cases closed
    have quiet := opClose_quiet (Sys.onProcess_ok ran)
    exact quiet.accounted
  · exact (opClose_quiet (Sys.onProcess_ok closed)).accounted
  · obtain ⟨sys₁, ran, closed⟩ := bind_eq_ok.mp closed
    cases closed
    have quiet := opClose_quiet (Sys.onProcess_ok ran)
    exact quiet.accounted

/-- An operation that mode W leaves out. -/
theorem unlessShadow_accounted {env : Env} {sys sys' : Sys σ} {op : Except Stop (Sys σ)}
    (ended : unlessShadow env sys op = .ok sys')
    (accounted : op = .ok sys' → Accounted [] sys.proc sys'.proc) :
    Accounted [] sys.proc sys'.proc := by
  unfold unlessShadow at ended
  split at ended
  · cases ended
    exact Accounted.refl _
  · exact accounted ended

/-- Every call of the switch goes through its entries. -/
theorem databaseOp_accounted {extfh : Extfh σ} {env : Env} {garbage : Garbage} {undo : List Byte}
    {opcode : Opcode} {sys sys' : Sys σ}
    (called : databaseOp extfh env garbage undo opcode sys = .ok sys') :
    Accounted (databaseEntries env opcode sys) sys.proc sys'.proc := by
  unfold databaseOp at called
  unfold databaseEntries
  cases opcode with
  | openFile kind =>
      dsimp only at called ⊢
      split at called
      · rename_i shadow
        rw [if_pos shadow]
        unfold openShadow at called
        split at called
        · rename_i io
          rw [if_pos io]
          obtain ⟨opened, ran, called⟩ := bind_eq_ok.mp called
          cases called
          exact opOpen_accounted (Sys.onProcess_ok ran)
        · rename_i other
          cases called
          rw [if_neg other]
          exact Accounted.refl _
      · rename_i direct
        rw [if_neg direct]
        exact openBoth_accounted called
  | close => exact closeBoth_accounted called
  | start op => exact unlessShadow_accounted called fun ran => Sys.run_quiet ran opStart_quiet
  | readNext =>
      refine unlessShadow_accounted called fun ran => Sys.run_quiet ran fun read => ?_
      obtain ⟨quiet, same⟩ := opNextPrev_quiet read
      exact ⟨quiet, same.ge⟩
  | readPrevious =>
      refine unlessShadow_accounted called fun ran => Sys.run_quiet ran fun read => ?_
      obtain ⟨quiet, same⟩ := opNextPrev_quiet read
      exact ⟨quiet, same.ge⟩
  | readRandom =>
      exact unlessShadow_accounted called fun ran => Sys.run_quiet ran opReadRandom_quiet
  | readLock =>
      exact unlessShadow_accounted called fun ran => Sys.run_quiet ran opReadRandom_quiet
  | unlock =>
      refine unlessShadow_accounted called fun ran => ?_
      obtain ⟨⟨_, sys₁⟩, operated, rfl⟩ := map_eq_ok.mp ran
      obtain ⟨tab, st, _, unlocked, rfl⟩ := Sys.onTable_ok operated
      cases unlocked
      exact ProcessQuiet.accounted ⟨Quiet.refl _, Nat.le_succ _, rfl⟩
  | write =>
      obtain ⟨written, ran, called⟩ := bind_eq_ok.mp called
      have accounted := Sys.run_accounted ran opWrite_booked
      split at called
      · cases called
        exact accounted
      · cases called
        exact accounted
      · split at called <;> cases called <;> exact accounted
  | rewrite =>
      obtain ⟨⟨ret, rewritten⟩, ran, called⟩ := bind_eq_ok.mp called
      have accounted := Sys.opRewrite_accounted ran
      dsimp only at called
      split at called
      · cases called
        exact accounted
      · cases called
        exact accounted
      · split at called <;> cases called <;> exact accounted
  | delete =>
      obtain ⟨deleted, ran, called⟩ := bind_eq_ok.mp called
      have accounted := Sys.run_accounted ran opDelete_booked
      split at called
      · cases called
        exact accounted
      · cases called
        exact accounted
      · split at called <;> cases called <;> exact accounted
  | deleteFile => exact opDeleteFile_accounted (Sys.onProcess_ok called)
  | commit =>
      cases called
      exact Accounted.refl _
  | other =>
      cases called
      exact Accounted.refl _

end Pqfh
