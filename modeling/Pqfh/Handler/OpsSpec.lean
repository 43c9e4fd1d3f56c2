import Pqfh.Handler.Ops

/-! # What the operations do

One lemma for each operation says what a call that returned has done to the state: what it
read, what statement it executed and what it left alone (`Pqfh.Kept`).
-/

namespace Pqfh

/-- What reading does not change. -/
structure Kept (st st' : State) : Prop where
  columns : st'.tab.columns = st.tab.columns
  keys : st'.tab.keys = st.tab.keys
  relation : st'.tab.relation = st.tab.relation
  bufs : st'.tab.bufs.length = st.tab.bufs.length
  insPrepared : st'.tab.insPrepared = st.tab.insPrepared
  updPrepared : st'.tab.updPrepared = st.tab.updPrepared
  delPrepared : st'.tab.delPrepared = st.tab.delPrepared
  working : st'.conn.working = st.conn.working
  committed : st'.conn.committed = st.conn.committed
  openMode : st'.fcd.openMode = st.fcd.openMode
  keyId : st'.fcd.keyId = st.fcd.keyId
  isam : st'.fcd.isam = st.fcd.isam

/-- A state keeps its own table. -/
theorem Kept.refl (st : State) : Kept st st :=
  ⟨rfl, rfl, rfl, rfl, rfl, rfl, rfl, rfl, rfl, rfl, rfl, rfl⟩

/-- Steps that keep the table follow one another. -/
theorem Kept.trans {first second third : State} (one : Kept first second)
    (two : Kept second third) : Kept first third where
  columns := two.columns.trans one.columns
  keys := two.keys.trans one.keys
  relation := two.relation.trans one.relation
  bufs := two.bufs.trans one.bufs
  insPrepared := two.insPrepared.trans one.insPrepared
  updPrepared := two.updPrepared.trans one.updPrepared
  delPrepared := two.delPrepared.trans one.delPrepared
  working := two.working.trans one.working
  committed := two.committed.trans one.committed
  openMode := two.openMode.trans one.openMode
  keyId := two.keyId.trans one.keyId
  isam := two.isam.trans one.isam

/-- A status changes nothing of the table. -/
theorem Kept.setStatus (st : State) (status : Status) : Kept st (st.setStatus status) :=
  ⟨rfl, rfl, rfl, rfl, rfl, rfl, rfl, rfl, rfl, rfl, rfl, rfl⟩

/-- A table that is kept has the same columns. -/
theorem Kept.column {st st' : State} (kept : Kept st st') (i : ℕ) :
    st'.tab.column i = st.tab.column i := by
  unfold Table.column
  rw [kept.columns]

/-- The parameters of statements depend on the layout of the table only. -/
theorem Kept.keyParams {st st' : State} (kept : Kept st st') (cols : List ℕ) :
    keyParams st'.tab cols = keyParams st.tab cols := by
  unfold Pqfh.keyParams Table.chave
  rw [kept.keys]
  simp only [kept.column]

/-- A table that is kept has the same parameters for an INSERT. -/
theorem Kept.writeParams {st st' : State} (kept : Kept st st') :
    writeParams st'.tab = writeParams st.tab := by
  unfold Pqfh.writeParams Table.chave
  rw [kept.keys, kept.columns]
  simp only [kept.column]

/-- A table that is kept has the same parameters for an UPDATE. -/
theorem Kept.rewriteParams {st st' : State} (kept : Kept st st') :
    rewriteParams st'.tab = rewriteParams st.tab := by
  unfold Pqfh.rewriteParams Table.chave
  rw [kept.keys, kept.columns]
  simp only [kept.column]

/-- A table that is kept has the same condition for texts. -/
theorem Kept.condition {st st' : State} (kept : Kept st st') (pg : Postgres) (cols : List ℕ)
    (texts : List (List Byte)) :
    st'.tab.condition pg cols texts = st.tab.condition pg cols texts := by
  unfold Table.condition
  simp only [kept.column]

/-- A table that is kept has the same assignments for texts. -/
theorem Kept.assignment {st st' : State} (kept : Kept st st') (pg : Postgres) (cols : List ℕ)
    (texts : List (List Byte)) :
    st'.tab.assignment pg cols texts = st.tab.assignment pg cols texts := by
  unfold Table.assignment
  simp only [kept.column]

/-! ## Statements -/

/-- A statement that succeeded was executed in a transaction that had not failed. -/
theorem Conn.exec_true {pg : Postgres} {conn conn' : Conn} {statement : Option Statement}
    (done : conn.exec pg statement = (conn', true)) :
    conn.aborted = false ∧ ∃ executed db, statement = some executed ∧
      executed.apply conn.working = some db ∧ pg.refuses executed conn.working = false ∧
      conn' = { conn with working := db } := by
  unfold Conn.exec at done
  split at done
  · cases done
  · rename_i running
    refine ⟨Bool.eq_false_iff.mpr running, ?_⟩
    split at done
    · cases done
    · rename_i executed
      split at done
      · cases done
      · rename_i db applied
        split at done
        · cases done
        · rename_i accepted
          cases done
          exact ⟨executed, db, rfl, applied, Bool.eq_false_iff.mpr accepted, rfl⟩

/-- A statement that failed changed nothing. -/
theorem Conn.exec_false {pg : Postgres} {conn conn' : Conn} {statement : Option Statement}
    (failed : conn.exec pg statement = (conn', false)) :
    conn'.working = conn.working ∧ conn'.committed = conn.committed ∧ conn'.aborted = true := by
  unfold Conn.exec at failed
  split at failed
  · rename_i aborted
    cases failed
    exact ⟨rfl, rfl, aborted⟩
  · split at failed
    · cases failed
      exact ⟨rfl, rfl, rfl⟩
    · split at failed
      · cases failed
        exact ⟨rfl, rfl, rfl⟩
      · split at failed
        · cases failed
          exact ⟨rfl, rfl, rfl⟩
        · cases failed

/-- A SELECT leaves the rows and the cursors. -/
theorem Conn.select_kept (conn : Conn) (relation : ℕ) (condition : Option Condition) :
    (conn.select relation condition).1.working = conn.working ∧
      (conn.select relation condition).1.committed = conn.committed := by
  unfold Conn.select
  split
  · exact ⟨rfl, rfl⟩
  · split <;> exact ⟨rfl, rfl⟩

/-- Rows are selected from a table that is there, by a condition that can be read. -/
theorem Conn.select_some {conn conn' : Conn} {relation : ℕ} {condition : Option Condition}
    {rows : List Row} (selected : conn.select relation condition = (conn', some rows)) :
    conn.aborted = false ∧ conn' = conn ∧ ∃ equalities all, condition = some equalities ∧
      conn.working relation = some all ∧ rows = all.filter (meets equalities) := by
  unfold Conn.select at selected
  split at selected
  · cases selected
  · rename_i running
    refine ⟨Bool.eq_false_iff.mpr running, ?_⟩
    split at selected
    · rename_i equalities all present
      cases selected
      exact ⟨rfl, equalities, all, rfl, present, rfl⟩
    · cases selected

/-! ## op_read_random -/

/-- The columns by which `op_read_random` reads: those of the prepared statement, or those
it prepares. -/
def readColumns (tab : Table) (keyid : ℕ) (weak : Bool) : Except Stop (List ℕ) :=
  match tab.readPrepared keyid with
  | some cols => .ok cols
  | none => randomColumns tab keyid weak

/-- A statement that is prepared keeps the columns it was prepared with. -/
theorem readColumns_some {tab : Table} {keyid : ℕ} {weak : Bool} {cols : List ℕ}
    (found : tab.readPrepared keyid = some cols) : readColumns tab keyid weak = .ok cols := by
  unfold readColumns
  rw [found]

/-- Without one the columns are those of the key. -/
theorem readColumns_none {tab : Table} {keyid : ℕ} {weak : Bool}
    (missing : tab.readPrepared keyid = none) :
    readColumns tab keyid weak = randomColumns tab keyid weak := by
  unfold readColumns
  rw [missing]

/-- The statement of a key is prepared, under the lock that was asked for. -/
def State.prepareRead (st : State) (asks : Bool) (kbuf : List Byte) (cols : List ℕ) : State :=
  { st with tab := { st.tab with
      advisoryLock := if asks then atoi kbuf else st.tab.advisoryLock
      readPrepared := Function.update st.tab.readPrepared st.fcd.keyId (some cols) } }

/-- What `prepareRandom` comes to: the statement is there, the lock is not to be had, or the
statement is prepared. -/
inductive PreparesRead (env : Env) (weak withLock : Bool) (kbuf : List Byte) (st : State) :
    Option (List ℕ) → State → Prop
  | found {cols : List ℕ} (found : st.tab.readPrepared st.fcd.keyId = some cols) :
      PreparesRead env weak withLock kbuf st (some cols) st
  | refused {cols : List ℕ} (missing : st.tab.readPrepared st.fcd.keyId = none)
      (chosen : randomColumns st.tab st.fcd.keyId weak = .ok cols)
      (asks : wantsLock env withLock kbuf st = true)
      (busy : st.conn.aborted = true ∨ env.pg.tryLock st.tab.oid (atoi kbuf) = false) :
      PreparesRead env weak withLock kbuf st none st
  | prepared {cols : List ℕ} (missing : st.tab.readPrepared st.fcd.keyId = none)
      (chosen : randomColumns st.tab st.fcd.keyId weak = .ok cols)
      (granted : wantsLock env withLock kbuf st = true →
        st.conn.aborted = false ∧ env.pg.tryLock st.tab.oid (atoi kbuf) = true)
      (done : st.conn.prepare st.tab.relation = .ok ()) :
      PreparesRead env weak withLock kbuf st (some cols)
        (st.prepareRead (wantsLock env withLock kbuf st) kbuf cols)

/-- When preparing a READ returns, and with what. -/
theorem prepareRandom_iff {env : Env} {weak withLock : Bool} {kbuf : List Byte} {st st' : State}
    {result : Option (List ℕ)} :
    prepareRandom env weak withLock kbuf st = .ok (result, st') ↔
      PreparesRead env weak withLock kbuf st result st' := by
  unfold prepareRandom
  constructor
  · intro prepared
    split at prepared
    · rename_i cols found
      cases prepared
      exact .found found
    · rename_i missing
      obtain ⟨cols, chosen, prepared⟩ := bind_eq_ok.mp prepared
      dsimp only at prepared
      split at prepared
      · rename_i refused
        cases prepared
        simp only [Bool.and_eq_true, Bool.or_eq_true, Bool.not_eq_true'] at refused
        exact .refused missing chosen refused.1 refused.2
      · rename_i granted
        obtain ⟨_, done, prepared⟩ := bind_eq_ok.mp prepared
        cases prepared
        simp only [Bool.and_eq_true, Bool.or_eq_true, Bool.not_eq_true', not_and, not_or,
          Bool.not_eq_true, Bool.not_eq_false] at granted
        exact .prepared missing chosen granted done
  · intro prepares
    cases prepares with
    | found found => simp only [found]
    | refused missing chosen asks busy =>
        simp only [missing]
        refine bind_eq_ok.mpr ⟨_, chosen, if_pos ?_⟩
        simpa only [Bool.and_eq_true, Bool.or_eq_true, Bool.not_eq_true'] using ⟨asks, busy⟩
    | prepared missing chosen granted done =>
        simp only [missing]
        refine bind_eq_ok.mpr ⟨_, chosen, (if_neg ?_).trans (bind_eq_ok.mpr ⟨_, done, rfl⟩)⟩
        simpa only [Bool.and_eq_true, Bool.or_eq_true, Bool.not_eq_true', not_and, not_or,
          Bool.not_eq_true, Bool.not_eq_false] using granted

/-- What is kept of the state then. -/
theorem prepareRandom_ok {env : Env} {weak withLock : Bool} {kbuf : List Byte} {st st' : State}
    {result : Option (List ℕ)}
    (prepared : prepareRandom env weak withLock kbuf st = .ok (result, st')) :
    Kept st st' ∧ st'.fcd = st.fcd ∧ st'.conn = st.conn ∧ st'.tab.bufs = st.tab.bufs ∧
      ∀ cols, result = some cols → readColumns st.tab st.fcd.keyId weak = .ok cols := by
  cases prepareRandom_iff.mp prepared with
  | found found =>
      refine ⟨Kept.refl st, rfl, rfl, rfl, ?_⟩
      rintro _ ⟨⟩
      exact readColumns_some found
  | refused => exact ⟨Kept.refl st, rfl, rfl, rfl, nofun⟩
  | prepared missing chosen =>
      refine ⟨⟨rfl, rfl, rfl, rfl, rfl, rfl, rfl, rfl, rfl, rfl, rfl, rfl⟩, rfl, rfl, rfl, ?_⟩
      rintro _ ⟨⟩
      exact (readColumns_none missing).trans chosen

/-- The row that a read by some columns finds: the first one that meets the condition on
these columns. -/
structure Reads (pg : Postgres) (st : State) (cols : List ℕ) (row : Row) : Prop where
  running : st.conn.aborted = false
  found : ∃ bufs texts condition rows rest,
    bindParams (keyParams st.tab cols) st.fcd.record st.tab.bufs = .ok (bufs, texts) ∧
      st.tab.condition pg cols texts = some condition ∧
      st.conn.working st.tab.relation = some rows ∧ rows.filter (meets condition) = row :: rest

/-- A read by some columns finds no row: the select failed, or no row meets the condition. -/
structure Misses (pg : Postgres) (st : State) (cols : List ℕ) : Prop where
  missed : ∃ bufs texts,
    bindParams (keyParams st.tab cols) st.fcd.record st.tab.bufs = .ok (bufs, texts) ∧
      (st.conn.aborted = false → ∀ condition rows,
        st.tab.condition pg cols texts = some condition →
        st.conn.working st.tab.relation = some rows → rows.filter (meets condition) = [])

/-- A SELECT without rows: the table is missing, or no row fits. -/
theorem Conn.select_empty {conn : Conn} {relation : ℕ} {condition : Condition} {rows : List Row}
    (none : (conn.select relation (some condition)).2 = Option.none ∨
      (conn.select relation (some condition)).2 = some [])
    (running : conn.aborted = false) (present : conn.working relation = some rows) :
    rows.filter (meets condition) = [] := by
  unfold Conn.select at none
  simp only [running, Bool.false_eq_true, ↓reduceIte, present, reduceCtorEq, false_or,
    Option.some.injEq] at none
  exact none

/-- What `fetchRandom` does with the rows selected. -/
def State.deliver (st : State) (weak : Bool) : Option (List Row) → Except Stop State
  | none | some [] => .ok (st.setStatus stRecNotFound)
  | some (row :: _) =>
      if weak then .ok (st.setStatus stOk)
      else do
        let record ← pq2cob st.tab.columns row st.fcd.record
        return (st.setRecord record).setStatus stOk

/-- A READ by key selects by the texts of its parameters. -/
theorem fetchRandom_eq (env : Env) (weak : Bool) {cols : List ℕ} {st : State} {bufs : List Byte}
    {texts : List (List Byte)}
    (bound : bindParams (keyParams st.tab cols) st.fcd.record st.tab.bufs = .ok (bufs, texts)) :
    fetchRandom env weak cols st =
      ((st.setBufs bufs).setConn (st.conn.select st.tab.relation
        (st.tab.condition env.pg cols texts)).1).deliver weak
        (st.conn.select st.tab.relation (st.tab.condition env.pg cols texts)).2 := by
  unfold fetchRandom
  rw [bound]
  dsimp only [bind, Except.bind]
  cases st.conn.select st.tab.relation (st.tab.condition env.pg cols texts) with
  | mk conn rows => rcases rows with - | - | ⟨row, rest⟩ <;> rfl

/-- The statement of a read was executed. -/
def State.selected (st : State) (pg : Postgres) (cols : List ℕ) (bufs : List Byte)
    (texts : List (List Byte)) : State :=
  (st.setBufs bufs).setConn
    (st.conn.select st.tab.relation (st.tab.condition pg cols texts)).1

/-- What `fetchRandom` comes to: there is no row, the row is only looked for, or it is read. -/
inductive FetchesRandom (env : Env) (weak : Bool) (cols : List ℕ) (st : State) : State → Prop
  | missed {bufs : List Byte} {texts : List (List Byte)}
      (bound : bindParams (keyParams st.tab cols) st.fcd.record st.tab.bufs = .ok (bufs, texts))
      (none : (st.conn.select st.tab.relation (st.tab.condition env.pg cols texts)).2 = none ∨
        (st.conn.select st.tab.relation (st.tab.condition env.pg cols texts)).2 = some []) :
      FetchesRandom env weak cols st ((st.selected env.pg cols bufs texts).setStatus stRecNotFound)
  | probed {bufs : List Byte} {texts : List (List Byte)} {row : Row} {rest : List Row}
      (bound : bindParams (keyParams st.tab cols) st.fcd.record st.tab.bufs = .ok (bufs, texts))
      (found : (st.conn.select st.tab.relation (st.tab.condition env.pg cols texts)).2 =
        some (row :: rest))
      (probe : weak = true) :
      FetchesRandom env weak cols st ((st.selected env.pg cols bufs texts).setStatus stOk)
  | read {bufs : List Byte} {texts : List (List Byte)} {row : Row} {rest : List Row}
      {record : List Byte}
      (bound : bindParams (keyParams st.tab cols) st.fcd.record st.tab.bufs = .ok (bufs, texts))
      (found : (st.conn.select st.tab.relation (st.tab.condition env.pg cols texts)).2 =
        some (row :: rest))
      (reads : weak = false) (decoded : pq2cob st.tab.columns row st.fcd.record = .ok record) :
      FetchesRandom env weak cols st
        (((st.selected env.pg cols bufs texts).setRecord record).setStatus stOk)

/-- The cases in which it returns. -/
theorem fetchRandom_cases {env : Env} {weak : Bool} {cols : List ℕ} {st st' : State}
    (fetched : fetchRandom env weak cols st = .ok st') : FetchesRandom env weak cols st st' := by
  obtain ⟨⟨bufs, texts⟩, bound, _⟩ := bind_eq_ok.mp fetched
  rw [fetchRandom_eq env weak bound] at fetched
  unfold State.deliver at fetched
  split at fetched
  · rename_i failed
    cases fetched
    exact .missed bound (Or.inl failed)
  · rename_i empty
    cases fetched
    exact .missed bound (Or.inr empty)
  · rename_i row rest found
    split at fetched
    · rename_i probe
      cases fetched
      exact .probed bound found probe
    · rename_i reads
      obtain ⟨record, decoded, fetched⟩ := bind_eq_ok.mp fetched
      cases fetched
      exact .read bound found (Bool.eq_false_iff.mpr reads) decoded

/-- A SELECT by key keeps the table. -/
theorem kept_selected (st : State) (pg : Postgres) (cols : List ℕ) {bufs : List Byte}
    {texts : List (List Byte)}
    (bound : bindParams (keyParams st.tab cols) st.fcd.record st.tab.bufs = .ok (bufs, texts)) :
    Kept st (st.selected pg cols bufs texts) := by
  obtain ⟨_, length, _⟩ := bindParams_ok bound
  obtain ⟨working, committed⟩ :=
    st.conn.select_kept st.tab.relation (st.tab.condition pg cols texts)
  exact ⟨rfl, rfl, rfl, length, rfl, rfl, rfl, working, committed, rfl, rfl, rfl⟩

/-- A row that was selected is one that a read finds. -/
theorem reads_of_selected {pg : Postgres} {st : State} {cols : List ℕ} {bufs : List Byte}
    {texts : List (List Byte)} {row : Row} {rest : List Row}
    (bound : bindParams (keyParams st.tab cols) st.fcd.record st.tab.bufs = .ok (bufs, texts))
    (found : (st.conn.select st.tab.relation (st.tab.condition pg cols texts)).2 =
      some (row :: rest)) :
    (st.selected pg cols bufs texts).conn = st.conn ∧ Reads pg st cols row := by
  obtain ⟨running, same, condition, rows, denoted, present, filtered⟩ :=
    Conn.select_some (Prod.ext rfl found)
  exact ⟨same, running, bufs, texts, condition, rows, rest, bound, denoted, present,
    filtered.symm⟩

/-- A READ by key keeps the table and answers 00, 23 or what the decoder says. -/
theorem fetchRandom_ok {env : Env} {weak : Bool} {cols : List ℕ} {st st' : State}
    (fetched : fetchRandom env weak cols st = .ok st') :
    Kept st st' ∧
      ((st'.fcd.status = stRecNotFound ∧ st'.fcd.record = st.fcd.record ∧
          Misses env.pg st cols) ∨
        (st'.fcd.status = stOk ∧ st'.conn = st.conn ∧ ∃ row, Reads env.pg st cols row ∧
          if weak then st'.fcd.record = st.fcd.record
          else pq2cob st.tab.columns row st.fcd.record = .ok st'.fcd.record)) := by
  cases fetchRandom_cases fetched with
  | missed bound none =>
      refine ⟨(kept_selected st env.pg cols bound).trans (Kept.setStatus _ _),
        Or.inl ⟨rfl, rfl, ⟨_, _, bound, fun running condition rows denoted present => ?_⟩⟩⟩
      rw [denoted] at none
      exact Conn.select_empty none running present
  | probed bound found probe =>
      obtain ⟨same, reads⟩ := reads_of_selected bound found
      subst probe
      exact ⟨(kept_selected st env.pg cols bound).trans (Kept.setStatus _ _),
        Or.inr ⟨rfl, same, _, reads, rfl⟩⟩
  | read bound found reads decoded =>
      obtain ⟨same, finds⟩ := reads_of_selected bound found
      subst reads
      exact ⟨(kept_selected st env.pg cols bound).trans
          ⟨rfl, rfl, rfl, rfl, rfl, rfl, rfl, rfl, rfl, rfl, rfl, rfl⟩,
        Or.inr ⟨rfl, same, _, finds, decoded⟩⟩

/-- A read of an open table gives back the lock it remembers. -/
def State.released (st : State) : State := if 0 < st.tab.advisoryLock then st.unlock else st

section Released

variable (st : State)

/-- Giving up an advisory lock changes nothing that is read. -/
theorem kept_released : Kept st st.released := by
  unfold State.released
  split
  · exact ⟨rfl, rfl, rfl, rfl, rfl, rfl, rfl, rfl, rfl, rfl, rfl, rfl⟩
  · exact Kept.refl st

/-- What is released before a READ leaves the fcd. -/
theorem State.released_fcd : st.released.fcd = st.fcd := by
  unfold State.released
  split <;> rfl

/-- What is released before a READ leaves the connection. -/
theorem State.released_conn : st.released.conn = st.conn := by
  unfold State.released
  split <;> rfl

/-- What is released before a READ leaves the buffers. -/
theorem State.released_bufs : st.released.tab.bufs = st.tab.bufs := by
  unfold State.released
  split <;> rfl

/-- What is released before a READ leaves the address of the table. -/
theorem State.released_handle : st.released.tab.handle = st.tab.handle := by
  unfold State.released
  split <;> rfl

/-- What is released before a READ leaves the identity of the table. -/
theorem State.released_oid : st.released.tab.oid = st.tab.oid := by
  unfold State.released
  split <;> rfl

/-- What is released before a READ leaves the prepared statements. -/
theorem State.released_readPrepared : st.released.tab.readPrepared = st.tab.readPrepared := by
  unfold State.released
  split <;> rfl

/-- What is released before a READ leaves the flag of a START at the end. -/
theorem State.released_eofStart : st.released.eofStart = st.eofStart := by
  unfold State.released
  split <;> rfl

/-- What is released before a READ loses no pending commit. -/
theorem State.le_released_pendingCommits : st.pendingCommits ≤ st.released.pendingCommits := by
  unfold State.released
  split
  · exact Nat.le_succ _
  · exact le_rfl

/-- What is released before a READ leaves the key. -/
theorem getkbuf_released :
    getkbuf st.released.tab st.released.fcd.keyId st.released.fcd.record =
      getkbuf st.tab st.fcd.keyId st.fcd.record := by
  unfold State.released
  split <;> rfl

/-- A read asks for its lock as the table was before it. -/
theorem wantsLock_released (env : Env) (withLock : Bool) (kbuf : List Byte) :
    wantsLock env withLock kbuf st.released = wantsLock env withLock kbuf st := by
  unfold wantsLock
  rw [st.released_fcd, st.released_oid]

/-- What is released before a READ leaves the columns it reads by. -/
theorem readColumns_released (weak : Bool) :
    readColumns st.released.tab st.fcd.keyId weak = readColumns st.tab st.fcd.keyId weak := by
  unfold readColumns randomColumns
  rw [st.released_readPrepared, (kept_released st).keys]

end Released

/-- What `opReadRandom` comes to: the file is not open, the record is locked, or the statement is
executed. -/
inductive ReadsRandom (env : Env) (weak withLock : Bool) (st : State) : State → Prop
  | closed (closed : st.fcd.openMode = 128) :
      ReadsRandom env weak withLock st (st.setStatus stNotOpenedRead)
  | locked {kbuf : List Byte} {st₂ : State} (opened : st.fcd.openMode ≠ 128)
      (built : getkbuf st.tab st.fcd.keyId st.fcd.record = .ok kbuf)
      (prepared : prepareRandom env weak withLock (cstr kbuf) st.released = .ok (none, st₂)) :
      ReadsRandom env weak withLock st (st₂.setStatus stLocked)
  | fetched {kbuf : List Byte} {cols : List ℕ} {st₂ st' : State}
      (opened : st.fcd.openMode ≠ 128)
      (built : getkbuf st.tab st.fcd.keyId st.fcd.record = .ok kbuf)
      (prepared : prepareRandom env weak withLock (cstr kbuf) st.released = .ok (some cols, st₂))
      (fetched : fetchRandom env weak cols st₂ = .ok st') : ReadsRandom env weak withLock st st'

/-- With its statement prepared, a read is what it fetches. -/
theorem opReadRandom_eq_fetch {env : Env} {weak withLock : Bool} {st st₂ : State}
    {kbuf : List Byte} {cols : List ℕ} (opened : st.fcd.openMode ≠ 128)
    (built : getkbuf st.tab st.fcd.keyId st.fcd.record = .ok kbuf)
    (prepared : prepareRandom env weak withLock (cstr kbuf) st.released = .ok (some cols, st₂)) :
    opReadRandom env weak withLock st = fetchRandom env weak cols st₂ := by
  rw [← getkbuf_released] at built
  refine (if_neg opened).trans ?_
  change (getkbuf st.released.tab st.released.fcd.keyId st.released.fcd.record >>= fun kbuf =>
    prepareRandom env weak withLock (cstr kbuf) st.released >>= _) = _
  rw [built, ok_bind, prepared, ok_bind]

/-- When a READ by key returns, and with what state. -/
theorem opReadRandom_iff {env : Env} {weak withLock : Bool} {st st' : State} :
    opReadRandom env weak withLock st = .ok st' ↔ ReadsRandom env weak withLock st st' := by
  unfold opReadRandom
  constructor
  · intro read
    split at read
    · rename_i closed
      cases read
      exact .closed closed
    · rename_i opened
      obtain ⟨kbuf, built, read⟩ := bind_eq_ok.mp read
      obtain ⟨⟨cols, st₂⟩, prepared, read⟩ := bind_eq_ok.mp read
      have built := (getkbuf_released st).symm.trans built
      cases cols with
      | none =>
          cases read
          exact .locked opened built prepared
      | some cols => exact .fetched opened built prepared read
  · intro reads
    cases reads with
    | closed closed => exact if_pos closed
    | locked opened built prepared =>
        have built := (getkbuf_released st).trans built
        exact (if_neg opened).trans (bind_eq_ok.mpr ⟨_, built, bind_eq_ok.mpr ⟨_, prepared, rfl⟩⟩)
    | fetched opened built prepared fetched =>
        exact (opReadRandom_eq_fetch opened built prepared).trans fetched

/-- What a read that returned has done. -/
theorem opReadRandom_ok {env : Env} {weak withLock : Bool} {st st' : State}
    (read : opReadRandom env weak withLock st = .ok st') :
    Kept st st' ∧
      ((st'.fcd.status ≠ stOk ∧ st'.fcd.record = st.fcd.record ∧
          (st'.fcd.status = stRecNotFound → ∃ cols,
            readColumns st.tab st.fcd.keyId weak = .ok cols ∧ Misses env.pg st cols)) ∨
        (st'.fcd.status = stOk ∧ st'.conn = st.conn ∧ ∃ cols row,
          readColumns st.tab st.fcd.keyId weak = .ok cols ∧ Reads env.pg st cols row ∧
          if weak then st'.fcd.record = st.fcd.record
          else pq2cob st.tab.columns row st.fcd.record = .ok st'.fcd.record)) := by
  cases opReadRandom_iff.mp read with
  | closed =>
      exact ⟨Kept.setStatus st _, Or.inl ⟨(by decide : stNotOpenedRead ≠ stOk), rfl,
        fun missing => absurd missing (by decide : stNotOpenedRead ≠ stRecNotFound)⟩⟩
  | @locked _ st₂ _ _ prepared =>
      obtain ⟨kept₂, fcd₂, _⟩ := prepareRandom_ok prepared
      refine ⟨((kept_released st).trans kept₂).trans (Kept.setStatus _ _),
        Or.inl ⟨(by decide : stLocked ≠ stOk), ?_,
          fun missing => absurd missing (by decide : stLocked ≠ stRecNotFound)⟩⟩
      change st₂.fcd.record = _
      rw [fcd₂, st.released_fcd]
  | @fetched _ cols st₂ _ _ _ prepared fetched =>
      obtain ⟨kept₂, fcd₂, conn₂, bufs₂, columns⟩ := prepareRandom_ok prepared
      obtain ⟨kept₃, outcome⟩ := fetchRandom_ok fetched
      have kept := (kept_released st).trans kept₂
      have fcd := fcd₂.trans st.released_fcd
      have conn := conn₂.trans st.released_conn
      have bufs := bufs₂.trans st.released_bufs
      refine ⟨kept.trans kept₃, ?_⟩
      have columns' : readColumns st.tab st.fcd.keyId weak = .ok cols := by
        have chosen := columns cols rfl
        rw [st.released_fcd, readColumns_released] at chosen
        exact chosen
      have reads : ∀ row, Reads env.pg st₂ cols row → Reads env.pg st cols row := by
        rintro row ⟨running, bufs', texts, condition, rows, rest, bound, denoted, present, first⟩
        refine ⟨?_, bufs', texts, condition, rows, rest, ?_, ?_, ?_, first⟩
        · rw [← conn]
          exact running
        · rw [← kept.keyParams, ← bufs, ← fcd]
          exact bound
        · rw [← denoted, kept.condition]
        · rw [← kept.working, ← kept.relation]
          exact present
      have misses : Misses env.pg st₂ cols → Misses env.pg st cols := by
        rintro ⟨bufs', texts, bound, none⟩
        refine ⟨bufs', texts, ?_, fun running condition rows denoted present => ?_⟩
        · rw [← kept.keyParams, ← bufs, ← fcd]
          exact bound
        · apply none _ condition rows
          · rw [kept.condition, denoted]
          · rw [kept.working, kept.relation, present]
          · rw [conn, running]
      rw [fcd, kept.columns] at outcome
      rcases outcome with ⟨missing, record, none⟩ | ⟨found, same, row, read, record⟩
      · exact Or.inl ⟨by rw [missing]; decide, record, fun _ => ⟨cols, columns', misses none⟩⟩
      · exact Or.inr ⟨found, same.trans conn, cols, row, columns', reads row read, record⟩

/-- A read that asks for a lock that the server refuses. -/
theorem opReadRandom_refused {env : Env} {weak withLock : Bool} {st st' : State} {kbuf : List Byte}
    (opened : st.fcd.openMode ≠ 128) (fresh : st.tab.readPrepared st.fcd.keyId = none)
    (built : getkbuf st.tab st.fcd.keyId st.fcd.record = .ok kbuf)
    (asks : wantsLock env withLock (cstr kbuf) st = true)
    (busy : env.pg.tryLock st.tab.oid (atoi (cstr kbuf)) = false)
    (read : opReadRandom env weak withLock st = .ok st') : st'.fcd.status = stLocked := by
  cases opReadRandom_iff.mp read with
  | closed closed => exact absurd closed opened
  | locked => rfl
  | fetched _ built' prepared =>
      cases built.symm.trans built'
      cases prepareRandom_iff.mp prepared with
      | found found =>
          rw [st.released_readPrepared, st.released_fcd, fresh] at found
          cases found
      | prepared _ _ granted =>
          have free := (granted ((wantsLock_released st _ _ _).trans asks)).2
          rw [st.released_oid, busy] at free
          cases free

/-- A read of an open table that returns neither 00 nor 23 was refused: the record is locked, or
the transaction has failed. -/
theorem opReadRandom_neither {env : Env} {weak withLock : Bool} {st st' : State}
    (opened : st.fcd.openMode ≠ 128) (read : opReadRandom env weak withLock st = .ok st')
    (missed : st'.fcd.status ≠ stOk) (other : st'.fcd.status ≠ stRecNotFound) :
    st.conn.aborted = true ∨ st.tab.readPrepared st.fcd.keyId = none ∧
      ∃ kbuf, getkbuf st.tab st.fcd.keyId st.fcd.record = .ok kbuf ∧
        wantsLock env withLock (cstr kbuf) st = true ∧
        env.pg.tryLock st.tab.oid (atoi (cstr kbuf)) = false := by
  cases opReadRandom_iff.mp read with
  | closed closed => exact absurd closed opened
  | locked _ built prepared =>
      cases prepareRandom_iff.mp prepared with
      | refused missing _ asks busy =>
          rw [st.released_readPrepared, st.released_fcd] at missing
          rw [wantsLock_released] at asks
          rw [st.released_conn, st.released_oid] at busy
          exact busy.imp_right fun busy => ⟨missing, _, built, asks, busy⟩
  | fetched _ _ _ fetched =>
      obtain ⟨_, ⟨missing, _⟩ | ⟨ok, _⟩⟩ := fetchRandom_ok fetched
      · exact absurd missing other
      · exact absurd ok missed

/-! ## op_write -/

/-- A statement is prepared only the first time. -/
theorem guard_ok {flag : Bool} {check : Except Stop Unit} {α : Type} {rest : Unit → Except Stop α}
    {result : α} (ended : (if flag = true then check >>= rest else rest ()) = .ok result) :
    rest () = .ok result ∧ (flag = true → check = .ok ()) := by
  cases flag with
  | false => exact ⟨ended, nofun⟩
  | true =>
      obtain ⟨_, checked, ended⟩ := bind_eq_ok.mp ended
      exact ⟨ended, fun _ => checked⟩

/-- What a WRITE that returned 00 has done: it found no row with the key of the record and
inserted one. -/
theorem opWrite_ok {env : Env} {st st' : State} (wrote : opWrite env st = .ok st')
    (status : st'.fcd.status = stOk) :
    ∃ st₁ bufs texts values rows, opReadRandom env false false (st.setKeyId 0) = .ok st₁ ∧
      st₁.fcd.status ≠ stOk ∧ Kept (st.setKeyId 0) st₁ ∧ st₁.fcd.record = st.fcd.record ∧
      bindParams (writeParams st.tab) st.fcd.record st₁.tab.bufs = .ok (bufs, texts) ∧
      st.tab.assignment env.pg (List.range st.tab.columns.length) texts = some values ∧
      st₁.conn.aborted = false ∧ st.conn.working st.tab.relation = some rows ∧
      st' = { st₁ with
        conn := { st₁.conn with
          working := Function.update st.conn.working st.tab.relation
            (some (rows ++ [values.map Prod.snd])) }
        tab := { st₁.tab with bufs := bufs, insPrepared := true }
        fcd := { st₁.fcd with status := stOk, keyId := st.fcd.keyId }
        pendingCommits := st₁.pendingCommits + 1 } := by
  unfold opWrite at wrote
  split at wrote
  · cases wrote
    exact absurd status (by decide : stNotOpenedWrite ≠ stOk)
  · dsimp only at wrote
    obtain ⟨st₁, read, wrote⟩ := bind_eq_ok.mp wrote
    split at wrote
    · cases wrote
      exact absurd status (by decide : stDuplKey ≠ stOk)
    · rename_i missing
      obtain ⟨kept, outcome⟩ := opReadRandom_ok read
      have record : st₁.fcd.record = st.fcd.record := by
        rcases outcome with ⟨_, record, _⟩ | ⟨found, _⟩
        · exact record
        · exact (missing found).elim
      obtain ⟨st₂, inserted, wrote⟩ := bind_eq_ok.mp wrote
      cases wrote
      unfold insertRecord at inserted
      obtain ⟨inserted, _⟩ := guard_ok inserted
      obtain ⟨⟨bufs, texts⟩, bound, inserted⟩ := bind_eq_ok.mp inserted
      dsimp only at inserted
      generalize executed : st₁.conn.exec env.pg _ = outcome₂ at inserted
      obtain ⟨conn, done⟩ := outcome₂
      cases inserted
      cases done with
      | false => exact absurd status (by decide : stError ≠ stOk)
      | true =>
          obtain ⟨running, statement, db, known, applied, _, rfl⟩ := Conn.exec_true executed
          obtain ⟨row, assigned, rfl⟩ := Option.map_eq_some_iff.mp known
          obtain ⟨values, assigned', rfl⟩ := Option.map_eq_some_iff.mp assigned
          obtain ⟨rows, present, rfl⟩ := Option.map_eq_some_iff.mp applied
          have working : st₁.conn.working = st.conn.working := kept.working
          have relation : st₁.tab.relation = st.tab.relation := kept.relation
          rw [kept.columns, kept.assignment] at assigned'
          rw [kept.writeParams, record] at bound
          refine ⟨st₁, bufs, texts, values, rows, read, missing, kept, record, bound, assigned',
            running, ?_, ?_⟩
          · rw [← present, working]
            exact congrArg st.conn.working relation.symm
          · rw [← working, ← relation]
            rfl

/-! ## op_rewrite -/

/-- The UPDATE of a REWRITE that was executed, its columns set and its condition. -/
theorem updateRecord_ok {env : Env} {st st' : State} (updated : updateRecord env st = .ok st')
    (status : st'.fcd.status = stOk) :
    ∃ bufs texts values condition rows,
      bindParams (rewriteParams st.tab) st.fcd.record st.tab.bufs = .ok (bufs, texts) ∧
      st.tab.assignment env.pg (setColumns st.tab.columns) texts = some values ∧
      st.tab.condition env.pg (whereColumns st.tab.keys 0)
        (texts.drop (setColumns st.tab.columns).length) = some condition ∧
      st.conn.aborted = false ∧ st.conn.working st.tab.relation = some rows ∧
      st' = { st with
        conn := { st.conn with
          working := Function.update st.conn.working st.tab.relation (some (rows.map fun row =>
            if meets condition row then setRow values row else row)) }
        tab := { st.tab with bufs := bufs, updPrepared := true }
        fcd := { st.fcd with status := stOk }
        pendingCommits := st.pendingCommits + 1 } := by
  unfold updateRecord at updated
  obtain ⟨updated, _⟩ := guard_ok updated
  obtain ⟨⟨bufs, texts⟩, bound, updated⟩ := bind_eq_ok.mp updated
  dsimp only at updated
  generalize executed : st.conn.exec env.pg _ = outcome at updated
  obtain ⟨conn, done⟩ := outcome
  cases updated
  cases done with
  | false => exact absurd status (by decide : stRecNotFound ≠ stOk)
  | true =>
      obtain ⟨running, statement, db, known, applied, _, rfl⟩ := Conn.exec_true executed
      simp only [updateStatement] at known
      split at known
      case h_2 => cases known
      case h_1 values condition assigned conditioned =>
        cases known
        obtain ⟨rows, present, rfl⟩ := Option.map_eq_some_iff.mp applied
        exact ⟨bufs, texts, values, condition, rows, bound, assigned, conditioned, running,
          present, rfl⟩

/-- What a REWRITE that returned 00 has done: it found a row with the key of the record, and
updated rows unless the one found was the record already. -/
theorem opRewrite_ok {env : Env} {st st' : State} {done : Bool}
    (rewrote : opRewrite env st = .ok (done, st')) (status : st'.fcd.status = stOk) :
    ∃ st₁, opReadRandom env false false (st.resetScan.setKeyId 0) = .ok st₁ ∧
      st₁.fcd.status = stOk ∧ Kept (st.resetScan.setKeyId 0) st₁ ∧
      ((st₁.fcd.record = st.fcd.record ∧ st' = (st₁.setStatus stOk).setKeyId st.fcd.keyId) ∨
        (st₁.fcd.record ≠ st.fcd.record ∧ ∃ st₂,
          updateRecord env (st₁.setRecord st.fcd.record) = .ok st₂ ∧ st₂.fcd.status = stOk ∧
          st' = st₂.setKeyId st.fcd.keyId)) := by
  unfold opRewrite at rewrote
  split at rewrote
  · cases rewrote
    exact absurd status (by decide : stNotOpenedUpdel ≠ stOk)
  · dsimp only at rewrote
    obtain ⟨st₁, read, rewrote⟩ := bind_eq_ok.mp rewrote
    split at rewrote
    · rename_i missing
      cases rewrote
      exact absurd status missing
    · rename_i found
      refine ⟨st₁, read, not_not.mp found, (opReadRandom_ok read).1, ?_⟩
      split at rewrote
      · rename_i same
        cases rewrote
        exact Or.inl ⟨same.symm, rfl⟩
      · rename_i changed
        obtain ⟨_, _, rewrote⟩ := bind_eq_ok.mp rewrote
        obtain ⟨st₂, updated, rewrote⟩ := bind_eq_ok.mp rewrote
        cases rewrote
        exact Or.inr ⟨fun same => changed same.symm, st₂, updated, status, rfl⟩

/-! ## op_delete -/

/-- A DELETE that answers 00 has deleted the rows of its key. -/
theorem deleteRecord_ok {env : Env} {st st' : State} (deleted : deleteRecord env st = .ok st')
    (status : st'.fcd.status = stOk) :
    ∃ bufs texts condition rows,
      bindParams (keyParams st.tab (whereColumns st.tab.keys 0)) st.fcd.record st.tab.bufs =
        .ok (bufs, texts) ∧
      st.tab.condition env.pg (whereColumns st.tab.keys 0) texts = some condition ∧
      st.conn.aborted = false ∧ st.conn.working st.tab.relation = some rows ∧
      st' = { st with
        conn := { st.conn with
          working := Function.update st.conn.working st.tab.relation
            (some (rows.filter fun row => !meets condition row)) }
        tab := { st.tab with bufs := bufs, delPrepared := true }
        fcd := { st.fcd with status := stOk }
        pendingCommits := st.pendingCommits + 1 } := by
  unfold deleteRecord at deleted
  obtain ⟨deleted, _⟩ := guard_ok deleted
  obtain ⟨⟨bufs, texts⟩, bound, deleted⟩ := bind_eq_ok.mp deleted
  dsimp only at deleted
  generalize executed : st.conn.exec env.pg _ = outcome at deleted
  obtain ⟨conn, done⟩ := outcome
  cases deleted
  cases done with
  | false => exact absurd status (by decide : stRecNotFound ≠ stOk)
  | true =>
      obtain ⟨running, statement, db, known, applied, _, rfl⟩ := Conn.exec_true executed
      obtain ⟨condition, conditioned, rfl⟩ := Option.map_eq_some_iff.mp known
      obtain ⟨rows, present, rfl⟩ := Option.map_eq_some_iff.mp applied
      exact ⟨bufs, texts, condition, rows, bound, conditioned, running, present, rfl⟩

/-- What a DELETE that returned 00 has done: it found a row by the key in use and deleted the
rows with the primary key of that row. -/
theorem opDelete_ok {env : Env} {st st' : State} (deleted : opDelete env st = .ok st')
    (status : st'.fcd.status = stOk) :
    ∃ st₁, opReadRandom env false false st.resetScan = .ok st₁ ∧ st₁.fcd.status = stOk ∧
      Kept st.resetScan st₁ ∧ deleteRecord env st₁ = .ok st' := by
  unfold opDelete at deleted
  split at deleted
  · cases deleted
    exact absurd status (by decide : stNotOpenedUpdel ≠ stOk)
  · obtain ⟨st₁, read, deleted⟩ := bind_eq_ok.mp deleted
    split at deleted
    · cases deleted
      exact absurd status (by decide : stRecNotFound ≠ stOk)
    · rename_i found
      obtain ⟨_, _, deleted⟩ := bind_eq_ok.mp deleted
      exact ⟨st₁, read, not_not.mp found, (opReadRandom_ok read).1, deleted⟩

end Pqfh
