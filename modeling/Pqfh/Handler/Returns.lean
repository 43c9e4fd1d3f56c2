import Pqfh.Handler.OpsFrame
import Pqfh.Handler.RoundTrip

/-! # When the operations of mode W return

In mode W no lock is asked for, and `op_write`, `op_rewrite` and `op_delete` return exactly when
the statements they come to can be prepared, the fields these take fit and pass the check, and a
row found can be read. The conditions below are on the state before the operation, and say too
when the record area is left as it was.
-/

namespace Pqfh

/-! ## Setting parameters -/

/-- The parameters of a statement can be set in rows of a size, and pass the check. -/
structure Binds (params : List Param) (record : List Byte) (size : ℕ) : Prop where
  inside : ∀ param ∈ params, param.col.offset + param.col.len ≤ record.length
  room : ∀ i param, params[i]? = some param →
    i * rowSize + (param.row (slice record param.col.offset param.col.len)).length ≤ size
  passes : ∀ param ∈ params, (param.checked (slice record param.col.offset param.col.len)).2 = false

/-- Parameters that were set had room for their rows. -/
theorem setParams_room {record : List Byte} :
    ∀ {params : List Param} {p : ℕ} {bufs : List Byte} {result : List Byte × Bool},
      setParams record params p bufs = .ok result → ∀ i param, params[i]? = some param →
        (p + i) * rowSize + (param.row (slice record param.col.offset param.col.len)).length ≤
          bufs.length := by
  intro params
  induction params with
  | nil => intro p bufs result _ i param present; cases present
  | cons first params ih =>
      intro p bufs result set i param present
      unfold setParams at set
      split at set
      case isFalse => cases set
      case isTrue =>
        obtain ⟨bufs₁, written, set⟩ := bind_eq_ok.mp set
        obtain ⟨⟨bufs₂, fatal⟩, later, _⟩ := bind_eq_ok.mp set
        obtain ⟨room, rfl⟩ := writeAt_eq_ok.mp written
        cases i with
        | zero =>
            cases present
            exact room
        | succ i =>
            have further := ih later i param present
            rw [show p + 1 + i = p + (i + 1) by omega] at further
            refine further.trans (le_of_eq ?_)
            rw [List.length_append, List.length_append, List.length_take, List.length_drop]
            omega

/-- When parameters can be bound. -/
theorem bindParams_iff {params : List Param} {record bufs : List Byte} :
    (∃ result, bindParams params record bufs = .ok result) ↔ Binds params record bufs.length := by
  constructor
  · rintro ⟨⟨bufs', texts⟩, bound⟩
    obtain ⟨checks, _, _⟩ := bindParams_ok bound
    refine ⟨fun param member => (checks param member).1, ?_,
      fun param member => (checks param member).2⟩
    unfold bindParams at bound
    obtain ⟨result, set, _⟩ := bind_eq_ok.mp bound
    intro i param present
    have room := setParams_room set i param present
    rwa [Nat.zero_add] at room
  · intro binds
    obtain ⟨bufs', _, bound⟩ := bindParams_eq binds.inside binds.room
    have passes : params.any (fun param =>
        (param.checked (slice record param.col.offset param.col.len)).2) = false := by
      rw [List.any_eq_false]
      intro param member
      rw [binds.passes param member]
      exact Bool.false_ne_true
    rw [passes, if_neg Bool.false_ne_true] at bound
    exact ⟨_, bound⟩

/-- A statement that was prepared, or can be. -/
def Preparable (flag : Bool) (conn : Conn) (relation : ℕ) : Prop :=
  flag = true ∨ conn.aborted = false ∧ (conn.working relation).isSome

/-- A statement is prepared when the transaction goes on and the table is there. -/
theorem prepare_iff {conn : Conn} {relation : ℕ} :
    conn.prepare relation = .ok () ↔ conn.aborted = false ∧ (conn.working relation).isSome := by
  unfold Conn.prepare
  cases conn.aborted <;> cases conn.working relation <;> simp

/-! ## The read of an operation -/

/-- What the server answers to the SELECT of a read by some columns. -/
def readAnswer (pg : Postgres) (st : State) (cols : List ℕ) : Conn × Option (List Row) :=
  st.conn.select st.tab.relation (st.tab.condition pg cols (runOn ((keyParams st.tab cols).map
    fun param => (param.checked (slice st.fcd.record param.col.offset param.col.len)).1)))

/-- The row that the read finds. -/
def readRow (pg : Postgres) (st : State) (cols : List ℕ) : Option Row :=
  ((readAnswer pg st cols).2.getD []).head?

/-- A read of an open table by some columns returns. -/
structure ReadRuns (pg : Postgres) (st : State) (cols : List ℕ) : Prop where
  built : ∃ kbuf, getkbuf st.tab st.fcd.keyId st.fcd.record = .ok kbuf
  columns : readColumns st.tab st.fcd.keyId false = .ok cols
  prepared : Preparable (st.tab.readPrepared st.fcd.keyId).isSome st.conn st.tab.relation
  binds : Binds (keyParams st.tab cols) st.fcd.record st.tab.bufs.length
  decodes : ∀ row ∈ readRow pg st cols, ∃ record, pq2cob st.tab.columns row st.fcd.record =
    .ok record

/-- What a read that returned has made of the state. -/
structure ReadLeaves (pg : Postgres) (st st' : State) (cols : List ℕ) : Prop where
  kept : Kept st st'
  conn : st'.conn = (readAnswer pg st cols).1
  missed : readRow pg st cols = none → st'.fcd.status ≠ stOk ∧ st'.fcd.record = st.fcd.record
  found : ∀ row, readRow pg st cols = some row → st'.fcd.status = stOk ∧
    pq2cob st.tab.columns row st.fcd.record = .ok st'.fcd.record

/-- A READ by key that comes back has bound its key and read its row. -/
theorem fetchRandom_leaves {env : Env} {st st' : State} {cols : List ℕ}
    (fetched : fetchRandom env false cols st = .ok st') :
    Binds (keyParams st.tab cols) st.fcd.record st.tab.bufs.length ∧
      (∀ row ∈ readRow env.pg st cols, ∃ record,
        pq2cob st.tab.columns row st.fcd.record = .ok record) ∧ ReadLeaves env.pg st st' cols := by
  have kept := (fetchRandom_ok fetched).1
  obtain ⟨⟨bufs, texts⟩, bound, _⟩ := bind_eq_ok.mp fetched
  rw [fetchRandom_eq env false bound] at fetched
  obtain ⟨_, _, sent⟩ := bindParams_ok bound
  refine ⟨bindParams_iff.mp ⟨_, bound⟩, ?_⟩
  subst sent
  change State.deliver _ false (readAnswer env.pg st cols).2 = _ at fetched
  have missing : readRow env.pg st cols = none →
      .ok (((st.setBufs bufs).setConn (readAnswer env.pg st cols).1).setStatus stRecNotFound) =
        Except.ok (ε := Stop) st' →
      (∀ row ∈ readRow env.pg st cols, ∃ record,
        pq2cob st.tab.columns row st.fcd.record = .ok record) ∧ ReadLeaves env.pg st st' cols := by
    intro none ended
    cases ended
    refine ⟨fun row found => ?_, kept, rfl,
      fun _ => ⟨(by decide : stRecNotFound ≠ stOk), rfl⟩, fun row found => ?_⟩ <;>
      exact absurd (none.symm.trans found) (Option.some_ne_none row).symm
  rcases selected : (readAnswer env.pg st cols).2 with - | - | ⟨row, rest⟩
  · rw [selected] at fetched
    exact missing (by unfold readRow; rw [selected]; rfl) fetched
  · rw [selected] at fetched
    exact missing (by unfold readRow; rw [selected]; rfl) fetched
  · rw [selected] at fetched
    have found : readRow env.pg st cols = some row := by
      unfold readRow
      rw [selected]
      rfl
    obtain ⟨record, read, ended⟩ := bind_eq_ok.mp fetched
    cases ended
    rw [found]
    refine ⟨?_, kept, rfl, ?_, ?_⟩
    · rintro _ ⟨⟩
      exact ⟨record, read⟩
    · intro none
      exact absurd (found.symm.trans none) (Option.some_ne_none row)
    · rw [found]
      rintro _ ⟨⟩
      exact ⟨rfl, read⟩

/-- A READ by key comes back when its key can be bound and every row can be read. -/
theorem fetchRandom_runs {env : Env} {st : State} {cols : List ℕ}
    (binds : Binds (keyParams st.tab cols) st.fcd.record st.tab.bufs.length)
    (decodes : ∀ row ∈ readRow env.pg st cols, ∃ record,
      pq2cob st.tab.columns row st.fcd.record = .ok record) :
    ∃ st', fetchRandom env false cols st = .ok st' := by
  obtain ⟨⟨bufs, texts⟩, bound⟩ := bindParams_iff.mpr binds
  rw [fetchRandom_eq env false bound]
  obtain ⟨_, _, sent⟩ := bindParams_ok bound
  subst sent
  change ∃ st', State.deliver _ false (readAnswer env.pg st cols).2 = Except.ok st'
  rcases selected : (readAnswer env.pg st cols).2 with - | - | ⟨row, rest⟩
  · exact ⟨_, rfl⟩
  · exact ⟨_, rfl⟩
  · obtain ⟨record, read⟩ := decodes row (by unfold readRow; rw [selected]; rfl)
    change ∃ st', (pq2cob st.tab.columns row st.fcd.record >>= _) = .ok st'
    rw [read, ok_bind]
    exact ⟨_, rfl⟩

/-- No lock is asked for in mode W. -/
theorem wantsLock_write {env : Env} (mode : env.mode = .W) (kbuf : List Byte) (st : State) :
    wantsLock env false kbuf st = false := by
  unfold wantsLock
  rw [mode]
  simp

/-- A READ that was prepared has the columns of its key. -/
theorem prepareRandom_leaves {env : Env} {kbuf : List Byte} {st st' : State}
    {result : Option (List ℕ)} (mode : env.mode = .W)
    (prepared : prepareRandom env false false kbuf st = .ok (result, st')) :
    (∃ cols, result = some cols) ∧
      Preparable (st.tab.readPrepared st.fcd.keyId).isSome st.conn st.tab.relation := by
  cases prepareRandom_iff.mp prepared with
  | found found =>
      rw [found]
      exact ⟨⟨_, rfl⟩, Or.inl rfl⟩
  | refused _ _ asks =>
      rw [wantsLock_write mode] at asks
      cases asks
  | prepared _ _ _ done => exact ⟨⟨_, rfl⟩, Or.inr (prepare_iff.mp done)⟩

/-- A READ is prepared when its key has columns. -/
theorem prepareRandom_runs {env : Env} {kbuf : List Byte} {st : State} {cols : List ℕ}
    (mode : env.mode = .W) (columns : readColumns st.tab st.fcd.keyId false = .ok cols)
    (preparable : Preparable (st.tab.readPrepared st.fcd.keyId).isSome st.conn st.tab.relation) :
    ∃ st', prepareRandom env false false kbuf st = .ok (some cols, st') := by
  cases found : st.tab.readPrepared st.fcd.keyId with
  | some cols' =>
    rw [readColumns_some found] at columns
    cases columns
    exact ⟨st, prepareRandom_iff.mpr (.found found)⟩
  | none =>
    rw [readColumns_none found] at columns
    rw [found] at preparable
    rcases preparable with impossible | accepted
    · cases impossible
    · refine ⟨_, prepareRandom_iff.mpr (.prepared found columns ?_ (prepare_iff.mpr accepted))⟩
      intro asks
      rw [wantsLock_write mode] at asks
      cases asks

/-- What precedes the fetch of a read changes nothing that the fetch uses. -/
structure Ready (st st' : State) : Prop where
  kept : Kept st st'
  fcd : st'.fcd = st.fcd
  conn : st'.conn = st.conn
  bufs : st'.tab.bufs = st.tab.bufs

/-- A state made ready gives the same answer to a READ. -/
theorem Ready.readAnswer {st st' : State} (ready : Ready st st') (pg : Postgres) (cols : List ℕ) :
    readAnswer pg st' cols = readAnswer pg st cols := by
  unfold Pqfh.readAnswer
  rw [ready.conn, ready.kept.relation, ready.kept.condition, ready.kept.keyParams, ready.fcd]

/-- A state made ready reads the same row. -/
theorem Ready.readRow {st st' : State} (ready : Ready st st') (pg : Postgres) (cols : List ℕ) :
    readRow pg st' cols = readRow pg st cols := by
  unfold Pqfh.readRow
  rw [ready.readAnswer]

/-- The advisory lock of a read before is given up first. -/
theorem ready_released (st : State) : Ready st st.released :=
  ⟨kept_released st, st.released_fcd, st.released_conn, st.released_bufs⟩

/-- Preparing leaves the state ready. -/
theorem Ready.prepared {env : Env} {weak withLock : Bool} {kbuf : List Byte} {st st₁ st₂ : State}
    {result : Option (List ℕ)} (ready : Ready st st₁)
    (prepared : prepareRandom env weak withLock kbuf st₁ = .ok (result, st₂)) : Ready st st₂ := by
  obtain ⟨kept, fcd, conn, bufs, _⟩ := prepareRandom_ok prepared
  exact ⟨ready.kept.trans kept, fcd.trans ready.fcd, conn.trans ready.conn, bufs.trans ready.bufs⟩

/-- What a READ leaves is the same from the state before it was made ready. -/
theorem Ready.leaves {pg : Postgres} {st st₁ st' : State} {cols : List ℕ} (ready : Ready st st₁)
    (leaves : ReadLeaves pg st₁ st' cols) : ReadLeaves pg st st' cols where
  kept := ready.kept.trans leaves.kept
  conn := by rw [leaves.conn, ready.readAnswer]
  missed := by rw [← ready.readRow, ← ready.fcd]; exact leaves.missed
  found := by rw [← ready.readRow, ← ready.fcd, ← ready.kept.columns]; exact leaves.found

/-- What a read in mode W that returned has done. -/
theorem opReadRandom_leaves {env : Env} {st st' : State} (mode : env.mode = .W)
    (opened : st.fcd.openMode ≠ 128) (read : opReadRandom env false false st = .ok st') :
    ∃ cols, ReadRuns env.pg st cols ∧ ReadLeaves env.pg st st' cols := by
  cases opReadRandom_iff.mp read with
  | closed closed => exact absurd closed opened
  | locked _ _ prepared =>
      obtain ⟨⟨_, impossible⟩, _⟩ := prepareRandom_leaves mode prepared
      cases impossible
  | @fetched kbuf cols st₂ _ _ built prepared fetched =>
      obtain ⟨_, preparable⟩ := prepareRandom_leaves mode prepared
      have chosen := (prepareRandom_ok prepared).2.2.2.2 cols rfl
      obtain ⟨binds, decodes, leaves⟩ := fetchRandom_leaves fetched
      have ready := (ready_released st).prepared prepared
      refine ⟨cols, ⟨⟨kbuf, built⟩, ?_, ?_, ?_, ?_⟩, ready.leaves leaves⟩
      · rw [st.released_fcd, readColumns_released] at chosen
        exact chosen
      · rw [st.released_readPrepared, st.released_fcd, st.released_conn,
          (kept_released st).relation] at preparable
        exact preparable
      · rw [ready.kept.keyParams, ready.fcd, ready.bufs] at binds
        exact binds
      · rw [ready.readRow, ready.kept.columns, ready.fcd] at decodes
        exact decodes

/-- A read in mode W returns. -/
theorem opReadRandom_runs {env : Env} {st : State} {cols : List ℕ} (mode : env.mode = .W)
    (opened : st.fcd.openMode ≠ 128) (runs : ReadRuns env.pg st cols) :
    ∃ st', opReadRandom env false false st = .ok st' ∧ ReadLeaves env.pg st st' cols := by
  suffices ∃ st', opReadRandom env false false st = .ok st' by
    obtain ⟨st', read⟩ := this
    obtain ⟨cols', runs', leaves⟩ := opReadRandom_leaves mode opened read
    have same := runs'.columns
    rw [runs.columns] at same
    cases same
    exact ⟨st', read, leaves⟩
  obtain ⟨kbuf, built⟩ := runs.built
  have columns : readColumns st.released.tab st.released.fcd.keyId false = .ok cols := by
    rw [st.released_fcd, readColumns_released]
    exact runs.columns
  have preparable : Preparable (st.released.tab.readPrepared st.released.fcd.keyId).isSome
      st.released.conn st.released.tab.relation := by
    rw [st.released_readPrepared, st.released_fcd, st.released_conn, (kept_released st).relation]
    exact runs.prepared
  obtain ⟨st₂, prepared⟩ := prepareRandom_runs mode columns preparable
  have ready := (ready_released st).prepared prepared
  have binds : Binds (keyParams st₂.tab cols) st₂.fcd.record st₂.tab.bufs.length := by
    rw [ready.kept.keyParams, ready.fcd, ready.bufs]
    exact runs.binds
  obtain ⟨st', fetched⟩ := fetchRandom_runs binds (by
    rw [ready.readRow, ready.kept.columns, ready.fcd]
    exact runs.decodes)
  exact ⟨st', opReadRandom_iff.mpr (.fetched opened built prepared fetched)⟩

/-! ## The statements that change the table -/

/-- A statement that is prepared only the first time. -/
theorem guard_iff {prepared : Bool} {check : Except Stop Unit} {α : Type}
    {rest : Unit → Except Stop α} :
    (∃ result, (if (!prepared) = true then check >>= rest else rest ()) = .ok result) ↔
      (prepared = true ∨ check = .ok ()) ∧ ∃ result, rest () = .ok result := by
  cases prepared with
  | true => simp
  | false =>
      constructor
      · rintro ⟨result, ended⟩
        obtain ⟨_, checked, ended⟩ := bind_eq_ok.mp ended
        exact ⟨Or.inr checked, result, ended⟩
      · rintro ⟨impossible | checked, result, ended⟩
        · cases impossible
        · exact ⟨result, bind_eq_ok.mpr ⟨(), checked, ended⟩⟩

/-- An INSERT comes back when it can be prepared and its texts can be bound. -/
theorem insertRecord_iff {env : Env} {st : State} :
    (∃ st', insertRecord env st = .ok st') ↔
      Preparable st.tab.insPrepared st.conn st.tab.relation ∧
      Binds (writeParams st.tab) st.fcd.record st.tab.bufs.length := by
  unfold insertRecord Preparable
  rw [guard_iff, prepare_iff, ← bindParams_iff]
  refine and_congr_right fun _ => ?_
  constructor
  · rintro ⟨st', inserted⟩
    obtain ⟨bound, binding, _⟩ := bind_eq_ok.mp inserted
    exact ⟨bound, binding⟩
  · rintro ⟨bound, binding⟩
    rw [binding, ok_bind]
    exact ⟨_, rfl⟩

/-- A DELETE comes back when it can be prepared and its key can be bound. -/
theorem deleteRecord_iff {env : Env} {st : State} :
    (∃ st', deleteRecord env st = .ok st') ↔
      Preparable st.tab.delPrepared st.conn st.tab.relation ∧
      Binds (keyParams st.tab (whereColumns st.tab.keys 0)) st.fcd.record st.tab.bufs.length := by
  unfold deleteRecord Preparable
  rw [guard_iff, prepare_iff, ← bindParams_iff]
  refine and_congr_right fun _ => ?_
  constructor
  · rintro ⟨st', deleted⟩
    obtain ⟨bound, binding, _⟩ := bind_eq_ok.mp deleted
    exact ⟨bound, binding⟩
  · rintro ⟨bound, binding⟩
    dsimp only
    rw [binding, ok_bind]
    exact ⟨_, rfl⟩

/-- An UPDATE comes back when it sets a column, can be prepared and its texts can be bound. -/
theorem updateRecord_iff {env : Env} {st : State} :
    (∃ st', updateRecord env st = .ok st') ↔
      (st.tab.updPrepared = true ∨ setColumns st.tab.columns ≠ []) ∧
      Preparable st.tab.updPrepared st.conn st.tab.relation ∧
      Binds (rewriteParams st.tab) st.fcd.record st.tab.bufs.length := by
  have prepares : prepareUpdate st = .ok () ↔ setColumns st.tab.columns ≠ [] ∧
      st.conn.aborted = false ∧ (st.conn.working st.tab.relation).isSome := by
    unfold prepareUpdate
    rw [← prepare_iff]
    split
    · rename_i none
      simp [none]
    · rename_i some
      simp [some]
  unfold updateRecord Preparable
  rw [guard_iff, prepares, ← bindParams_iff, or_and_left, and_assoc]
  refine and_congr_right fun _ => and_congr_right fun _ => ?_
  constructor
  · rintro ⟨st', updated⟩
    obtain ⟨bound, binding, _⟩ := bind_eq_ok.mp updated
    exact ⟨bound, binding⟩
  · rintro ⟨bound, binding⟩
    rw [binding, ok_bind]
    exact ⟨_, rfl⟩

/-! ## WRITE, REWRITE and DELETE -/

/-- `op_write` returns and leaves the record: its read finds the record itself, or no row and
the record can be inserted. -/
def WriteKeeps (pg : Postgres) (st : State) : Prop :=
  ∃ cols, ReadRuns pg (st.setKeyId 0) cols ∧
    match readRow pg (st.setKeyId 0) cols with
    | some row => pq2cob st.tab.columns row st.fcd.record = .ok st.fcd.record
    | none => Preparable st.tab.insPrepared (readAnswer pg (st.setKeyId 0) cols).1 st.tab.relation ∧
        Binds (writeParams st.tab) st.fcd.record st.tab.bufs.length

/-- `op_rewrite` returns: its read finds no row, or the record itself, or the row can be
updated. -/
def RewriteKeeps (pg : Postgres) (st : State) : Prop :=
  ∃ cols, ReadRuns pg (st.resetScan.setKeyId 0) cols ∧
    ∀ row ∈ readRow pg (st.resetScan.setKeyId 0) cols,
      pq2cob st.tab.columns row st.fcd.record = .ok st.fcd.record ∨
        (st.tab.updPrepared = true ∨ setColumns st.tab.columns ≠ []) ∧
        Preparable st.tab.updPrepared (readAnswer pg (st.resetScan.setKeyId 0) cols).1
          st.tab.relation ∧
        Binds (rewriteParams st.tab) st.fcd.record st.tab.bufs.length

/-- `op_delete` returns and leaves the record: its read finds no row, or the record itself and
the row can be deleted. -/
def DeleteKeeps (pg : Postgres) (st : State) : Prop :=
  ∃ cols, ReadRuns pg st.resetScan cols ∧
    ∀ row ∈ readRow pg st.resetScan cols,
      pq2cob st.tab.columns row st.fcd.record = .ok st.fcd.record ∧
        (∃ kbuf, getkbuf st.tab 0 st.fcd.record = .ok kbuf) ∧
        Preparable st.tab.delPrepared (readAnswer pg st.resetScan cols).1 st.tab.relation ∧
        Binds (keyParams st.tab (whereColumns st.tab.keys 0)) st.fcd.record st.tab.bufs.length

/-- The record can be inserted after a read by key 0 that found no row. -/
theorem insertRecord_after {env : Env} {st st₁ : State} {cols : List ℕ}
    (leaves : ReadLeaves env.pg (st.setKeyId 0) st₁ cols)
    (none : readRow env.pg (st.setKeyId 0) cols = none) :
    (∃ st₂, insertRecord env st₁ = .ok st₂) ↔
      Preparable st.tab.insPrepared (readAnswer env.pg (st.setKeyId 0) cols).1 st.tab.relation ∧
      Binds (writeParams st.tab) st.fcd.record st.tab.bufs.length := by
  have kept := leaves.kept
  rw [insertRecord_iff, leaves.conn, kept.insPrepared, kept.relation, kept.writeParams, kept.bufs,
    (leaves.missed none).2]
  exact Iff.rfl

/-- A WRITE keeps the record and the status when the table takes it. -/
theorem opWrite_keeps_iff {env : Env} {st : State} (mode : env.mode = .W)
    (opened : st.fcd.openMode ≠ 128) :
    (∃ st', opWrite env st = .ok st' ∧ st'.fcd.record = st.fcd.record) ↔ WriteKeeps env.pg st := by
  have opened₀ : (st.setKeyId 0).fcd.openMode ≠ 128 := opened
  unfold opWrite
  rw [if_neg opened]
  constructor
  · rintro ⟨st', wrote, same⟩
    obtain ⟨st₁, read, wrote⟩ := bind_eq_ok.mp wrote
    obtain ⟨cols, runs, leaves⟩ := opReadRandom_leaves mode opened₀ read
    refine ⟨cols, runs, ?_⟩
    split
    · rename_i row found
      obtain ⟨status, decoded⟩ := leaves.found row found
      rw [if_pos status] at wrote
      cases wrote
      have same : st₁.fcd.record = st.fcd.record := same
      rw [same] at decoded
      exact decoded
    · rename_i none
      rw [if_neg (leaves.missed none).1] at wrote
      obtain ⟨st₂, inserted, _⟩ := bind_eq_ok.mp wrote
      exact (insertRecord_after leaves none).mp ⟨st₂, inserted⟩
  · rintro ⟨cols, runs, answer⟩
    obtain ⟨st₁, read, leaves⟩ := opReadRandom_runs mode opened₀ runs
    dsimp only
    rw [read, ok_bind]
    split at answer
    · rename_i row found
      obtain ⟨status, decoded⟩ := leaves.found row found
      rw [if_pos status]
      refine ⟨_, rfl, ?_⟩
      exact Except.ok.inj (decoded.symm.trans answer)
    · rename_i none
      obtain ⟨status, record⟩ := leaves.missed none
      obtain ⟨st₂, inserted⟩ := (insertRecord_after leaves none).mpr answer
      rw [if_neg status, inserted, ok_bind]
      refine ⟨_, rfl, ?_⟩
      exact (insertRecord_fcd inserted).record.trans record

/-- A REWRITE of an open file comes back exactly under its condition. -/
theorem opRewrite_returns_iff {env : Env} {st : State} (mode : env.mode = .W)
    (opened : st.fcd.openMode ≠ 128) :
    (∃ result, opRewrite env st = .ok result) ↔ RewriteKeeps env.pg st := by
  have opened₀ : (st.resetScan.setKeyId 0).fcd.openMode ≠ 128 := opened
  -- the row that was read is updated with the record of the caller
  have after : ∀ {st₁ : State} {cols : List ℕ},
      ReadLeaves env.pg (st.resetScan.setKeyId 0) st₁ cols →
      ((∃ st₂, updateRecord env (st₁.setRecord st.fcd.record) = .ok st₂) ↔
        (st.tab.updPrepared = true ∨ setColumns st.tab.columns ≠ []) ∧
        Preparable st.tab.updPrepared (readAnswer env.pg (st.resetScan.setKeyId 0) cols).1
          st.tab.relation ∧
        Binds (rewriteParams st.tab) st.fcd.record st.tab.bufs.length) := by
    intro st₁ cols leaves
    have kept := leaves.kept
    rw [updateRecord_iff]
    change (st₁.tab.updPrepared = true ∨ setColumns st₁.tab.columns ≠ []) ∧
      Preparable st₁.tab.updPrepared st₁.conn st₁.tab.relation ∧
      Binds (rewriteParams st₁.tab) st.fcd.record st₁.tab.bufs.length ↔ _
    rw [leaves.conn, kept.updPrepared, kept.columns, kept.relation, kept.rewriteParams, kept.bufs]
    exact Iff.rfl
  unfold opRewrite
  rw [if_neg opened]
  constructor
  · rintro ⟨result, rewrote⟩
    obtain ⟨st₁, read, rewrote⟩ := bind_eq_ok.mp rewrote
    obtain ⟨cols, runs, leaves⟩ := opReadRandom_leaves mode opened₀ read
    refine ⟨cols, runs, fun row found => ?_⟩
    obtain ⟨status, decoded⟩ := leaves.found row found
    rw [if_neg (not_not.mpr status)] at rewrote
    by_cases same : st.fcd.record = st₁.fcd.record
    · left
      rw [← same] at decoded
      exact decoded
    · right
      rw [if_neg same] at rewrote
      obtain ⟨_, _, rewrote⟩ := bind_eq_ok.mp rewrote
      obtain ⟨st₂, updated, _⟩ := bind_eq_ok.mp rewrote
      exact (after leaves).mp ⟨st₂, updated⟩
  · rintro ⟨cols, runs, answer⟩
    obtain ⟨st₁, read, leaves⟩ := opReadRandom_runs mode opened₀ runs
    dsimp only
    rw [read, ok_bind]
    cases found : readRow env.pg (st.resetScan.setKeyId 0) cols with
    | none =>
        rw [if_pos (leaves.missed found).1]
        exact ⟨_, rfl⟩
    | some row =>
        obtain ⟨status, decoded⟩ := leaves.found row found
        rw [if_neg (not_not.mpr status)]
        by_cases same : st.fcd.record = st₁.fcd.record
        · rw [if_pos same]
          exact ⟨_, rfl⟩
        · rw [if_neg same]
          rcases answer row found with itself | updates
          · exact absurd (Except.ok.inj (itself.symm.trans decoded)) same
          · obtain ⟨kbuf, built⟩ := runs.built
            have built₁ : getkbuf st₁.tab 0 st.fcd.record = .ok kbuf := by
              unfold getkbuf at built ⊢
              simp only [leaves.kept.keys, leaves.kept.column]
              exact built
            obtain ⟨st₂, updated⟩ := (after leaves).mpr updates
            rw [built₁, ok_bind, updated, ok_bind]
            exact ⟨_, rfl⟩

/-- A DELETE keeps the record and the status when the table loses the row. -/
theorem opDelete_keeps_iff {env : Env} {st : State} (mode : env.mode = .W)
    (opened : st.fcd.openMode ≠ 128) :
    (∃ st', opDelete env st = .ok st' ∧ st'.fcd.record = st.fcd.record) ↔
      DeleteKeeps env.pg st := by
  have opened₀ : st.resetScan.fcd.openMode ≠ 128 := opened
  -- the row that was read is deleted by the key that the record area now has
  have after : ∀ {st₁ : State} {cols : List ℕ}, ReadLeaves env.pg st.resetScan st₁ cols →
      st₁.fcd.record = st.fcd.record →
      ((∃ st₂, deleteRecord env st₁ = .ok st₂) ↔
        Preparable st.tab.delPrepared (readAnswer env.pg st.resetScan cols).1 st.tab.relation ∧
        Binds (keyParams st.tab (whereColumns st.tab.keys 0)) st.fcd.record
            st.tab.bufs.length) := by
    intro st₁ cols leaves same
    have kept := leaves.kept
    rw [deleteRecord_iff, leaves.conn, kept.delPrepared, kept.relation, kept.keyParams, kept.keys,
      kept.bufs, same]
    exact Iff.rfl
  have builds : ∀ {st₁ : State} {cols : List ℕ}, ReadLeaves env.pg st.resetScan st₁ cols →
      getkbuf st₁.tab 0 st.fcd.record = getkbuf st.tab 0 st.fcd.record := by
    intro st₁ cols leaves
    unfold getkbuf
    simp only [leaves.kept.keys, leaves.kept.column]
    rfl
  unfold opDelete
  rw [if_neg opened]
  constructor
  · rintro ⟨st', deleted, same⟩
    obtain ⟨st₁, read, deleted⟩ := bind_eq_ok.mp deleted
    obtain ⟨cols, runs, leaves⟩ := opReadRandom_leaves mode opened₀ read
    refine ⟨cols, runs, fun row found => ?_⟩
    obtain ⟨status, decoded⟩ := leaves.found row found
    rw [if_neg (not_not.mpr status)] at deleted
    obtain ⟨kbuf, built, deleted⟩ := bind_eq_ok.mp deleted
    rw [(deleteRecord_fcd deleted).record] at same
    rw [same] at decoded built
    rw [builds leaves] at built
    exact ⟨decoded, ⟨kbuf, built⟩, (after leaves same).mp ⟨st', deleted⟩⟩
  · rintro ⟨cols, runs, answer⟩
    obtain ⟨st₁, read, leaves⟩ := opReadRandom_runs mode opened₀ runs
    rw [read, ok_bind]
    cases found : readRow env.pg st.resetScan cols with
    | none =>
        obtain ⟨status, record⟩ := leaves.missed found
        rw [if_pos status]
        exact ⟨_, rfl, record⟩
    | some row =>
        obtain ⟨status, decoded⟩ := leaves.found row found
        obtain ⟨itself, ⟨kbuf, built⟩, deletes⟩ := answer row found
        have same : st₁.fcd.record = st.fcd.record := Except.ok.inj (decoded.symm.trans itself)
        obtain ⟨st₂, deleted⟩ := (after leaves same).mpr deletes
        rw [if_neg (not_not.mpr status), same, builds leaves, built, ok_bind]
        exact ⟨st₂, deleted, (deleteRecord_fcd deleted).record.trans same⟩

end Pqfh
