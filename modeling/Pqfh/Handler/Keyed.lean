import Pqfh.Handler.RecordRows
import Pqfh.Handler.Returns
import Pqfh.Handler.ScanRuns

/-! # An open table as an indexed file

While a table stands for a list of records with distinct keys (`Pqfh.KeyedState`), each operation
of the handler returns, and does to the list what the operation of an indexed file does to its
records (`Pqfh.opReadRandom_keyed`, `Pqfh.opWrite_keyed`, `Pqfh.opRewrite_keyed`,
`Pqfh.opDelete_keyed`). The columns of the primary key must not have decimals, the flag `pk` must
mark them and no others, and no START may have probed the table as a weak one.
-/

namespace Pqfh

open KeyedStore

/-- A table that can be used as an indexed file. -/
structure KeyedTable (tab : Table) : Prop where
  laid : Contiguous 0 tab.columns
  few : tab.columns.length ≤ maxCols
  /-- The texts of the columns fit the rows of `tab->bufs`. -/
  short : ∀ col ∈ tab.columns, col.len + 1 < rowSize
  size : tab.bufs.length = maxCols * rowSize
  count : tab.keys.length ≤ maxKeys
  primary : 0 < tab.keys.length
  keys : ∀ key ∈ tab.keys, key ≠ [] ∧ key.length ≤ maxComps ∧
    (∀ i ∈ key, i < tab.columns.length) ∧
    (key.map fun i => (tab.column i).len).sum ≤ maxKeyLen
  once : (whereColumns tab.keys 0).Nodup
  flags : ∀ i < tab.columns.length, (tab.column i).pk = true ↔ i ∈ whereColumns tab.keys 0
  whole : ∀ i ∈ whereColumns tab.keys 0, (tab.column i).tp = .numeric → (tab.column i).dec = 0
  prepared : ∀ k cols, tab.readPrepared k = some cols → tab.keys[k]? = some cols

/-- A record that the table can keep: its fields are as a COBOL program fills them, a negative
number starts with the digit 0, and no number of the primary key is negative. -/
structure Storable (tab : Table) (record : List Byte) : Prop where
  wellFormed : RecordOk tab.columns record
  signs : ∀ col ∈ tab.columns, col.tp = .numeric → SignFits (slice record col.offset col.len)
  keyed : KeyOk tab 0 record

instance (tab : Table) (record : List Byte) : Decidable (Storable tab record) :=
  decidable_of_iff (RecordOk tab.columns record ∧
    (∀ col ∈ tab.columns, col.tp = .numeric → SignFits (slice record col.offset col.len)) ∧
    KeyOk tab 0 record)
    ⟨fun ⟨wellFormed, signs, keyed⟩ => ⟨wellFormed, signs, keyed⟩,
      fun ⟨wellFormed, signs, keyed⟩ => ⟨wellFormed, signs, keyed⟩⟩

/-- An open table whose rows stand for records with distinct primary keys. -/
structure KeyedState (st : State) (records : List (List Byte)) : Prop where
  table : KeyedTable st.tab
  opened : st.fcd.openMode ≠ 128
  room : totalLen st.tab.columns ≤ st.fcd.record.length
  running : st.conn.aborted = false
  present : st.conn.working st.tab.relation = some (records.map (rowOf st.tab.columns))
  recordOf : ∀ record ∈ records, RecordOf st.tab.columns record
  distinct : (records.map (st.tab.keyOf 0)).Nodup

/-- What can be stored depends on the columns and the keys alone. -/
theorem Storable.congr {tab tab' : Table} (columns : tab'.columns = tab.columns)
    (keys : tab'.keys = tab.keys) {record : List Byte} (storable : Storable tab record) :
    Storable tab' record where
  wellFormed := columns ▸ storable.wellFormed
  signs := columns ▸ storable.signs
  keyed := storable.keyed.congr columns keys

/-- A server that refuses no statement that leaves the rows of a table with distinct primary keys,
and no lock. -/
structure KeyedServer (pg : Postgres) (relation : ℕ) (keys : List (List ℕ)) : Prop where
  accepts : ∀ (statement : Statement) (db : Db) (rows : List Row),
    statement.relation = relation → db relation = some rows →
    ((statement.onRows rows).map (rowKey (whereColumns keys 0))).Nodup →
      pg.refuses statement db = false
  free : ∀ oid key, pg.tryLock oid key = true

/-- A table is scanned on where it was, but for a READ that was to be repeated. The keys for which
a START uses the cursor on are the same, or it is no longer used on. -/
structure Table.ScansOn (tab tab' : Table) : Prop where
  name : tab'.name = tab.name
  partialKey : tab'.partialKey = tab.partialKey
  cursor : tab'.cursor = tab.cursor
  handle : tab'.handle = tab.handle
  first : tab'.first = tab.first
  restart : tab.restart = none → tab'.restart = none
  marks : ∀ dir k, tab'.keyAt dir = some k → tab.keyAt dir = some k
  remembered : ∀ dir, tab'.bufAt dir = tab.bufAt dir

/-- A table that is left alone scans on. -/
theorem Table.ScansOn.refl (tab : Table) : tab.ScansOn tab where
  name := rfl
  partialKey := rfl
  cursor := rfl
  handle := rfl
  first := rfl
  restart := id
  marks := fun _ _ => id
  remembered := fun _ => rfl

/-- A table that scans on twice scans on. -/
theorem Table.ScansOn.trans {tab tab₁ tab' : Table} (first : tab.ScansOn tab₁)
    (second : tab₁.ScansOn tab') : tab.ScansOn tab' where
  name := second.name.trans first.name
  partialKey := second.partialKey.trans first.partialKey
  cursor := second.cursor.trans first.cursor
  handle := second.handle.trans first.handle
  first := second.first.trans first.first
  restart := second.restart ∘ first.restart
  marks := fun dir k mark => first.marks dir k (second.marks dir k mark)
  remembered := fun dir => (second.remembered dir).trans (first.remembered dir)

/-- A scan in progress goes on where it was. -/
structure ScansOn (st st' : State) : Prop extends st.tab.ScansOn st'.tab where
  eofStart : st'.eofStart = st.eofStart
  cursors : st'.conn.cursors = st.conn.cursors

/-- A state that scans on twice scans on. -/
theorem ScansOn.trans {st st₁ st' : State} (first : ScansOn st st₁) (second : ScansOn st₁ st') :
    ScansOn st st' where
  toScansOn := first.toScansOn.trans second.toScansOn
  eofStart := second.eofStart.trans first.eofStart
  cursors := second.cursors.trans first.cursors

/-- What an operation makes of the state: the table has other rows, and the fcd a status and a
record. -/
structure Moves (st st' : State) (status : Status) (area : List Byte) (rows : List Row) : Prop where
  columns : st'.tab.columns = st.tab.columns
  keys : st'.tab.keys = st.tab.keys
  relation : st'.tab.relation = st.tab.relation
  bufs : st'.tab.bufs.length = st.tab.bufs.length
  prepared : ∀ k cols, st'.tab.readPrepared k = some cols →
    st.tab.readPrepared k = some cols ∨ st.tab.keys[k]? = some cols
  scan : ScansOn st st'
  running : st'.conn.aborted = false
  working : st'.conn.working = Function.update st.conn.working st.tab.relation (some rows)
  fcd : st'.fcd = { st.fcd with status := status, record := area }

/-! ## The table -/

section Table

variable {tab : Table}

/-- The columns of a key are columns of the table. -/
theorem KeyedTable.positions (table : KeyedTable tab) {k i : ℕ}
    (member : i ∈ whereColumns tab.keys k) : i < tab.columns.length := by
  unfold whereColumns at member
  by_cases here : k < tab.keys.length
  · rw [List.getD_eq_getElem _ _ here] at member
    exact (table.keys _ (List.getElem_mem here)).2.2.1 i member
  · rw [List.getD_eq_default _ _ (not_lt.mp here)] at member
    cases member

/-- A key that the table has is one of columns, few enough to be sent. -/
theorem KeyedTable.key (table : KeyedTable tab) {k : ℕ} (known : k < tab.keys.length) :
    tab.keys[k]? = some (whereColumns tab.keys k) ∧ whereColumns tab.keys k ≠ [] ∧
      (whereColumns tab.keys k).length ≤ maxComps := by
  have here : whereColumns tab.keys k = tab.keys[k] := List.getD_eq_getElem _ _ known
  obtain ⟨nonempty, few, _⟩ := table.keys _ (List.getElem_mem known)
  rw [here]
  exact ⟨List.getElem?_eq_getElem known, nonempty, few⟩

/-- The texts of a key fit their buffers. -/
theorem KeyedTable.keyFits (table : KeyedTable tab) {k : ℕ} (known : k < tab.keys.length)
    {record : List Byte} (room : totalLen tab.columns ≤ record.length) :
    KeyFits tab record (whereColumns tab.keys k) where
  inside := fun i member =>
    table.laid.inside room (tab.column_mem (table.positions member))
  short := by
    have here : whereColumns tab.keys k = tab.keys[k] := List.getD_eq_getElem _ _ known
    rw [here]
    exact (table.keys _ (List.getElem_mem known)).2.2.2

/-- A table with the same columns and keys. -/
theorem KeyedTable.congr (table : KeyedTable tab) {tab' : Table}
    (columns : tab'.columns = tab.columns) (keys : tab'.keys = tab.keys)
    (bufs : tab'.bufs.length = tab.bufs.length)
    (prepared : ∀ k cols, tab'.readPrepared k = some cols →
      tab.readPrepared k = some cols ∨ tab.keys[k]? = some cols) : KeyedTable tab' := by
  have column := Table.column_congr columns
  exact
    { laid := by rw [columns]; exact table.laid
      few := by rw [columns]; exact table.few
      short := by rw [columns]; exact table.short
      size := by rw [bufs]; exact table.size
      count := by rw [keys]; exact table.count
      primary := by rw [keys]; exact table.primary
      keys := by
        rw [keys, columns, column]
        exact table.keys
      once := by rw [keys]; exact table.once
      flags := by
        rw [keys, columns, column]
        exact table.flags
      whole := by
        rw [keys, column]
        exact table.whole
      prepared := by
        intro k cols found
        rw [keys]
        rcases prepared k cols found with earlier | key
        · exact table.prepared k cols earlier
        · exact key }

/-- The primary key lies in the columns. -/
theorem KeyedTable.keyOf_take (table : KeyedTable tab) (record : List Byte) :
    tab.keyOf 0 (record.take (totalLen tab.columns)) = tab.keyOf 0 record :=
  Pqfh.keyOf_take table.laid (fun _ member => table.positions member) record

/-- A read is made by all the columns of its key. -/
theorem KeyedTable.readColumns (table : KeyedTable tab) {k : ℕ} (known : k < tab.keys.length) :
    readColumns tab k false = .ok (whereColumns tab.keys k) := by
  obtain ⟨key, nonempty, _⟩ := table.key known
  cases prepared : tab.readPrepared k with
  | some cols =>
      have same := table.prepared k cols prepared
      rw [key, Option.some_inj] at same
      rw [same]
      exact readColumns_some prepared
  | none =>
      rw [readColumns_none prepared]
      unfold randomColumns
      rw [key]
      obtain ⟨first, rest, shape⟩ := List.exists_cons_of_ne_nil nonempty
      rw [shape]

/-- The UPDATE sets the columns that do not belong to the primary key. -/
theorem KeyedTable.mem_setColumns (table : KeyedTable tab) {i : ℕ} :
    i ∈ setColumns tab.columns ↔ i < tab.columns.length ∧ i ∉ whereColumns tab.keys 0 := by
  unfold setColumns
  rw [List.mem_filter, List.mem_range]
  apply and_congr_right
  intro inside
  have flag := table.flags i inside
  rw [Table.getElem?_columns inside, Option.map_some, decide_eq_true_iff, Option.some_inj,
    ← flag, Bool.not_eq_true]

/-- The UPDATE has no more parameters than there are columns. -/
theorem KeyedTable.length_rewriteParams (table : KeyedTable tab) :
    (rewriteParams tab).length ≤ maxCols := by
  have both : (setColumns tab.columns ++ whereColumns tab.keys 0).Nodup := by
    apply List.Nodup.append (nodup_setColumns _) table.once
    exact fun i member among => (table.mem_setColumns.mp member).2 among
  have inside : setColumns tab.columns ++ whereColumns tab.keys 0 ⊆
      List.range tab.columns.length := by
    intro i member
    rw [List.mem_range]
    rcases List.mem_append.mp member with set | key
    · exact setColumns_lt set
    · exact table.positions key
  have count := (List.subperm_of_subset both inside).length_le
  rw [List.length_range, List.length_append] at count
  unfold rewriteParams
  rw [List.length_append, List.length_map, List.length_map]
  exact count.trans table.few

end Table

/-! ## Parameters -/

/-- Parameters whose texts fit their rows are received as they are. -/
theorem bindParams_fits {params : List Param} {record bufs : List Byte}
    (inside : ∀ param ∈ params, param.col.offset + param.col.len ≤ record.length)
    (few : params.length ≤ maxCols) (size : bufs.length = maxCols * rowSize)
    (fits : ∀ param ∈ params, let field := slice record param.col.offset param.col.len
      (param.row field).length ≤ rowSize ∧ (param.checked field).1.length < rowSize ∧
        (param.checked field).2 = false) :
    ∃ bufs', bufs'.length = bufs.length ∧ bindParams params record bufs =
      .ok (bufs', params.map fun param =>
        (param.checked (slice record param.col.offset param.col.len)).1) := by
  have room : ∀ i param, params[i]? = some param → i * rowSize +
      (param.row (slice record param.col.offset param.col.len)).length ≤ bufs.length := by
    intro i param present
    obtain ⟨before, rfl⟩ := List.getElem?_eq_some_iff.mp present
    have short := (fits _ (List.getElem_mem before)).1
    have last : (i + 1) * rowSize ≤ maxCols * rowSize :=
      Nat.mul_le_mul_right rowSize (before.trans_le few)
    rw [size]
    linarith
  obtain ⟨bufs', length, bound⟩ := bindParams_eq inside room
  have passing : params.any (fun param =>
      (param.checked (slice record param.col.offset param.col.len)).2) = false := by
    rw [List.any_eq_false]
    exact fun param member => Bool.eq_false_iff.mp (fits param member).2.2
  rw [passing, if_neg Bool.false_ne_true, runOn_eq_self] at bound
  · exact ⟨bufs', length, bound⟩
  · intro text member
    obtain ⟨param, among, rfl⟩ := List.mem_map.mp member
    exact (fits param among).2.1

/-- Texts that stand for values are assigned as these values. -/
theorem assignment_map {pg : Postgres} {tab : Table} {text : ℕ → List Byte} {value : ℕ → Value} :
    ∀ {cols : List ℕ} {later : List (List Byte)},
      (∀ i ∈ cols, pg.store (tab.column i) (text i) = some (value i)) →
      tab.assignment pg cols (cols.map text ++ later) = some (cols.map fun i => (i, value i))
  | [], _, _ => by
      unfold Table.assignment
      rw [List.zip_nil_left]
      rfl
  | i :: cols, later, stored => by
      have rest := @assignment_map pg tab text value cols later
        fun j member => stored j (List.mem_cons_of_mem _ member)
      unfold Table.assignment at rest ⊢
      rw [List.map_cons, List.cons_append, List.zip_cons_cons, List.mapM_cons,
        stored i List.mem_cons_self, rest]
      rfl

/-! ## What operations leave -/

section Moves

variable {st st₁ st' : State} {status status' : Status} {area area' : List Byte}
  {rows rows' : List Row}

/-- A column is what it was. -/
theorem Moves.column (moves : Moves st st' status area rows) (i : ℕ) :
    st'.tab.column i = st.tab.column i := by
  unfold Table.column
  rw [moves.columns]

/-- A table with keys keeps them. -/
theorem Moves.table (moves : Moves st st' status area rows) (table : KeyedTable st.tab) :
    KeyedTable st'.tab :=
  table.congr moves.columns moves.keys moves.bufs moves.prepared

/-- Two operations, one after the other, are one. -/
theorem Moves.trans (first : Moves st st₁ status area rows)
    (second : Moves st₁ st' status' area' rows') : Moves st st' status' area' rows' where
  columns := second.columns.trans first.columns
  keys := second.keys.trans first.keys
  relation := second.relation.trans first.relation
  bufs := second.bufs.trans first.bufs
  prepared := by
    intro k cols prepared
    rcases second.prepared k cols prepared with earlier | key
    · exact first.prepared k cols earlier
    · rw [first.keys] at key
      exact Or.inr key
  scan := first.scan.trans second.scan
  running := second.running
  working := by
    rw [second.working, first.working, first.relation]
    exact Function.update_idem ..
  fcd := by rw [second.fcd, first.fcd]

/-- A state that differs in the status of the fcd. -/
theorem Moves.setStatus (moves : Moves st st' status area rows) (status' : Status) :
    Moves st (st'.setStatus status') status' area rows :=
  { moves with
    scan := { moves.scan with }
    fcd := by
      change { st'.fcd with status := status' } = _
      rw [moves.fcd] }

/-- The record area may be set behind an operation. -/
theorem Moves.setRecord (moves : Moves st st' status area rows) (area' : List Byte) :
    Moves st (st'.setRecord area') status area' rows :=
  { moves with
    scan := { moves.scan with }
    fcd := by
      change { st'.fcd with record := area' } = _
      rw [moves.fcd] }

/-- An operation that reads by another key sets the key in use back. -/
theorem Moves.setKeyId {k : ℕ} (moves : Moves (st.setKeyId k) st' status area rows) :
    Moves st (st'.setKeyId st.fcd.keyId) status area rows :=
  { moves with
    scan := { moves.scan with }
    fcd := by
      change { st'.fcd with keyId := st.fcd.keyId } = _
      rw [moves.fcd]
      rfl }

/-- The scan may be reset before an operation. -/
theorem Moves.resetScan (moves : Moves st.resetScan st' status area rows) :
    Moves st st' status area rows :=
  { moves with
    scan :=
      { moves.scan with
        restart := fun _ => moves.scan.restart rfl
        marks := by
          intro dir k mark
          have gone := moves.scan.marks dir k mark
          cases dir <;> cases gone
        remembered := by
          intro dir
          have kept := moves.scan.remembered dir
          cases dir <;> exact kept } }

/-- The server keeps the keys as it did. -/
theorem Moves.server (moves : Moves st st' status area rows) {pg : Postgres}
    (server : KeyedServer pg st.tab.relation st.tab.keys) :
    KeyedServer pg st'.tab.relation st'.tab.keys := by
  rw [moves.relation, moves.keys]
  exact server

/-- The table stands for other records. -/
theorem KeyedState.moves {records records' : List (List Byte)} (keyed : KeyedState st records)
    (moves : Moves st st' status area (records'.map (rowOf st.tab.columns)))
    (room : totalLen st.tab.columns ≤ area.length)
    (recordOf : ∀ record ∈ records', RecordOf st.tab.columns record)
    (distinct : (records'.map (st.tab.keyOf 0)).Nodup) : KeyedState st' records' where
  table := moves.table keyed.table
  opened := by rw [moves.fcd]; exact keyed.opened
  room := by rw [moves.fcd, moves.columns]; exact room
  running := moves.running
  present := by rw [moves.working, moves.relation, moves.columns, Function.update_self]
  recordOf := by rw [moves.columns]; exact recordOf
  distinct := by
    have same : st'.tab.keyOf 0 = st.tab.keyOf 0 := keyOf_congr moves.columns moves.keys 0
    rw [same]
    exact distinct

end Moves

/-! ## READ -/

section Operations

variable {env : Env} {st : State} {records : List (List Byte)}

/-- The record under the key of the record area is found by the rows that a read selects. -/
theorem KeyedState.filter (keyed : KeyedState st records) {k : ℕ} {condition : Condition}
    (selects : ∀ record, RecordOf st.tab.columns record →
      meets condition (rowOf st.tab.columns record) =
        decide (st.tab.keyOf k record = st.tab.keyOf k st.fcd.record)) :
    ((records.map (rowOf st.tab.columns)).filter (meets condition)).head? =
      (ofList (st.tab.keyOf k) records (st.tab.keyOf k st.fcd.record)).map
        (rowOf st.tab.columns) := by
  rw [List.filter_map, List.head?_map]
  unfold ofList
  rw [← List.head?_filter]
  congr 2
  apply List.filter_congr
  intro record member
  exact selects record (keyed.recordOf record member)

/-- What READ looks for. -/
theorem KeyedState.denotes (keyed : KeyedState st records) (pg : Postgres) {k : ℕ}
    {record : List Byte} (room : totalLen st.tab.columns ≤ record.length)
    (probe : KeyOk st.tab k record) :
    Passes st.tab record (whereColumns st.tab.keys k) ∧
      ∀ i ∈ whereColumns st.tab.keys k,
        pg.denote (st.tab.column i) (keyTextOf st.tab record i) = some (fieldValue
          (st.tab.column i) (slice record (st.tab.column i).offset (st.tab.column i).len)) := by
  have each : ∀ i ∈ whereColumns st.tab.keys k, _ := fun i member =>
    key_denotes pg (probe i member).1 (length_slice (keyed.table.laid.inside room
      (st.tab.column_mem (keyed.table.positions member)))) (probe i member).2
  refine ⟨?_, ?_⟩
  · intro i member
    rw [chave_of_key member]
    exact (each i member).1
  · intro i member
    unfold keyTextOf
    rw [chave_of_key member]
    exact (each i member).2

/-- A released table scans on. -/
theorem released_scansOn (st : State) : ScansOn st st.released := by
  unfold State.released
  split <;> exact ⟨{ Table.ScansOn.refl st.tab with }, rfl, rfl⟩

/-- A statement is prepared for a READ beside the cursor of a scan. -/
theorem prepareRandom_scansOn {weak withLock : Bool} {kbuf : List Byte} {st' : State}
    {result : Option (List ℕ)}
    (prepared : prepareRandom env weak withLock kbuf st = .ok (result, st')) : ScansOn st st' := by
  cases prepareRandom_iff.mp prepared with
  | found found => exact ⟨{ Table.ScansOn.refl st.tab with }, rfl, rfl⟩
  | refused missing chosen asks busy => exact ⟨{ Table.ScansOn.refl st.tab with }, rfl, rfl⟩
  | prepared missing chosen granted done => exact ⟨{ Table.ScansOn.refl st.tab with }, rfl, rfl⟩

/-- What precedes the fetch of a READ. -/
theorem opReadRandom_keyed_fetch (withLock : Bool)
    (server : KeyedServer env.pg st.tab.relation st.tab.keys) (keyed : KeyedState st records)
    (known : st.fcd.keyId < st.tab.keys.length) :
    ∃ st₁, opReadRandom env false withLock st =
        fetchRandom env false (whereColumns st.tab.keys st.fcd.keyId) st₁ ∧
      Ready st st₁ ∧ Prepares false st st₁ ∧ ScansOn st st₁ := by
  have table := keyed.table
  obtain ⟨kbuf, built⟩ := getkbuf_returns (table.key known).1 (known.trans_le table.count)
    (table.keyFits known keyed.room)
  obtain ⟨st₁, prepared⟩ : ∃ st₁, prepareRandom env false withLock (cstr kbuf) st.released =
      .ok (some (whereColumns st.tab.keys st.fcd.keyId), st₁) := by
    have columns := table.readColumns known
    rw [← readColumns_released] at columns
    cases before : st.released.tab.readPrepared st.fcd.keyId with
    | some cols =>
        rw [readColumns_some before, Except.ok.injEq] at columns
        rw [← columns]
        exact ⟨_, prepareRandom_iff.mpr (.found (by rw [st.released_fcd]; exact before))⟩
    | none =>
        rw [readColumns_none before] at columns
        have done : st.released.conn.prepare st.released.tab.relation = .ok () := by
          rw [prepare_iff, st.released_conn, (kept_released st).relation, keyed.present]
          exact ⟨keyed.running, rfl⟩
        exact ⟨_, prepareRandom_iff.mpr (.prepared (by rw [st.released_fcd]; exact before)
          (by rw [st.released_fcd]; exact columns)
          (fun _ => ⟨by rw [st.released_conn]; exact keyed.running, server.free _ _⟩) done)⟩
  have before := prepareRandom_prepares prepared
  refine ⟨st₁, opReadRandom_eq_fetch keyed.opened built prepared,
    (ready_released st).prepared prepared, ⟨before.keys.trans (kept_released st).keys, ?_⟩,
    (released_scansOn st).trans (prepareRandom_scansOn prepared)⟩
  intro k cols found
  have chosen := before.prepared k cols found
  rw [st.released_readPrepared, st.released_fcd] at chosen
  rcases chosen with earlier | ⟨here, chosen⟩
  · exact Or.inl earlier
  · refine Or.inr ⟨here, ?_⟩
    unfold randomColumns at chosen ⊢
    rw [(kept_released st).keys] at chosen
    exact chosen

/-- A read leaves the rows. -/
theorem KeyedState.moves_read (keyed : KeyedState st records) {st₁ : State} {bufs : List Byte}
    (known : st.fcd.keyId < st.tab.keys.length) (ready : Ready st st₁)
    (statements : Prepares false st st₁) (scan : ScansOn st st₁)
    (length : bufs.length = st.tab.bufs.length) (fcd : Fcd) :
    Moves st { (st₁.setBufs bufs).setConn st.conn with
      fcd := { st.fcd with status := fcd.status, record := fcd.record } } fcd.status fcd.record
      (records.map (rowOf st.tab.columns)) where
  columns := ready.kept.columns
  keys := ready.kept.keys
  relation := ready.kept.relation
  bufs := length
  prepared := by
    intro k cols found
    rcases statements.prepared k cols found with earlier | ⟨rfl, chosen⟩
    · exact Or.inl earlier
    · rw [(keyed.table.key known).1, randomColumns_ok chosen]
      exact Or.inr rfl
  scan := ⟨{ scan.toScansOn with }, scan.eofStart, rfl⟩
  running := keyed.running
  working := by
    rw [← keyed.present, Function.update_eq_self]
    rfl
  fcd := rfl

/-- READ finds the record that has the key of the record area. -/
theorem opReadRandom_keyed (withLock : Bool)
    (server : KeyedServer env.pg st.tab.relation st.tab.keys) (keyed : KeyedState st records)
    (known : st.fcd.keyId < st.tab.keys.length)
    (probe : KeyOk st.tab st.fcd.keyId st.fcd.record) :
    ∃ st', opReadRandom env false withLock st = .ok st' ∧
      match ofList (st.tab.keyOf st.fcd.keyId) records
          (st.tab.keyOf st.fcd.keyId st.fcd.record) with
      | some record => Moves st st' stOk
          (record ++ st.fcd.record.drop (totalLen st.tab.columns))
          (records.map (rowOf st.tab.columns))
      | none => Moves st st' stRecNotFound st.fcd.record (records.map (rowOf st.tab.columns)) := by
  have table := keyed.table
  obtain ⟨st₁, fetch, ready, statements, scan⟩ :=
    opReadRandom_keyed_fetch withLock server keyed known
  have kept := ready.kept
  have fits := table.keyFits known keyed.room
  obtain ⟨passes, denotes⟩ := keyed.denotes env.pg keyed.room probe
  obtain ⟨bufs', length, bound⟩ := (bindParams_key fits (table.key known).2.2 table.size).1 passes
  obtain ⟨condition, denoted⟩ := exists_condition fun i member => ⟨_, denotes i member⟩
  have head := keyed.filter fun record recordOf =>
    meets_rowOf table.laid (fun i member => table.positions member) keyed.room probe denotes denoted
      recordOf
  have bound₁ : bindParams (keyParams st₁.tab (whereColumns st.tab.keys st.fcd.keyId))
      st₁.fcd.record st₁.tab.bufs = .ok (bufs', (whereColumns st.tab.keys st.fcd.keyId).map
        (keyTextOf st.tab st.fcd.record)) := by
    rw [kept.keyParams, ready.fcd, ready.bufs, bound]
  have selected : st₁.conn.select st₁.tab.relation (st₁.tab.condition env.pg
      (whereColumns st.tab.keys st.fcd.keyId) ((whereColumns st.tab.keys st.fcd.keyId).map
        (keyTextOf st.tab st.fcd.record))) = (st.conn,
      some ((records.map (rowOf st.tab.columns)).filter (meets condition))) := by
    rw [kept.condition, denoted, ready.conn, kept.relation]
    unfold Conn.select
    simp only [keyed.running, Bool.false_eq_true, ↓reduceIte, keyed.present]
  have moves := fun fcd => keyed.moves_read known ready statements scan length fcd
  rw [fetch, fetchRandom_eq env false bound₁, selected]
  cases rows : (records.map (rowOf st.tab.columns)).filter (meets condition) with
  | nil =>
      rw [rows, List.head?_nil] at head
      rw [Option.map_eq_none_iff.mp head.symm]
      refine ⟨_, rfl, ?_⟩
      have read := moves { st.fcd with status := stRecNotFound }
      rw [← ready.fcd] at read ⊢
      exact read
  | cons row rest =>
      rw [rows, List.head?_cons] at head
      obtain ⟨record, found, rfl⟩ := Option.map_eq_some_iff.mp head.symm
      rw [found]
      have decoded : pq2cob st₁.tab.columns (rowOf st.tab.columns record) st₁.fcd.record =
          .ok (record ++ st.fcd.record.drop (totalLen st.tab.columns)) := by
        rw [kept.columns, ready.fcd]
        exact pq2cob_rowOf (keyed.recordOf record (mem_of_ofList found).1) table.laid keyed.room
      refine ⟨_, bind_eq_ok.mpr ⟨_, decoded, rfl⟩, ?_⟩
      have read := moves { st.fcd with
        status := stOk, record := record ++ st.fcd.record.drop (totalLen st.tab.columns) }
      rw [← ready.fcd] at read ⊢
      exact read

/-! ## WRITE -/

/-- The number of the key changes no record. -/
theorem KeyedState.setKeyId (keyed : KeyedState st records) (k : ℕ) :
    KeyedState (st.setKeyId k) records := { keyed with }

/-- Resetting the scan changes no record. -/
theorem KeyedState.resetScan (keyed : KeyedState st records) : KeyedState st.resetScan records :=
  { keyed with table := { keyed.table with } }

/-- Rows of records with distinct keys have distinct keys. -/
theorem KeyedTable.nodup_rowKeys {tab : Table} (table : KeyedTable tab)
    {records : List (List Byte)} (recordOf : ∀ record ∈ records, RecordOf tab.columns record)
    (distinct : (records.map (tab.keyOf 0)).Nodup) :
    ((records.map (rowOf tab.columns)).map (rowKey (whereColumns tab.keys 0))).Nodup := by
  rw [List.map_map]
  apply List.Nodup.map_on _ (List.Nodup.of_map _ distinct)
  intro record member record' member' same
  apply List.inj_on_of_nodup_map distinct member member'
  have recordOf₁ := recordOf record member
  have recordOf₂ := recordOf record' member'
  rw [keyOf_eq_iff table.laid (fun i among => table.positions among) recordOf₁.full.ge
    recordOf₂.full.ge]
  intro i among
  have column := tab.column_mem (table.positions among)
  have values := List.map_inj_left.mp same i among
  have present : ∀ other : List Byte, (rowOf tab.columns other).getD i .null =
      fieldValue (tab.column i) (slice other (tab.column i).offset (tab.column i).len) := by
    intro other
    rw [List.getD_eq_getElem?_getD, getElem?_rowOf,
      Table.getElem?_columns (table.positions among)]
    rfl
  rw [present, present] at values
  exact fieldValue_inj (recordOf₁.wellFormed _ column) (recordOf₁.slice_full table.laid column)
    (recordOf₂.wellFormed _ column) (recordOf₂.slice_full table.laid column)
    (Prod.mk.inj values).2

/-- The parameter of a column that is inserted or set. -/
theorem KeyedState.write_param (keyed : KeyedState st records) (pg : Postgres)
    {record : List Byte} (room : totalLen st.tab.columns ≤ record.length)
    (storable : Storable st.tab record) (chave : Bool) (i : ℕ)
    (inside : i < st.tab.columns.length) :
    let col := st.tab.column i
    let field := slice record col.offset col.len
    ((Param.write col chave).row field).length ≤ rowSize ∧
      (Param.write col chave).checked field = (writeChars col field, false) ∧
      (writeChars col field).length < rowSize ∧
      pg.store col (writeChars col field) = some (fieldValue col field) := by
  have member := st.tab.column_mem inside
  have full := length_slice (keyed.table.laid.inside room member)
  have wellFormed := storable.wellFormed _ member
  have short := keyed.table.short _ member
  have length := length_writeChars full
  have row := (Param.write (st.tab.column i) chave).length_row_le
    (slice record (st.tab.column i).offset (st.tab.column i).len)
  have block : ((Param.write (st.tab.column i) chave).block (Param.write (st.tab.column i)
      chave).col (slice record (st.tab.column i).offset (st.tab.column i).len)).length =
      (writeChars (st.tab.column i) (slice record (st.tab.column i).offset
        (st.tab.column i).len)).length + 1 := List.length_append
  have few : (writeChars (st.tab.column i) (slice record (st.tab.column i).offset
      (st.tab.column i).len)).length < rowSize := by
    rw [length]
    split <;> omega
  refine ⟨?_, (checked_write chave wellFormed full).1, few,
    (store_writeChars_iff wellFormed full).mpr (storable.signs _ member)⟩
  rw [block] at row
  unfold rowSize at few ⊢
  omega

/-- A statement that the server accepts is executed. -/
theorem KeyedState.exec (keyed : KeyedState st records) {pg : Postgres}
    (server : KeyedServer pg st.tab.relation st.tab.keys) {statement : Statement}
    (relation : statement.relation = st.tab.relation) {records' : List (List Byte)}
    (leaves : statement.onRows (records.map (rowOf st.tab.columns)) =
      records'.map (rowOf st.tab.columns))
    (recordOf : ∀ record ∈ records', RecordOf st.tab.columns record)
    (distinct : (records'.map (st.tab.keyOf 0)).Nodup) :
    st.conn.exec pg (some statement) = ({ st.conn with
      working := Function.update st.conn.working st.tab.relation
        (some (records'.map (rowOf st.tab.columns))) }, true) := by
  have applied : statement.apply st.conn.working = some (Function.update st.conn.working
      st.tab.relation (some (records'.map (rowOf st.tab.columns)))) := by
    unfold Statement.apply
    rw [relation, keyed.present, Option.map_some, leaves]
  have accepted := server.accepts statement st.conn.working _ relation keyed.present
    (by rw [leaves]; exact keyed.table.nodup_rowKeys recordOf distinct)
  unfold Conn.exec
  simp only [keyed.running, Bool.false_eq_true, ↓reduceIte, applied, accepted]

/-- The table is there to be prepared for. -/
theorem KeyedState.prepare (keyed : KeyedState st records) :
    st.conn.prepare st.tab.relation = .ok () := by
  rw [prepare_iff, keyed.present]
  exact ⟨keyed.running, rfl⟩

/-- A statement that can be prepared is prepared, or was. -/
theorem guard_done {flag : Bool} {check : Except Stop Unit} {α : Type}
    (rest : Unit → Except Stop α) (done : check = .ok ()) :
    (if flag = true then check >>= rest else rest ()) = rest () := by
  rw [done]
  split <;> rfl

/-- What a statement that was executed leaves. -/
theorem KeyedState.moves_executed (keyed : KeyedState st records) {bufs : List Byte}
    (length : bufs.length = st.tab.bufs.length) (rows : List Row) (status : Status)
    (insPrepared updPrepared delPrepared : Bool) (pendingCommits : ℕ) :
    let executed := (st.setBufs bufs).setConn { st.conn with
      working := Function.update st.conn.working st.tab.relation (some rows) }
    Moves st { executed.setStatus status with
      tab := { executed.tab with
        insPrepared := insPrepared, updPrepared := updPrepared, delPrepared := delPrepared }
      pendingCommits := pendingCommits } status st.fcd.record rows where
  columns := rfl
  keys := rfl
  relation := rfl
  bufs := length
  prepared := fun _ _ found => Or.inl found
  scan := ⟨{ Table.ScansOn.refl st.tab with }, rfl, rfl⟩
  running := keyed.running
  working := rfl
  fcd := rfl

/-- The record is inserted. -/
theorem insertRecord_keyed (server : KeyedServer env.pg st.tab.relation st.tab.keys)
    (keyed : KeyedState st records) (storable : Storable st.tab st.fcd.record)
    (absent : ofList (st.tab.keyOf 0) records (st.tab.keyOf 0 st.fcd.record) = none) :
    ∃ st', insertRecord env st = .ok st' ∧ Moves st st' stOk st.fcd.record
      ((records ++ [st.fcd.record.take (totalLen st.tab.columns)]).map
        (rowOf st.tab.columns)) := by
  have table := keyed.table
  have param := fun i => keyed.write_param env.pg keyed.room storable (st.tab.chave i) i
  obtain ⟨bufs', length, bound⟩ := @bindParams_fits (writeParams st.tab) st.fcd.record st.tab.bufs
    (by
      intro param member
      obtain ⟨i, among, rfl⟩ := List.mem_map.mp member
      exact table.laid.inside keyed.room (st.tab.column_mem (List.mem_range.mp among)))
    (by
      unfold writeParams
      rw [List.length_map, List.length_range]
      exact table.few)
    table.size
    (by
      intro other member
      obtain ⟨i, among, rfl⟩ := List.mem_map.mp member
      obtain ⟨row, checked, short, _⟩ := param i (List.mem_range.mp among)
      refine ⟨row, ?_, ?_⟩
      · exact checked ▸ short
      · exact checked ▸ rfl)
  have texts : (writeParams st.tab).map (fun param =>
      (param.checked (slice st.fcd.record param.col.offset param.col.len)).1) =
      (List.range st.tab.columns.length).map (fun i => writeChars (st.tab.column i)
        (slice st.fcd.record (st.tab.column i).offset (st.tab.column i).len)) ++ [] := by
    unfold writeParams
    rw [List.append_nil, List.map_map]
    apply List.map_congr_left
    intro i member
    exact congrArg Prod.fst (param i (List.mem_range.mp member)).2.1
  have assigned := @assignment_map env.pg st.tab _ _ (List.range st.tab.columns.length) []
    fun i member => (param i (List.mem_range.mp member)).2.2.2
  have row : ((List.range st.tab.columns.length).map fun i => (i, fieldValue (st.tab.column i)
      (slice st.fcd.record (st.tab.column i).offset (st.tab.column i).len))).map Prod.snd =
      rowOf st.tab.columns (st.fcd.record.take (totalLen st.tab.columns)) := by
    rw [rowOf_take table.laid, List.map_map]
    unfold rowOf
    conv_rhs => rw [← st.tab.map_column, List.map_map]
    rfl
  have new := storable.wellFormed.take table.laid keyed.room
  have key := table.keyOf_take st.fcd.record
  rw [← key] at absent
  have leaves : (Statement.insert st.tab.relation (rowOf st.tab.columns (st.fcd.record.take
      (totalLen st.tab.columns)))).onRows (records.map (rowOf st.tab.columns)) =
      (records ++ [st.fcd.record.take (totalLen st.tab.columns)]).map (rowOf st.tab.columns) := by
    rw [List.map_append]
    rfl
  have executed := keyed.exec server rfl leaves
    (by
      intro record member
      rcases List.mem_append.mp member with old | added
      · exact keyed.recordOf record old
      · rw [List.mem_singleton.mp added]
        exact new)
    (nodup_append _ keyed.distinct absent)
  refine ⟨_, ?_, keyed.moves_executed length _ stOk true st.tab.updPrepared st.tab.delPrepared
    (st.pendingCommits + 1)⟩
  unfold insertRecord
  rw [guard_done _ keyed.prepare, bound, ok_bind]
  dsimp only
  rw [texts, assigned, Option.map_some, row, Option.map_some, executed]
  rfl

/-- WRITE adds the record to the table, unless there is one with its key. -/
theorem opWrite_keyed (server : KeyedServer env.pg st.tab.relation st.tab.keys)
    (keyed : KeyedState st records) (storable : Storable st.tab st.fcd.record) :
    ∃ st', opWrite env st = .ok st' ∧
      match ofList (st.tab.keyOf 0) records (st.tab.keyOf 0 st.fcd.record) with
      | some record => Moves st st' stDuplKey
          (record ++ st.fcd.record.drop (totalLen st.tab.columns))
          (records.map (rowOf st.tab.columns))
      | none => Moves st st' stOk st.fcd.record
          ((records ++ [st.fcd.record.take (totalLen st.tab.columns)]).map
            (rowOf st.tab.columns)) := by
  have primary : (st.setKeyId 0).fcd.keyId < st.tab.keys.length := keyed.table.primary
  obtain ⟨st₁, read, found⟩ := @opReadRandom_keyed env (st.setKeyId 0) records false server
    (keyed.setKeyId 0) primary storable.keyed
  unfold opWrite
  rw [if_neg keyed.opened]
  dsimp only
  rw [read, ok_bind]
  change match ofList (st.tab.keyOf 0) records (st.tab.keyOf 0 st.fcd.record) with
    | some record => Moves (st.setKeyId 0) st₁ stOk
        (record ++ st.fcd.record.drop (totalLen st.tab.columns)) _
    | none => Moves (st.setKeyId 0) st₁ stRecNotFound st.fcd.record _ at found
  cases stored : ofList (st.tab.keyOf 0) records (st.tab.keyOf 0 st.fcd.record) with
  | some record =>
      rw [stored] at found
      rw [if_pos (by rw [found.fcd])]
      exact ⟨_, rfl, (found.setStatus stDuplKey).setKeyId⟩
  | none =>
      rw [stored] at found
      have missed : ¬ st₁.fcd.status = stOk := by
        rw [found.fcd]
        exact (by decide : stRecNotFound ≠ stOk)
      rw [if_neg missed]
      have keyed₁ := (keyed.setKeyId 0).moves found keyed.room keyed.recordOf keyed.distinct
      have area : st₁.fcd.record = st.fcd.record := by rw [found.fcd]
      have absent : ofList (st₁.tab.keyOf 0) records (st₁.tab.keyOf 0 st₁.fcd.record) = none := by
        have same : st₁.tab.keyOf 0 = st.tab.keyOf 0 := keyOf_congr found.columns found.keys 0
        rw [same, area]
        exact stored
      obtain ⟨st₂, inserted, moves⟩ := insertRecord_keyed (found.server server) keyed₁
        (by rw [area]; exact storable.congr found.columns found.keys) absent
      rw [area, found.columns] at moves
      rw [inserted]
      exact ⟨_, rfl, (found.trans moves).setKeyId⟩

/-! ## REWRITE -/

/-- The columns set and those of the key make the row of the record. -/
theorem KeyedTable.setRow_rowOf {tab : Table} (table : KeyedTable tab) {record stored : List Byte}
    (room : totalLen tab.columns ≤ record.length) (recordOf : RecordOf tab.columns stored)
    (same : tab.keyOf 0 stored = tab.keyOf 0 record) :
    setRow ((setColumns tab.columns).map fun i => (i, fieldValue (tab.column i)
      (slice record (tab.column i).offset (tab.column i).len))) (rowOf tab.columns stored) =
      rowOf tab.columns record := by
  rw [keyOf_eq_iff table.laid (fun i among => table.positions among) recordOf.full.ge room] at same
  have positions : ((setColumns tab.columns).map fun i => (i, fieldValue (tab.column i)
      (slice record (tab.column i).offset (tab.column i).len))).map Prod.fst =
      setColumns tab.columns := by
    rw [List.map_map]
    exact List.map_id _
  apply List.ext_getElem?
  intro i
  by_cases inside : i < tab.columns.length
  · rw [getElem?_rowOf, Table.getElem?_columns inside, Option.map_some]
    by_cases set : i ∈ setColumns tab.columns
    · apply getElem?_setRow_of_mem
      · rw [positions]
        exact nodup_setColumns _
      · rw [length_rowOf]
        exact inside
      · exact List.mem_map_of_mem set
    · have key : i ∈ whereColumns tab.keys 0 := by
        by_contra other
        exact set (table.mem_setColumns.mpr ⟨inside, other⟩)
      rw [getElem?_setRow_of_notMem _ (by rw [positions]; exact set), getElem?_rowOf,
        Table.getElem?_columns inside, Option.map_some, same i key]
  · rw [List.getElem?_eq_none (by rw [length_setRow, length_rowOf]; exact not_lt.mp inside),
      List.getElem?_eq_none (by rw [length_rowOf]; exact not_lt.mp inside)]

/-- REWRITE looks for the values of READ. -/
theorem KeyedState.rewrite_param (keyed : KeyedState st records) {record : List Byte}
    (room : totalLen st.tab.columns ≤ record.length) (probe : KeyOk st.tab 0 record) {i : ℕ}
    (member : i ∈ whereColumns st.tab.keys 0) :
    let col := st.tab.column i
    let field := slice record col.offset col.len
    ((Param.rewrite col (st.tab.chave i)).row field).length ≤ rowSize ∧
      ((Param.rewrite col (st.tab.chave i)).checked field).1 = keyTextOf st.tab record i ∧
      ((Param.rewrite col (st.tab.chave i)).checked field).2 = false ∧
      (keyTextOf st.tab record i).length < rowSize := by
  have table := keyed.table
  have column := st.tab.column_mem (table.positions member)
  have inside := table.laid.inside room column
  have full := length_slice inside
  have short := table.short _ column
  have positive := (st.tab.column i).len_pos
  have passes := (keyed.denotes (plainServer.pg) room probe).1 i member
  have row := (Param.rewrite (st.tab.column i) (st.tab.chave i)).length_row_le
    (slice record (st.tab.column i).offset (st.tab.column i).len)
  have block : ((Param.rewrite (st.tab.column i) (st.tab.chave i)).block (Param.rewrite
      (st.tab.column i) (st.tab.chave i)).col (slice record (st.tab.column i).offset
        (st.tab.column i).len)).length = (st.tab.column i).len + 1 := by
    have total : (slice record (st.tab.column i).offset (st.tab.column i).len ++ [0]).length =
        (slice record (st.tab.column i).offset (st.tab.column i).len).length + 1 :=
      List.length_append
    rw [full] at total
    exact total
  have text := length_keyTextOf_le inside
  have same := checked_rewrite_eq (probe i member).1 full (probe i member).2 (table.whole i member)
  rw [chave_of_key member] at passes
  unfold keyTextOf at text ⊢
  rw [chave_of_key member] at text ⊢
  dsimp only
  rw [same]
  refine ⟨?_, rfl, passes, by omega⟩
  rw [block, chave_of_key member] at row
  unfold rowSize at short ⊢
  omega

/-- The row with the key of the record is updated. -/
theorem updateRecord_keyed (server : KeyedServer env.pg st.tab.relation st.tab.keys)
    (keyed : KeyedState st records) (storable : Storable st.tab st.fcd.record)
    (sets : setColumns st.tab.columns ≠ []) :
    ∃ st', updateRecord env st = .ok st' ∧ Moves st st' stOk st.fcd.record
      ((replace (st.tab.keyOf 0) (st.fcd.record.take (totalLen st.tab.columns)) records).map
        (rowOf st.tab.columns)) := by
  have table := keyed.table
  have set := fun i (member : i ∈ setColumns st.tab.columns) =>
    keyed.write_param env.pg keyed.room storable (st.tab.chave i) i (setColumns_lt member)
  have key := fun i (member : i ∈ whereColumns st.tab.keys 0) =>
    keyed.rewrite_param keyed.room storable.keyed member
  obtain ⟨bufs', length, bound⟩ := @bindParams_fits (rewriteParams st.tab) st.fcd.record
    st.tab.bufs
    (by
      intro param member
      rcases List.mem_append.mp member with written | looked
      · obtain ⟨i, among, rfl⟩ := List.mem_map.mp written
        exact table.laid.inside keyed.room (st.tab.column_mem (setColumns_lt among))
      · obtain ⟨i, among, rfl⟩ := List.mem_map.mp looked
        exact table.laid.inside keyed.room (st.tab.column_mem (table.positions among)))
    table.length_rewriteParams table.size
    (by
      intro other member
      rcases List.mem_append.mp member with written | looked
      · obtain ⟨i, among, rfl⟩ := List.mem_map.mp written
        obtain ⟨row, checked, short, _⟩ := set i among
        exact ⟨row, checked ▸ short, checked ▸ rfl⟩
      · obtain ⟨i, among, rfl⟩ := List.mem_map.mp looked
        obtain ⟨row, text, passes, short⟩ := key i among
        exact ⟨row, text ▸ short, passes⟩)
  have texts : (rewriteParams st.tab).map (fun param =>
      (param.checked (slice st.fcd.record param.col.offset param.col.len)).1) =
      (setColumns st.tab.columns).map (fun i => writeChars (st.tab.column i)
        (slice st.fcd.record (st.tab.column i).offset (st.tab.column i).len)) ++
      (whereColumns st.tab.keys 0).map (keyTextOf st.tab st.fcd.record) := by
    unfold rewriteParams
    rw [List.map_append, List.map_map, List.map_map]
    congr 1
    · apply List.map_congr_left
      exact fun i member => congrArg Prod.fst (set i member).2.1
    · apply List.map_congr_left
      exact fun i member => (key i member).2.1
  obtain ⟨_, denotes⟩ := keyed.denotes env.pg keyed.room storable.keyed
  obtain ⟨condition, denoted⟩ := exists_condition fun i member => ⟨_, denotes i member⟩
  have statement : updateStatement env.pg st.tab ((setColumns st.tab.columns).map (fun i =>
      writeChars (st.tab.column i) (slice st.fcd.record (st.tab.column i).offset
        (st.tab.column i).len)) ++
      (whereColumns st.tab.keys 0).map (keyTextOf st.tab st.fcd.record)) =
      some (.update st.tab.relation ((setColumns st.tab.columns).map fun i =>
        (i, fieldValue (st.tab.column i) (slice st.fcd.record (st.tab.column i).offset
          (st.tab.column i).len))) condition) := by
    unfold updateStatement
    dsimp only
    rw [assignment_map fun i member => (set i member).2.2.2, List.drop_left' (List.length_map _),
      denoted]
  have new := storable.wellFormed.take table.laid keyed.room
  have same := table.keyOf_take st.fcd.record
  have leaves : (Statement.update st.tab.relation ((setColumns st.tab.columns).map fun i =>
        (i, fieldValue (st.tab.column i) (slice st.fcd.record (st.tab.column i).offset
          (st.tab.column i).len))) condition).onRows (records.map (rowOf st.tab.columns)) =
      (replace (st.tab.keyOf 0) (st.fcd.record.take (totalLen st.tab.columns)) records).map
        (rowOf st.tab.columns) := by
    unfold replace
    change (records.map (rowOf st.tab.columns)).map _ = _
    rw [List.map_map, List.map_map]
    apply List.map_congr_left
    intro record member
    have recordOf := keyed.recordOf record member
    have meets := meets_rowOf table.laid (fun i member => table.positions member) keyed.room
      storable.keyed denotes denoted recordOf
    rw [Function.comp_apply, Function.comp_apply, meets, same]
    by_cases here : st.tab.keyOf 0 record = st.tab.keyOf 0 st.fcd.record
    · rw [if_pos (decide_eq_true here), if_pos here, rowOf_take table.laid]
      exact table.setRow_rowOf keyed.room recordOf here
    · rw [if_neg (by rw [decide_eq_true_iff]; exact here), if_neg here]
  have executed := keyed.exec server rfl leaves
    (by
      intro record member
      rcases mem_replace member with rfl | old
      · exact new
      · exact keyed.recordOf record old)
    (by rw [map_key_replace]; exact keyed.distinct)
  refine ⟨_, ?_, keyed.moves_executed length _ stOk st.tab.insPrepared true st.tab.delPrepared
    (st.pendingCommits + 1)⟩
  have prepared : prepareUpdate st = .ok () := by
    unfold prepareUpdate
    rw [if_neg sets, keyed.prepare]
  unfold updateRecord
  rw [guard_done _ prepared, bound, ok_bind]
  dsimp only
  rw [texts, statement, executed]
  rfl

/-- Two records that differ with one key differ in a column that the UPDATE sets. -/
theorem KeyedTable.sets_of_ne {tab : Table} (table : KeyedTable tab) {record stored : List Byte}
    (room : totalLen tab.columns ≤ record.length) (recordOf : RecordOf tab.columns stored)
    (key : tab.keyOf 0 stored = tab.keyOf 0 record)
    (different : record.take (totalLen tab.columns) ≠ stored) : setColumns tab.columns ≠ [] := by
  rw [keyOf_eq_iff table.laid (fun i among => table.positions among) recordOf.full.ge room] at key
  intro none
  apply different
  rw [← List.take_of_length_le recordOf.full.le]
  apply table.laid.ext
  intro col among
  obtain ⟨i, inside, rfl⟩ := List.getElem_of_mem among
  have here : tab.columns[i] = tab.column i := (List.getD_eq_getElem _ _ inside).symm
  have pk : i ∈ whereColumns tab.keys 0 := by
    by_contra other
    have set := table.mem_setColumns.mpr ⟨inside, other⟩
    rw [none] at set
    cases set
  rw [here]
  exact (key i pk).symm

/-- REWRITE puts the record in the place of the one with its key. -/
theorem opRewrite_keyed (server : KeyedServer env.pg st.tab.relation st.tab.keys)
    (keyed : KeyedState st records) (storable : Storable st.tab st.fcd.record) :
    ∃ done st', opRewrite env st = .ok (done, st') ∧
      match ofList (st.tab.keyOf 0) records (st.tab.keyOf 0 st.fcd.record) with
      | some _ => done = true ∧ Moves st st' stOk st.fcd.record
          ((replace (st.tab.keyOf 0) (st.fcd.record.take (totalLen st.tab.columns)) records).map
            (rowOf st.tab.columns))
      | none => done = false ∧ Moves st st' stRecNotFound st.fcd.record
          (records.map (rowOf st.tab.columns)) := by
  have table := keyed.table
  have primary : (st.resetScan.setKeyId 0).fcd.keyId < st.tab.keys.length := table.primary
  have keyed₀ := keyed.resetScan.setKeyId 0
  obtain ⟨st₁, read, found⟩ := @opReadRandom_keyed env (st.resetScan.setKeyId 0) records false
    server keyed₀ primary storable.keyed
  unfold opRewrite
  rw [if_neg keyed.opened]
  dsimp only
  rw [read, ok_bind]
  change match ofList (st.tab.keyOf 0) records (st.tab.keyOf 0 st.fcd.record) with
    | some record => Moves (st.resetScan.setKeyId 0) st₁ stOk
        (record ++ st.fcd.record.drop (totalLen st.tab.columns)) _
    | none => Moves (st.resetScan.setKeyId 0) st₁ stRecNotFound st.fcd.record _ at found
  cases stored : ofList (st.tab.keyOf 0) records (st.tab.keyOf 0 st.fcd.record) with
  | none =>
      rw [stored] at found
      have missed : st₁.fcd.status ≠ stOk := by
        rw [found.fcd]
        exact (by decide : stRecNotFound ≠ stOk)
      rw [if_pos missed]
      exact ⟨_, _, rfl, rfl, found.setKeyId.resetScan⟩
  | some record =>
      rw [stored] at found
      obtain ⟨member, key⟩ := mem_of_ofList stored
      have recordOf := keyed.recordOf record member
      have area : st₁.fcd.record = record ++ st.fcd.record.drop (totalLen st.tab.columns) := by
        rw [found.fcd]
      have front : st.fcd.record = record ++ st.fcd.record.drop (totalLen st.tab.columns) ↔
          st.fcd.record.take (totalLen st.tab.columns) = record := by
        conv_lhs => lhs; rw [← List.take_append_drop (totalLen st.tab.columns) st.fcd.record]
        exact List.append_left_inj _
      rw [if_neg (by rw [found.fcd]; exact fun other => other rfl), area]
      by_cases same : st.fcd.record.take (totalLen st.tab.columns) = record
      · rw [if_pos (front.mpr same), same, replace_self keyed.distinct member]
        refine ⟨_, _, rfl, rfl, ?_⟩
        have moves := (found.setStatus stOk).setKeyId.resetScan
        rw [← front.mpr same] at moves
        exact moves
      · rw [if_neg (mt front.mp same)]
        have moves₁ := found.setRecord st.fcd.record
        have keyed₁ := keyed₀.moves moves₁ keyed.room keyed.recordOf keyed.distinct
        obtain ⟨kbuf, built⟩ := @getkbuf_returns st₁.tab st.fcd.record 0 _
          (by rw [found.keys]; exact (table.key table.primary).1) (by decide)
          (by
            have fits := table.keyFits table.primary keyed.room
            exact ⟨by simp only [found.column]; exact fits.inside,
              by simp only [found.column]; exact fits.short⟩)
        obtain ⟨st₂, updated, moves⟩ := updateRecord_keyed (moves₁.server server) keyed₁
          (@Storable.congr st.tab _ moves₁.columns moves₁.keys _ storable) (by
            rw [moves₁.columns]
            exact table.sets_of_ne keyed.room recordOf key same)
        rw [built, ok_bind, updated]
        have keys : (st₁.setRecord st.fcd.record).tab.keyOf 0 = st.tab.keyOf 0 :=
          keyOf_congr moves₁.columns moves₁.keys 0
        rw [moves₁.columns, keys] at moves
        exact ⟨_, _, rfl, rfl, (moves₁.trans moves).setKeyId.resetScan⟩

/-! ## DELETE -/

/-- The row with the key of the record area is deleted. -/
theorem deleteRecord_keyed (server : KeyedServer env.pg st.tab.relation st.tab.keys)
    (keyed : KeyedState st records) (probe : KeyOk st.tab 0 st.fcd.record) :
    ∃ st', deleteRecord env st = .ok st' ∧ Moves st st' stOk st.fcd.record
      ((remove (st.tab.keyOf 0) (st.tab.keyOf 0 st.fcd.record) records).map
        (rowOf st.tab.columns)) := by
  have table := keyed.table
  obtain ⟨passes, denotes⟩ := keyed.denotes env.pg keyed.room probe
  obtain ⟨bufs', length, bound⟩ := (bindParams_key (table.keyFits table.primary keyed.room)
    (table.key table.primary).2.2 table.size).1 passes
  obtain ⟨condition, denoted⟩ := exists_condition fun i member => ⟨_, denotes i member⟩
  have leaves : (Statement.delete st.tab.relation condition).onRows
      (records.map (rowOf st.tab.columns)) =
      (remove (st.tab.keyOf 0) (st.tab.keyOf 0 st.fcd.record) records).map
        (rowOf st.tab.columns) := by
    unfold remove
    change (records.map (rowOf st.tab.columns)).filter (fun row => !meets condition row) = _
    rw [List.filter_map]
    congr 1
    apply List.filter_congr
    intro record member
    rw [Function.comp_apply, meets_rowOf table.laid (fun i member => table.positions member)
      keyed.room probe denotes denoted (keyed.recordOf record member), ← decide_not]
  have executed := keyed.exec server rfl leaves
    (fun record member => keyed.recordOf record (List.mem_of_mem_filter member))
    (nodup_remove _ keyed.distinct)
  refine ⟨_, ?_, keyed.moves_executed length _ stOk st.tab.insPrepared st.tab.updPrepared true
    (st.pendingCommits + 1)⟩
  unfold deleteRecord
  rw [guard_done _ keyed.prepare]
  dsimp only
  rw [bound, ok_bind]
  dsimp only
  rw [denoted, Option.map_some, executed]
  rfl

/-- DELETE by the primary key removes the record with the key of the record area. -/
theorem opDelete_keyed (server : KeyedServer env.pg st.tab.relation st.tab.keys)
    (keyed : KeyedState st records) (primary : st.fcd.keyId = 0)
    (probe : KeyOk st.tab 0 st.fcd.record) :
    ∃ st', opDelete env st = .ok st' ∧
      match ofList (st.tab.keyOf 0) records (st.tab.keyOf 0 st.fcd.record) with
      | some record => Moves st st' stOk
          (record ++ st.fcd.record.drop (totalLen st.tab.columns))
          ((remove (st.tab.keyOf 0) (st.tab.keyOf 0 st.fcd.record) records).map
            (rowOf st.tab.columns))
      | none => Moves st st' stRecNotFound st.fcd.record
          (records.map (rowOf st.tab.columns)) := by
  have table := keyed.table
  have known : st.resetScan.fcd.keyId < st.tab.keys.length := primary ▸ table.primary
  obtain ⟨st₁, read, found⟩ := @opReadRandom_keyed env st.resetScan records false server
    keyed.resetScan known (primary ▸ probe)
  change match ofList (st.tab.keyOf st.fcd.keyId) records (st.tab.keyOf st.fcd.keyId
      st.fcd.record) with
    | some record => Moves st.resetScan st₁ stOk
        (record ++ st.fcd.record.drop (totalLen st.tab.columns)) _
    | none => Moves st.resetScan st₁ stRecNotFound st.fcd.record _ at found
  rw [primary] at found
  unfold opDelete
  rw [if_neg keyed.opened, read, ok_bind]
  cases stored : ofList (st.tab.keyOf 0) records (st.tab.keyOf 0 st.fcd.record) with
  | none =>
      rw [stored] at found
      have missed : st₁.fcd.status ≠ stOk := by
        rw [found.fcd]
        exact (by decide : stRecNotFound ≠ stOk)
      rw [if_pos missed]
      exact ⟨_, rfl, (found.setStatus stRecNotFound).resetScan⟩
  | some record =>
      rw [stored] at found
      obtain ⟨member, key⟩ := mem_of_ofList stored
      have recordOf := keyed.recordOf record member
      have area : st₁.fcd.record = record ++ st.fcd.record.drop (totalLen st.tab.columns) := by
        rw [found.fcd]
      have front : st₁.fcd.record.take (totalLen st.tab.columns) = record := by
        rw [area]
        exact List.take_left' recordOf.full
      have room : totalLen st.tab.columns ≤ st₁.fcd.record.length := by
        rw [area, List.length_append, recordOf.full]
        exact Nat.le_add_right _ _
      have same : st.tab.keyOf 0 st₁.fcd.record = st.tab.keyOf 0 st.fcd.record := by
        rw [← table.keyOf_take, front, key]
      have probe₁ : KeyOk st.tab 0 st₁.fcd.record := by
        have slices := (keyOf_eq_iff table.laid (fun i among => table.positions among) room
          keyed.room).mp same
        intro i among
        rw [slices i among]
        exact probe i among
      have keyed₁ := keyed.resetScan.moves found (by rw [← area]; exact room) keyed.recordOf
        keyed.distinct
      have keys : st₁.tab.keyOf 0 = st.tab.keyOf 0 := keyOf_congr found.columns found.keys 0
      obtain ⟨kbuf, built⟩ := @getkbuf_returns st₁.tab st₁.fcd.record 0 _
        (by rw [found.keys]; exact (table.key table.primary).1) (by decide)
        (by
          have fits := table.keyFits table.primary room
          exact ⟨by simp only [found.column]; exact fits.inside,
            by simp only [found.column]; exact fits.short⟩)
      obtain ⟨st₂, deleted, moves⟩ := deleteRecord_keyed (found.server server) keyed₁
        (probe₁.congr found.columns found.keys)
      rw [if_neg (by rw [found.fcd]; exact fun other => other rfl), built, ok_bind, deleted]
      rw [keys, same, found.columns, area] at moves
      exact ⟨_, rfl, (found.trans moves).resetScan⟩

end Operations

end Pqfh
