import Pqfh.Handler.KeyedRuns
import Pqfh.Handler.ScanIsolation

/-! # Scans of a table that is written meanwhile

START asks for the records that its comparison selects, in the order of their keys, and the READs
after it give out these records one by one. That the table is written meanwhile plays no part: the
cursor has its own rows. What a program must not do is to change the record area between START and
the first READ, and to START in one direction by the key that was read last, for then the cursor is
used on.
-/

namespace Pqfh

open KeyedStore

/-! ## The place of a scan -/

/-- The place of a scan: whether the record that START has found is still to be given out, and the
records that are left, with that one. -/
structure Place where
  waiting : Bool
  left : List (List Byte)

/-- The scan of an open file. For each direction, `marks` has the key by which the last START was
made, and of the bytes that the next START compares with its own as much as is known. -/
structure Browse where
  place : Option Place
  marks : Dir → Option ℕ × List Byte

/-- The key of a record as START and READ copy it. -/
def Table.copiedKey (tab : Table) (k : ℕ) (stack : ℕ → Byte) (record : List Byte) : List Byte :=
  stackCopy stack (tab.keyOf k record)

/-- The scan after a START that has found records. -/
def Browse.started (browse : Browse) (tab : Table) (op : Comparison) (k : ℕ) (stack : ℕ → Byte)
    (left : List (List Byte)) : Browse where
  place := some ⟨!left.isEmpty, left⟩
  marks := Function.update browse.marks op.dir (some k,
    match left with
    | [] => (browse.marks op.dir).2
    | record :: _ => tab.copiedKey k stack record)

/-- The scan after the READ that gives out the record START has found. -/
def Browse.taken (browse : Browse) (left : List (List Byte)) : Browse :=
  { browse with place := some ⟨false, left.tail⟩ }

/-- The scan after a READ that has given out another record. -/
def Browse.passed (browse : Browse) (tab : Table) (dir : Dir) (k : ℕ) (stack : ℕ → Byte)
    (record : List Byte) (left : List (List Byte)) : Browse where
  place := some ⟨false, left⟩
  marks := Function.update browse.marks dir ((browse.marks dir).1, tab.copiedKey k stack record)

/-- The records that the cursor has. -/
def Place.ahead (place : Place) : List (List Byte) :=
  if place.waiting then place.left.tail else place.left

/-- A table and the rows of its cursor stand at the place of a scan. -/
structure Table.Stays (tab : Table) (cursor : Option (List Row)) (browse : Browse) : Prop where
  plain : tab.restart = none
  marks : ∀ dir k, tab.keyAt dir = some k → (browse.marks dir).1 = some k
  bytes : ∀ dir, (browse.marks dir).2 <+: tab.bufAt dir
  idle : browse.place = none → tab.cursor = false ∧ cursor = none
  place : ∀ place ∈ browse.place, tab.cursor = true ∧ tab.first = place.waiting ∧
    (∀ record ∈ place.left, RecordOf tab.columns record) ∧
    cursor = some (place.ahead.map (rowOf tab.columns))

theorem Table.Stays.scansOn {tab tab' : Table} {cursor : Option (List Row)} {browse : Browse}
    (stays : tab.Stays cursor browse) (scan : tab.ScansOn tab')
    (columns : tab'.columns = tab.columns) : tab'.Stays cursor browse where
  plain := scan.restart stays.plain
  marks := fun dir k mark => stays.marks dir k (scan.marks dir k mark)
  bytes := by
    intro dir
    rw [scan.remembered dir]
    exact stays.bytes dir
  idle := by
    rw [scan.cursor]
    exact stays.idle
  place := by
    rw [scan.cursor, scan.first, columns]
    exact stays.place

/-! ## What a scan leaves alone -/

/-- The rows of a connection's cursor. -/
def Conn.rowsAt (conn : Conn) (handle : ℕ) : Option (List Row) :=
  (conn.cursors handle).map Cursor.rows

/-- An operation of a scan changes the cursor of its table, and in the table what the scan needs. -/
structure Browses (st st' : State) : Prop where
  name : st'.tab.name = st.tab.name
  partialKey : st'.tab.partialKey = st.tab.partialKey
  relation : st'.tab.relation = st.tab.relation
  handle : st'.tab.handle = st.tab.handle
  columns : st'.tab.columns = st.tab.columns
  keys : st'.tab.keys = st.tab.keys
  bufs : st'.tab.bufs = st.tab.bufs
  prepared : st'.tab.readPrepared = st.tab.readPrepared
  eofStart : st'.eofStart = st.eofStart
  running : st'.conn.aborted = st.conn.aborted
  working : st'.conn.working = st.conn.working
  others : ∀ handle ≠ st.tab.handle, st'.conn.cursors handle = st.conn.cursors handle

theorem Browses.trans {st st₁ st' : State} (first : Browses st st₁) (second : Browses st₁ st') :
    Browses st st' where
  name := second.name.trans first.name
  partialKey := second.partialKey.trans first.partialKey
  relation := second.relation.trans first.relation
  handle := second.handle.trans first.handle
  columns := second.columns.trans first.columns
  keys := second.keys.trans first.keys
  bufs := second.bufs.trans first.bufs
  prepared := second.prepared.trans first.prepared
  eofStart := second.eofStart.trans first.eofStart
  running := second.running.trans first.running
  working := second.working.trans first.working
  others := by
    intro handle other
    rw [second.others handle (by rw [first.handle]; exact other), first.others handle other]

theorem Browses.table {st st' : State} (browses : Browses st st') (table : KeyedTable st.tab) :
    KeyedTable st'.tab := by
  refine table.congr browses.columns browses.keys (by rw [browses.bufs]) ?_
  intro k cols found
  rw [browses.prepared] at found
  exact Or.inl found

/-- The table stands for the same records. -/
theorem KeyedState.browses {st st' : State} {records : List (List Byte)}
    (keyed : KeyedState st records) (browses : Browses st st') (opened : st'.fcd.openMode ≠ 128)
    (room : totalLen st.tab.columns ≤ st'.fcd.record.length) : KeyedState st' records where
  table := browses.table keyed.table
  opened := opened
  room := by rw [browses.columns]; exact room
  running := browses.running.trans keyed.running
  present := by
    rw [browses.working, browses.relation, browses.columns]
    exact keyed.present
  recordOf := by rw [browses.columns]; exact keyed.recordOf
  distinct := by
    rw [keyOf_congr browses.columns browses.keys 0]
    exact keyed.distinct

/-! ## READ NEXT and READ PREVIOUS -/

theorem isPrefix_copyOver (bytes buffer : List Byte) : bytes <+: copyOver bytes buffer :=
  List.prefix_append ..

/-- What remembering a row does to the bytes that a START compares with its own. -/
theorem State.remember_bufAt (dir other : Dir) (kbuf : List Byte) (st : State) :
    (st.remember dir kbuf).tab.bufAt other =
        (if other = dir then copyOver kbuf (st.tab.bufAt dir) else st.tab.bufAt other) ∧
      (st.remember dir kbuf).tab.keyAt other = st.tab.keyAt other := by
  cases dir <;> cases other <;> exact ⟨rfl, rfl⟩

section Reads

variable {st : State} {browse : Browse}

/-- The key of a record that the area is filled with. -/
theorem KeyedTable.getkbuf_found {tab : Table} (table : KeyedTable tab) {k : ℕ}
    (known : k < tab.keys.length) {record : List Byte} (stored : RecordOf tab.columns record)
    (rest : List Byte) : getkbuf tab k (record ++ rest) = .ok (tab.keyOf k record) := by
  have room : totalLen tab.columns ≤ (record ++ rest).length := by
    rw [List.length_append, stored.full]
    exact Nat.le_add_right ..
  obtain ⟨kbuf, built⟩ := getkbuf_returns (table.key known).1 (known.trans_le table.count)
    (table.keyFits known room)
  have key : kbuf = tab.keyOf k (record ++ rest) := (getkbuf_eq (table.key known).1 built).2
  have front := Pqfh.keyOf_take table.laid (fun _ member => table.positions member)
    (record ++ rest) (k := k)
  rw [List.take_left' stored.full] at front
  rw [built, key, front]

/-- The first READ leaves in the record area what START has read. -/
theorem opNextPrev_takes (opened : st.fcd.openMode ≠ 128) {left : List (List Byte)}
    (scanned : browse.place = some ⟨true, left⟩)
    (stays : st.tab.Stays (st.conn.rowsAt st.tab.handle) browse) (stack : ℕ → Byte) (dir : Dir) :
    ∃ st', opNextPrev stack dir st = .ok st' ∧ Browses st st' ∧
      st'.fcd = { st.fcd with status := stOk } ∧
      st'.tab.Stays (st'.conn.rowsAt st.tab.handle) (browse.taken left) := by
  obtain ⟨busy, first, stored, rows⟩ := stays.place _ scanned
  refine ⟨{ st with tab := { st.tab with first := false } }.setStatus stOk, ?_, ?_, rfl, ?_⟩
  · unfold opNextPrev
    rw [if_neg opened, if_pos first]
  · exact ⟨rfl, rfl, rfl, rfl, rfl, rfl, rfl, rfl, rfl, rfl, rfl, fun _ _ => rfl⟩
  · refine ⟨stays.plain, stays.marks, stays.bytes, nofun, ?_⟩
    intro place there
    obtain rfl : ⟨false, left.tail⟩ = place := Option.some.inj there
    exact ⟨busy, rfl, fun record member => stored record (List.mem_of_mem_tail member), rows⟩

/-- A READ gives out the next record of the cursor, or there is none. -/
theorem opNextPrev_browses {records : List (List Byte)} (keyed : KeyedState st records)
    (going : st.eofStart = false) (known : st.fcd.keyId < st.tab.keys.length) {place : Place}
    (scanned : browse.place = some place) (past : place.waiting = false)
    (stays : st.tab.Stays (st.conn.rowsAt st.tab.handle) browse) (stack : ℕ → Byte) (dir : Dir) :
    ∃ st', opNextPrev stack dir st = .ok st' ∧ Browses st st' ∧
      match place.left with
      | [] => st'.fcd = { st.fcd with status := stEof } ∧
          st'.tab.Stays (st'.conn.rowsAt st.tab.handle) browse
      | record :: left => st'.fcd = st.fcd.answered (totalLen st.tab.columns) (.found record) ∧
          st'.tab.Stays (st'.conn.rowsAt st.tab.handle)
            (browse.passed st.tab dir st.fcd.keyId stack record left) := by
  obtain ⟨open_, first, stored, cursor⟩ := stays.place place scanned
  rw [Place.ahead, past, if_neg Bool.false_ne_true] at cursor
  rw [past] at first
  obtain ⟨⟨rows, held⟩, present, same⟩ := Option.map_eq_some_iff.mp cursor
  subst same
  have forgets := opNextPrev_forgets keyed.opened first going
    (by rw [stays.plain]; exact (Option.some_ne_none dir).symm) stack
  let forgotten : State := { st with tab := { st.tab with restart := none } }
  cases left : place.left with
  | nil =>
      rw [left] at present
      have fetched : st.conn.fetch st.tab.handle = (st.conn, none) := by
        unfold Conn.fetch
        rw [keyed.running, if_neg Bool.false_ne_true, present]
        rfl
      refine ⟨forgotten.setStatus stEof, ?_, ?_, rfl, ?_⟩
      · rw [forgets]
        unfold fetchNextPrev
        dsimp only
        rw [fetched]
        rfl
      · exact ⟨rfl, rfl, rfl, rfl, rfl, rfl, rfl, rfl, rfl, rfl, rfl, fun _ _ => rfl⟩
      · exact { stays with plain := rfl }
  | cons record rest =>
      rw [left, List.map_cons] at present
      have here := stored record (by rw [left]; exact List.mem_cons_self)
      let conn := st.conn.setCursor st.tab.handle (some ⟨rest.map (rowOf st.tab.columns), held⟩)
      have fetched : st.conn.fetch st.tab.handle = (conn, some (rowOf st.tab.columns record)) := by
        unfold Conn.fetch
        rw [keyed.running, if_neg Bool.false_ne_true, present]
      let area := record ++ st.fcd.record.drop (totalLen st.tab.columns)
      let kbuf := st.tab.copiedKey st.fcd.keyId stack record
      let read : State := ((forgotten.setConn conn).setRecord area).setStatus stOk
      have copied : ∀ other, (read.remember dir kbuf).tab.bufAt other =
          (if other = dir then copyOver kbuf (st.tab.bufAt dir) else st.tab.bufAt other) ∧
        (read.remember dir kbuf).tab.keyAt other = st.tab.keyAt other := by
        intro other
        obtain ⟨bytes, key⟩ := read.remember_bufAt dir other kbuf
        refine ⟨bytes.trans ?_, key.trans ?_⟩
        · cases dir <;> cases other <;> rfl
        · cases other <;> rfl
      refine ⟨read.remember dir kbuf, ?_, ?_, ?_, ?_⟩
      · rw [forgets]
        unfold fetchNextPrev
        dsimp only
        rw [fetched]
        dsimp only
        change (pq2cob st.tab.columns (rowOf st.tab.columns record) st.fcd.record >>= _) = _
        rw [pq2cob_rowOf here keyed.table.laid keyed.room, ok_bind]
        change (getkbuf st.tab st.fcd.keyId area >>= _) = _
        rw [keyed.table.getkbuf_found known here, ok_bind]
        rfl
      · have others : ∀ handle ≠ st.tab.handle, conn.cursors handle = st.conn.cursors handle :=
          fun handle other => Function.update_of_ne other ..
        cases dir <;>
          exact ⟨rfl, rfl, rfl, rfl, rfl, rfl, rfl, rfl, rfl, rfl, rfl, others⟩
      · cases dir <;> rfl
      · have cursor : (read.remember dir kbuf).conn.rowsAt st.tab.handle =
            some (rest.map (rowOf st.tab.columns)) := by
          have conn' : (read.remember dir kbuf).conn = conn := by cases dir <;> rfl
          rw [conn']
          unfold Conn.rowsAt
          rw [show conn.cursors st.tab.handle = _ from Function.update_self ..]
          rfl
        refine ⟨by cases dir <;> rfl, ?_, ?_, nofun, ?_⟩
        · intro other k mark
          rw [(copied other).2] at mark
          change (Function.update browse.marks dir ((browse.marks dir).1, kbuf) other).1 = some k
          by_cases same : other = dir
          · subst same
            rw [Function.update_self]
            exact stays.marks other k mark
          · rw [Function.update_of_ne same]
            exact stays.marks other k mark
        · intro other
          rw [(copied other).1]
          change (Function.update browse.marks dir ((browse.marks dir).1, kbuf) other).2 <+: _
          by_cases same : other = dir
          · rw [if_pos same, same, Function.update_self]
            exact isPrefix_copyOver ..
          · rw [if_neg same, Function.update_of_ne same]
            exact stays.bytes other
        · intro place' there
          obtain rfl : ⟨false, rest⟩ = place' := Option.some.inj there
          have after : ∀ other ∈ rest, RecordOf st.tab.columns other := fun other member =>
            stored other (by rw [left]; exact List.mem_cons_of_mem _ member)
          refine ⟨?_, ?_, ?_, ?_⟩
          · cases dir <;> exact open_
          · cases dir <;> exact first
          · cases dir <;> exact after
          · rw [cursor]
            cases dir <;> rfl

end Reads

/-! ## START -/

/-- The records of a store that a START selects, in the order that the server gives them. -/
structure Snapshot (pg : Postgres) (tab : Table) (op : Comparison) (k : ℕ)
    (key : List (ℕ × Value)) (store : Records (List Byte) (List Byte))
    (left : List (List Byte)) : Prop where
  distinct : (left.map (tab.keyOf 0)).Nodup
  selected : ∀ record, record ∈ left ↔ store (tab.keyOf 0 record) = some record ∧
    pg.keyCompares op (rowOf tab.columns record) key = true
  sorted : left.Pairwise fun a b =>
    pg.keyLe op (whereColumns tab.keys k) (rowOf tab.columns a) (rowOf tab.columns b)

/-- What a START answers. -/
def foundFirst : List (List Byte) → Reply (List Byte)
  | [] => .missing
  | record :: _ => .found record

/-- What a START asks for: the text of its query fits the buffers, and the fields of the key are
numbers where the columns are. -/
structure Asks (env : Env) (tab : Table) (op : Comparison) (k : ℕ) (record : List Byte)
    (key : List (ℕ × Value)) : Prop where
  known : k < tab.keys.length
  whole : partialColumns env tab k = 0
  decimals : ∀ i ∈ whereColumns tab.keys k,
    (tab.column i).tp = .numeric → (tab.column i).dec < (tab.column i).len
  stands : tab.startKey record (whereColumns tab.keys k) = some key
  written : ∃ query, getwhere env tab record k op false = .ok query

/-- The key of a START is not the one that was read last in its direction. -/
def Browse.Fresh (browse : Browse) (tab : Table) (op : Comparison) (k : ℕ) (stack : ℕ → Byte)
    (record : List Byte) : Prop :=
  (browse.marks op.dir).1 = some k →
    ¬ (browse.marks op.dir).2 <+: tab.copiedKey k stack record ∧
      ¬ tab.copiedKey k stack record <+: (browse.marks op.dir).2

/-- Elements in another order that are images are the images of elements in another order. -/
theorem exists_perm_of_map {α β : Type} {f : α → β} {found : List β} {list : List α}
    (perm : found.Perm (list.map f)) : ∃ left : List α, found = left.map f ∧ left.Perm list := by
  have images : List.Forall₂ (fun image element => image = f element) (list.map f) list := by
    rw [List.forall₂_map_left_iff, List.forall₂_same]
    exact fun _ _ => rfl
  obtain ⟨left, same, perm'⟩ := List.perm_comp_forall₂ perm images
  refine ⟨left, ?_, perm'⟩
  rw [← List.forall₂_eq_eq_eq, List.forall₂_map_right_iff]
  exact same

section Starts

variable {env : Env} {op : Comparison} {st : State} {records : List (List Byte)}

/-- What the query of a START finds are the rows of a snapshot. -/
theorem KeyedState.snapshot (keyed : KeyedState st records) {k : ℕ} {key : List (ℕ × Value)}
    (asks : Asks env st.tab op k st.fcd.record key) {tokens : List Token}
    {order : List (ℕ × Bool)}
    (written : getwhere env st.tab st.fcd.record k op false = .ok (tokens, order)) :
    ∃ left, env.pg.query tokens order (records.map (rowOf st.tab.columns)) =
        some (left.map (rowOf st.tab.columns)) ∧
      (∀ record ∈ left, RecordOf st.tab.columns record) ∧
      Snapshot env.pg st.tab op k key (ofList (st.tab.keyOf 0) records) left := by
  obtain ⟨found, query, perm, sorted⟩ := getwhere_query (keyed.table.key asks.known).1 asks.whole
    asks.decimals asks.stands written (records.map (rowOf st.tab.columns))
  rw [List.filter_map] at perm
  obtain ⟨left, rfl, perm'⟩ := exists_perm_of_map perm
  have among : ∀ record, record ∈ left ↔ record ∈ records ∧
      env.pg.keyCompares op (rowOf st.tab.columns record) key = true := by
    intro record
    rw [perm'.mem_iff, List.mem_filter]
    rfl
  refine ⟨left, query, fun record member => keyed.recordOf record ((among record).mp member).1,
    ?_, ?_, ?_⟩
  · apply (perm'.map (st.tab.keyOf 0)).nodup_iff.mpr
    exact keyed.distinct.sublist (List.filter_sublist.map (st.tab.keyOf 0))
  · intro record
    rw [among, ofList_eq_some_iff keyed.distinct]
    exact ⟨fun ⟨member, selected⟩ => ⟨⟨member, rfl⟩, selected⟩,
      fun ⟨⟨member, _⟩, selected⟩ => ⟨member, selected⟩⟩
  · exact List.pairwise_map.mp sorted

/-- Before DECLARE the cursor of a scan in progress is closed. -/
theorem State.opening_browses {browse : Browse} (running : st.conn.aborted = false)
    (stays : st.tab.Stays (st.conn.rowsAt st.tab.handle) browse) :
    ∃ conn, st.opening = { st with conn := conn, tab := { st.tab with cursor := true } } ∧
      conn.cursors st.tab.handle = none ∧
      conn.aborted = false ∧ conn.working = st.conn.working ∧
      ∀ handle ≠ st.tab.handle, conn.cursors handle = st.conn.cursors handle := by
  cases scanned : browse.place with
  | none =>
      obtain ⟨shut, rows⟩ := stays.idle scanned
      refine ⟨st.conn, ?_, Option.map_eq_none_iff.mp rows, running, rfl, fun _ _ => rfl⟩
      unfold State.opening State.closeCursor
      rw [shut, if_neg Bool.false_ne_true]
  | some place =>
      obtain ⟨busy, _, _, rows⟩ := stays.place place scanned
      obtain ⟨cursor, present, _⟩ := Option.map_eq_some_iff.mp rows
      refine ⟨st.conn.setCursor st.tab.handle none, ?_, Function.update_self .., running, rfl,
        fun handle other => Function.update_of_ne other ..⟩
      unfold State.opening State.closeCursor Conn.closeCursor
      rw [busy, if_pos rfl, running, if_neg Bool.false_ne_true, present]
      rfl

/-- What DECLARE does to the keys by which a START uses the cursor on. -/
theorem State.declared_keyAt (dir other : Dir) (conn : Conn) (st : State) :
    (st.declared dir conn).tab.keyAt other =
        (if other = dir then some st.fcd.keyId else st.tab.keyAt other) ∧
      (st.declared dir conn).tab.bufAt other = st.tab.bufAt other := by
  cases dir <;> cases other <;> exact ⟨rfl, rfl⟩

/-- What START does after the READ in it changes no more than which record comes first. -/
theorem State.began_browses (st : State) : Browses st st.began := by
  unfold State.began
  split <;> exact ⟨rfl, rfl, rfl, rfl, rfl, rfl, rfl, rfl, rfl, rfl, rfl, fun _ _ => rfl⟩

/-- START finds the first record of a snapshot, which is read into the record area, or none. -/
theorem opStart_browses {browse : Browse} (keyed : KeyedState st records)
    (going : st.eofStart = false) {key : List (ℕ × Value)}
    (asks : Asks env st.tab op st.fcd.keyId st.fcd.record key)
    (stays : st.tab.Stays (st.conn.rowsAt st.tab.handle) browse) (stack inner : ℕ → Byte)
    (fresh : browse.Fresh st.tab op st.fcd.keyId stack st.fcd.record) :
    ∃ left st', opStart env false stack inner op st = .ok st' ∧ Browses st st' ∧
      Snapshot env.pg st.tab op st.fcd.keyId key (ofList (st.tab.keyOf 0) records) left ∧
      st'.fcd = st.fcd.answered (totalLen st.tab.columns) (foundFirst left) ∧
      st'.tab.Stays (st'.conn.rowsAt st.tab.handle)
        (browse.started st.tab op st.fcd.keyId inner left) := by
  obtain ⟨⟨tokens, order⟩, written⟩ := asks.written
  obtain ⟨left, query, stored, snapshot⟩ := keyed.snapshot asks written
  obtain ⟨kbuf, built⟩ := getkbuf_returns (keyed.table.key asks.known).1
    (asks.known.trans_le keyed.table.count) (keyed.table.keyFits asks.known keyed.room)
  have key₀ : kbuf = st.tab.keyOf st.fcd.keyId st.fcd.record :=
    (getkbuf_eq (keyed.table.key asks.known).1 built).2
  have plain : shortcut op (stackCopy stack kbuf) st = false := by
    apply Bool.eq_false_iff.mpr
    intro short
    obtain ⟨mark, same⟩ := shortcut_iff.mp short
    obtain ⟨one, other⟩ := fresh (stays.marks op.dir _ mark)
    have begins : st.tab.copiedKey st.fcd.keyId stack st.fcd.record <+: st.tab.bufAt op.dir := by
      unfold Table.copiedKey
      rw [← key₀, same]
      exact List.take_prefix ..
    rcases List.prefix_or_prefix_of_prefix (stays.bytes op.dir) begins with less | more
    · exact one less
    · exact other more
  have started : opStart env false stack inner op st = declareScan env false inner op st := by
    have same : ({ st with eofStart := false } : State) = st := by rw [← going]
    unfold opStart
    rw [if_neg keyed.opened]
    dsimp only
    rw [same, built, ok_bind, plain]
    rfl
  obtain ⟨conn, opening, none, running, working, others⟩ :=
    State.opening_browses keyed.running stays
  let conn' := conn.setCursor st.tab.handle (some ⟨left.map (rowOf st.tab.columns), false⟩)
  let next : State := st.opening.declared op.dir conn'
  have browses : Browses st next := by
    have others' : ∀ handle ≠ st.tab.handle, conn'.cursors handle = st.conn.cursors handle :=
      fun handle other => (Function.update_of_ne other ..).trans (others handle other)
    dsimp only [next]
    rw [opening]
    cases op.dir <;>
      exact ⟨rfl, rfl, rfl, rfl, rfl, rfl, rfl, rfl, rfl, running.trans keyed.running.symm,
        working, others'⟩
  let scan : Browse := ⟨some ⟨false, left⟩,
    Function.update browse.marks op.dir (some st.fcd.keyId, (browse.marks op.dir).2)⟩
  have fcd : next.fcd = st.fcd := by
    dsimp only [next]
    rw [opening]
    rfl
  have after : ∀ other, next.tab.keyAt other =
        (if other = op.dir then some st.fcd.keyId else st.tab.keyAt other) ∧
      next.tab.bufAt other = st.tab.bufAt other := by
    intro other
    obtain ⟨mark, bytes⟩ := State.declared_keyAt op.dir other conn' st.opening
    refine ⟨mark.trans ?_, bytes.trans ?_⟩
    · rw [opening]
      cases other <;> rfl
    · rw [opening]
      cases other <;> rfl
  have stays' : next.tab.Stays (next.conn.rowsAt next.tab.handle) scan := by
    refine ⟨?_, ?_, ?_, nofun, ?_⟩
    · refine Eq.trans ?_ stays.plain
      dsimp only [next]
      rw [opening]
      cases op.dir <;> rfl
    · intro other k mark
      rw [(after other).1] at mark
      dsimp only [scan]
      by_cases same : other = op.dir
      · rw [if_pos same] at mark
        rw [same, Function.update_self, ← mark]
      · rw [if_neg same] at mark
        rw [Function.update_of_ne same]
        exact stays.marks other k mark
    · intro other
      rw [(after other).2]
      dsimp only [scan]
      by_cases same : other = op.dir
      · rw [same, Function.update_self]
        exact stays.bytes op.dir
      · rw [Function.update_of_ne same]
        exact stays.bytes other
    · intro place there
      obtain rfl : ⟨false, left⟩ = place := Option.some.inj there
      rw [browses.columns, browses.handle]
      refine ⟨?_, ?_, stored, ?_⟩
      · dsimp only [next]
        rw [opening]
        cases op.dir <;> rfl
      · dsimp only [next]
        rw [opening]
        cases op.dir <;> rfl
      · change (conn'.cursors st.tab.handle).map Cursor.rows = _
        rw [show conn'.cursors st.tab.handle = _ from Function.update_self ..]
        rfl
  have keyed' : KeyedState next records := by
    refine keyed.browses browses ?_ ?_
    · rw [fcd]
      exact keyed.opened
    · rw [fcd]
      exact keyed.room
  obtain ⟨read, reads, browses', outcome⟩ := opNextPrev_browses keyed'
    (browses.eofStart.trans going) (by rw [fcd, browses.keys]; exact asks.known) rfl rfl stays'
    inner op.dir
  have ran : opStart env false stack inner op st = .ok read.began := by
    refine started.trans (declareScan_eq_ok.mpr ⟨tokens, order, conn', read, ?_, ?_, reads, rfl⟩)
    · rw [opening, if_neg Bool.false_ne_true]
      exact (@getwhere_congr st.tab { st.tab with cursor := true } rfl rfl rfl rfl ..).trans written
    · rw [opening]
      unfold Conn.declare
      dsimp only
      rw [running, if_neg Bool.false_ne_true, none, working, keyed.present, Option.bind_some, query]
  refine ⟨left, read.began, ran, (browses.trans browses').trans read.began_browses, snapshot, ?_⟩
  rw [← browses.handle]
  cases left with
  | nil =>
      obtain ⟨ended, place⟩ := outcome
      have last : read.began =
          { read with tab := { read.tab with first := false } }.setStatus stRecNotFound :=
        if_pos (congrArg Fcd.status ended)
      refine ⟨?_, ?_⟩
      · rw [last]
        change { read.fcd with status := stRecNotFound } = _
        rw [ended, fcd]
        rfl
      · rw [last]
        refine ⟨place.plain, place.marks, place.bytes, nofun, ?_⟩
        intro place' there
        obtain rfl : ⟨false, []⟩ = place' := Option.some.inj there
        obtain ⟨busy, _, none, rows⟩ := place.place ⟨false, []⟩ rfl
        exact ⟨busy, rfl, none, rows⟩
  | cons record rest =>
      obtain ⟨found, place⟩ := outcome
      have more : read.began = { read with tab := { read.tab with first := true } } := by
        apply if_neg
        rw [found]
        exact (by decide : stOk ≠ stEof)
      refine ⟨?_, ?_⟩
      · rw [more]
        change read.fcd = _
        rw [found, fcd, browses.columns]
        rfl
      · have key : next.tab.copiedKey st.fcd.keyId = st.tab.copiedKey st.fcd.keyId := by
          unfold Table.copiedKey
          rw [keyOf_congr browses.columns browses.keys]
        have marks : (browse.started st.tab op st.fcd.keyId inner (record :: rest)).marks =
            (scan.passed next.tab op.dir next.fcd.keyId inner record rest).marks := by
          dsimp only [Browse.started, Browse.passed, scan]
          rw [Function.update_self, Function.update_idem, fcd, key]
        rw [more]
        refine ⟨place.plain, ?_, ?_, nofun, ?_⟩
        · rw [marks]
          exact place.marks
        · rw [marks]
          exact place.bytes
        · intro place' there
          obtain rfl : ⟨true, record :: rest⟩ = place' := Option.some.inj there
          obtain ⟨busy, _, _, rows⟩ := place.place ⟨false, rest⟩ rfl
          refine ⟨busy, rfl, ?_, rows⟩
          change ∀ other ∈ record :: rest, RecordOf read.tab.columns other
          rw [browses'.columns, browses.columns]
          exact stored

end Starts

end Pqfh
