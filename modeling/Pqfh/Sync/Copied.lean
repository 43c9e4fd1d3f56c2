import Pqfh.Handler.Keyed
import Pqfh.Handler.ScanLocal
import Pqfh.Handler.WholeKey
import Pqfh.Sync.FixedPoint
import Pqfh.Sync.Merge

/-! # SYNC copies the native file

Here the updates of SYNC are those of the handler. While the table stands for records that it can
keep (`Pqfh.StandsFor`), each of them does to the records what it does on an indexed file, and the
scan of SYNC goes on. At the end the table has the records of the native file, and no others
(`Pqfh.sync_copies`).
-/

namespace Pqfh

open Align KeyedStore

variable {σ : Type}

/-! ## Scanning a table that stands for records -/

theorem opNextPrev_bufs {stack : ℕ → Byte} {dir : Dir} {st st' : State}
    (read : opNextPrev stack dir st = .ok st') : st'.tab.bufs = st.tab.bufs := by
  cases opNextPrev_iff.mp read with
  | fetched _ _ _ _ fetched =>
      cases fetchNextPrev_iff.mp fetched with
      | ended => rfl
      | read => cases dir <;> rfl
  | _ => rfl

theorem declareScan_bufs {env : Env} {weak : Bool} {stack : ℕ → Byte} {op : Comparison}
    {st st' : State} (declared : declareScan env weak stack op st = .ok st') :
    st'.tab.bufs = st.tab.bufs := by
  obtain ⟨_, _, conn, read, _, _, reads, rfl⟩ := declareScan_eq_ok.mp declared
  have began : read.began.tab.bufs = read.tab.bufs := by
    unfold State.began
    split <;> rfl
  have opening : (st.opening.declared op.dir conn).tab.bufs = st.tab.bufs := by
    unfold State.declared State.opening State.closeCursor
    cases op.dir <;> split <;> rfl
  rw [began, opNextPrev_bufs reads, opening]

/-- A START that does not probe a weak table sets no parameters. -/
theorem opStart_bufs {env : Env} {stack inner : ℕ → Byte} {op : Comparison} {st st' : State}
    (started : opStart env false stack inner op st = .ok st') : st'.tab.bufs = st.tab.bufs := by
  unfold opStart at started
  split at started
  · cases started
    rfl
  · obtain ⟨key, _, started⟩ := bind_eq_ok.mp started
    split at started
    · cases started
      cases op <;> rfl
    · rw [if_neg Bool.false_ne_true] at started
      have bufs := declareScan_bufs started
      exact bufs

theorem KeyedTable.scanned {tab tab' : Table} (table : KeyedTable tab)
    (columns : tab'.columns = tab.columns) (keys : tab'.keys = tab.keys)
    (prepared : tab'.readPrepared = tab.readPrepared) (bufs : tab'.bufs = tab.bufs) :
    KeyedTable tab' where
  laid := by rw [columns]; exact table.laid
  few := by rw [columns]; exact table.few
  short := by rw [columns]; exact table.short
  size := by rw [bufs]; exact table.size
  count := by rw [keys]; exact table.count
  primary := by rw [keys]; exact table.primary
  keys := by rw [keys, columns, Table.column_congr columns]; exact table.keys
  once := by rw [keys]; exact table.once
  flags := by rw [keys, columns, Table.column_congr columns]; exact table.flags
  whole := by rw [keys, Table.column_congr columns]; exact table.whole
  prepared := by rw [keys, prepared]; exact table.prepared

theorem AtRecord.reads {st : State} {records : List (List Byte)} (here : AtRecord st records) :
    ScanReads st records.tail := by
  cases records with
  | nil => exact here.2
  | cons record records => exact here.2.2

/-- The table stands for records, and is otherwise the table of a state before. -/
structure StandsFor (st₀ st : State) (records : List (List Byte)) : Prop where
  keyed : KeyedState st records
  columns : st.tab.columns = st₀.tab.columns
  keys : st.tab.keys = st₀.tab.keys
  relation : st.tab.relation = st₀.tab.relation
  primary : st.fcd.keyId = 0
  whole : st.fcd.record.length = totalLen st₀.tab.columns
  others : ∀ relation, relation ≠ st₀.tab.relation →
    st.conn.working relation = st₀.conn.working relation

section StandsFor

variable {env : Env} {st₀ st st' : State} {records : List (List Byte)}

theorem StandsFor.keyOf (standing : StandsFor st₀ st records) :
    st.tab.keyOf 0 = st₀.tab.keyOf 0 :=
  keyOf_congr standing.columns standing.keys 0

theorem StandsFor.server (standing : StandsFor st₀ st records) {pg : Postgres}
    (server : KeyedServer pg st₀.tab.relation st₀.tab.keys) :
    KeyedServer pg st.tab.relation st.tab.keys := by
  rw [standing.relation, standing.keys]
  exact server

/-- The status and the record area say nothing about the table. -/
theorem StandsFor.setArea (standing : StandsFor st₀ st records) (status : Status)
    {record : List Byte} (whole : record.length = totalLen st₀.tab.columns) :
    StandsFor st₀ ((st.setStatus status).setRecord record) records :=
  { standing with
    keyed := { standing.keyed with
      room := by
        change totalLen st.tab.columns ≤ record.length
        rw [standing.columns, whole] }
    whole }

/-- A scan leaves the table. -/
theorem StandsFor.scanned (standing : StandsFor st₀ st records) (same : ScanSame st st')
    (statements : SameStatements st st') (bufs : st'.tab.bufs = st.tab.bufs)
    {rest : List (List Byte)} (reads : ScanReads st' rest) : StandsFor st₀ st' records where
  keyed :=
    { table := standing.keyed.table.scanned same.columns statements.1 statements.2 bufs
      opened := reads.opened
      room := by rw [same.columns, same.reclen]; exact standing.keyed.room
      running := reads.live
      present := by rw [same.working, same.relation, same.columns]; exact standing.keyed.present
      recordOf := by rw [same.columns]; exact standing.keyed.recordOf
      distinct := by
        have key : st'.tab.keyOf 0 = st.tab.keyOf 0 := keyOf_congr same.columns statements.1 0
        rw [key]
        exact standing.keyed.distinct }
  columns := same.columns.trans standing.columns
  keys := statements.1.trans standing.keys
  relation := same.relation.trans standing.relation
  primary := same.keyId.trans standing.primary
  whole := same.reclen.trans standing.whole
  others := by rw [same.working]; exact standing.others

/-! ## Updates beside a scan -/

/-- An operation leaves a scan in progress as it is, and the table to stand for other records. -/
theorem StandsFor.moves (standing : StandsFor st₀ st records) {status : Status} {area : List Byte}
    {records' : List (List Byte)}
    (moves : Moves st st' status area (records'.map (rowOf st.tab.columns)))
    (whole : area.length = totalLen st₀.tab.columns)
    (recordOf : ∀ record ∈ records', RecordOf st.tab.columns record)
    (distinct : (records'.map (st.tab.keyOf 0)).Nodup) :
    ScanKept st st' ∧ StandsFor st₀ st' records' := by
  refine ⟨?_, ?_⟩
  · exact
      { openMode := by rw [moves.fcd]
        keyId := by rw [moves.fcd]
        reclen := by
          rw [moves.fcd, standing.whole]
          exact whole
        past := moves.scan.first
        eofStart := moves.scan.eofStart
        restart := moves.scan.restart
        live := moves.running.trans standing.keyed.running.symm
        handle := moves.scan.handle
        relation := moves.relation
        columns := moves.columns
        keys := moves.keys
        cursor := by rw [moves.scan.cursors] }
  · exact
      { keyed := standing.keyed.moves moves (by rw [standing.columns, whole]) recordOf distinct
        columns := moves.columns.trans standing.columns
        keys := moves.keys.trans standing.keys
        relation := moves.relation.trans standing.relation
        primary := by rw [moves.fcd]; exact standing.primary
        whole := by rw [moves.fcd]; exact whole
        others := by
          intro relation other
          rw [moves.working, standing.relation, Function.update_of_ne other]
          exact standing.others relation other }

/-- An operation has put a record, or none, under the key of the record area. -/
def Puts (st₀ st st' : State) (records : List (List Byte)) (held : Option (List Byte)) : Prop :=
  ∃ records', ScanKept st st' ∧ StandsFor st₀ st' records' ∧ ofList (st₀.tab.keyOf 0) records' =
    Function.update (ofList (st₀.tab.keyOf 0) records) (st₀.tab.keyOf 0 st.fcd.record) held

theorem StandsFor.write (standing : StandsFor st₀ st records)
    (server : KeyedServer env.pg st₀.tab.relation st₀.tab.keys)
    (storable : Storable st₀.tab st.fcd.record)
    (absent : ofList (st₀.tab.keyOf 0) records (st₀.tab.keyOf 0 st.fcd.record) = none) :
    ∃ st', (Updates.handler env).write st = .ok st' ∧
      Puts st₀ st st' records (some st.fcd.record) := by
  have storable' : Storable st.tab st.fcd.record :=
    storable.congr standing.columns standing.keys
  have full : st.fcd.record.length = totalLen st.tab.columns := by
    rw [standing.whole, standing.columns]
  rw [← standing.keyOf] at absent
  obtain ⟨st', wrote, moves⟩ := opWrite_keyed (standing.server server) standing.keyed storable'
  rw [absent, List.take_of_length_le full.le] at moves
  obtain ⟨kept, standing'⟩ := standing.moves moves standing.whole
    (by
      intro record member
      rcases List.mem_append.mp member with old | new
      · exact standing.keyed.recordOf record old
      · rw [List.mem_singleton.mp new]
        exact ⟨full, storable'.wellFormed⟩)
    (nodup_append _ standing.keyed.distinct absent)
  refine ⟨st', wrote, _, kept, standing', ?_⟩
  rw [← standing.keyOf]
  exact ofList_append _ absent

theorem StandsFor.rewrite (standing : StandsFor st₀ st records)
    (server : KeyedServer env.pg st₀.tab.relation st₀.tab.keys)
    (storable : Storable st₀.tab st.fcd.record) {old : List Byte}
    (present : ofList (st₀.tab.keyOf 0) records (st₀.tab.keyOf 0 st.fcd.record) = some old) :
    ∃ st', (Updates.handler env).rewrite st = .ok st' ∧
      Puts st₀ st st' records (some st.fcd.record) := by
  have storable' : Storable st.tab st.fcd.record :=
    storable.congr standing.columns standing.keys
  have full : st.fcd.record.length = totalLen st.tab.columns := by
    rw [standing.whole, standing.columns]
  rw [← standing.keyOf] at present
  obtain ⟨_, st', rewrote, moves⟩ :=
    opRewrite_keyed (standing.server server) standing.keyed storable'
  rw [present, List.take_of_length_le full.le] at moves
  obtain ⟨kept, standing'⟩ := standing.moves moves.2 standing.whole
    (by
      intro record member
      rcases mem_replace member with rfl | old
      · exact ⟨full, storable'.wellFormed⟩
      · exact standing.keyed.recordOf record old)
    (by rw [map_key_replace]; exact standing.keyed.distinct)
  refine ⟨st', ?_, _, kept, standing', ?_⟩
  · change Prod.snd <$> opRewrite env st = _
    rw [rewrote]
    rfl
  · rw [← standing.keyOf]
    exact ofList_replace standing.keyed.distinct (by rw [present]; exact nofun)

theorem StandsFor.delete (standing : StandsFor st₀ st records)
    (probe : KeyOk st₀.tab 0 st.fcd.record) {old : List Byte}
    (present : ofList (st₀.tab.keyOf 0) records (st₀.tab.keyOf 0 st.fcd.record) = some old)
    (server : KeyedServer env.pg st₀.tab.relation st₀.tab.keys) :
    ∃ st', (Updates.handler env).delete st = .ok st' ∧ Puts st₀ st st' records none := by
  rw [← standing.keyOf] at present
  obtain ⟨st', deleted, moves⟩ := opDelete_keyed (standing.server server) standing.keyed
    standing.primary (probe.congr standing.columns standing.keys)
  rw [present] at moves
  have full : st.fcd.record.length = totalLen st.tab.columns := by
    rw [standing.whole, standing.columns]
  have area : (old ++ st.fcd.record.drop (totalLen st.tab.columns)).length =
      totalLen st₀.tab.columns := by
    rw [List.drop_of_length_le full.le, List.append_nil, ← standing.columns]
    exact (standing.keyed.recordOf old (mem_of_ofList present).1).full
  obtain ⟨kept, standing'⟩ := standing.moves moves area
    (fun record member => standing.keyed.recordOf record (List.mem_of_mem_filter member))
    (nodup_remove _ standing.keyed.distinct)
  refine ⟨st', deleted, _, kept, standing', ?_⟩
  rw [← standing.keyOf]
  exact ofList_remove _

end StandsFor

/-! ## The walk -/

/-- A walk of SYNC of which these records are left, on a table that stands for records. -/
structure Copying (extfh : Extfh σ) (st₀ : State) (c : Cmp σ)
    (records bds isams : List (List Byte)) : Prop where
  walking : Walking extfh st₀.tab.columns (totalLen st₀.tab.columns) c bds isams
  standing : StandsFor st₀ c.st records

section Walk

variable {extfh : Extfh σ} {env : Env} {st₀ : State} {c : Cmp σ}
  {records bds isams : List (List Byte)} {bd isam : List Byte}

theorem Copying.note (copying : Copying extfh st₀ c records bds isams) (entry : CmpEntry) :
    Copying extfh st₀ (c.note entry) records bds isams where
  walking := ⟨copying.walking.bd, copying.walking.isam, copying.walking.saved,
    copying.walking.columns, copying.walking.reclen⟩
  standing := copying.standing

/-- READ NEXT of the database. -/
theorem StandsFor.next (standing : StandsFor st₀ c.st records) (reads : ScanReads c.st bds)
    (isam : AtIsam extfh c.files c.isam isams) (stack : ℕ → Byte) :
    ∃ c', c.nextBd stack = .ok c' ∧ Copying extfh st₀ c' records bds isams := by
  obtain ⟨st', read, here, same⟩ := opNextPrev_at reads stack .n
  have standing' := standing.scanned same (opNextPrev_same read).1 (opNextPrev_bufs read) here.reads
  refine ⟨{ c with st := st', saved := st'.fcd.status }, ?_,
    ⟨here, isam, rfl, standing'.columns, standing'.whole⟩, standing'⟩
  unfold Cmp.nextBd
  rw [read]
  rfl

/-- READ NEXT of the ISAM file. -/
theorem Copying.nextIsam (copying : Copying extfh st₀ c records bds (isam :: isams)) :
    Copying extfh st₀ (c.nextIsam extfh) records bds isams where
  walking := ⟨copying.walking.bd, copying.walking.isam.2.2.at, copying.walking.saved,
    copying.walking.columns, copying.walking.reclen⟩
  standing := copying.standing

/-- An update with the ISAM record in the record area, after which the walk is where it was. -/
theorem Copying.borrow (copying : Copying extfh st₀ c records bds isams)
    {op : State → Except Stop State} {held : Option (List Byte)} (area : c.isam.record = isam)
    (whole : isam.length = totalLen st₀.tab.columns)
    (updates : StandsFor st₀ (c.st.setRecord isam) records → ∃ st',
      op (c.st.setRecord isam) = .ok st' ∧ Puts st₀ (c.st.setRecord isam) st' records held) :
    ∃ c' records', c.borrow op true = .ok c' ∧ Copying extfh st₀ c' records' bds isams ∧
      ofList (st₀.tab.keyOf 0) records' =
        Function.update (ofList (st₀.tab.keyOf 0) records) (st₀.tab.keyOf 0 isam) held := by
  obtain ⟨walking, standing⟩ := copying
  obtain ⟨st', updated, records', kept, standing', store⟩ :=
    updates (standing.setArea c.st.fcd.status whole)
  have reads : ScanReads ((st'.setStatus c.saved).setRecord c.st.fcd.record) bds.tail :=
    (kept.reads (walking.reads.setArea c.st.fcd.status (whole.trans standing.whole.symm))).setArea
      c.saved (standing.whole.trans standing'.whole.symm)
  have back := standing'.setArea c.saved standing.whole
  refine ⟨{ c with st := (st'.setStatus c.saved).setRecord c.st.fcd.record }, records', ?_,
    ⟨⟨?_, walking.isam, rfl, back.columns, back.whole⟩, back⟩, store⟩
  · unfold Cmp.borrow
    rw [if_pos rfl, area, updated]
    rfl
  · have here := walking.bd
    cases bds with
    | nil => exact ⟨walking.saved ▸ here.1, reads⟩
    | cons bd bds => exact ⟨walking.saved.trans here.1, here.2.1, reads⟩

/-- A record of the database only is deleted. -/
theorem Copying.extra (copying : Copying extfh st₀ c records (bd :: bds) isams)
    (server : KeyedServer env.pg st₀.tab.relation st₀.tab.keys) (probe : KeyOk st₀.tab 0 bd)
    (present : ofList (st₀.tab.keyOf 0) records (st₀.tab.keyOf 0 bd) = some bd)
    (stack : ℕ → Byte) :
    ∃ c' records', c.extra (Updates.handler env) stack true = .ok c' ∧
      Copying extfh st₀ c' records' bds isams ∧ ofList (st₀.tab.keyOf 0) records' =
        Function.update (ofList (st₀.tab.keyOf 0) records) (st₀.tab.keyOf 0 bd) none := by
  obtain ⟨_, area, reads⟩ := copying.walking.bd
  rw [← area] at probe present ⊢
  obtain ⟨st', deleted, records', kept, standing, store⟩ :=
    copying.standing.delete probe present server
  have reads' : ScanReads (st'.setStatus c.saved) bds := (kept.reads reads).setArea c.saved rfl
  have standing' : StandsFor st₀ (st'.setStatus c.saved) records' :=
    standing.setArea c.saved standing.whole
  let removed : Cmp σ := { c.note (.onlyBd c.st.fcd.record) with st := st'.setStatus c.saved }
  obtain ⟨c', next, copying'⟩ :=
    @StandsFor.next σ extfh st₀ removed records' bds isams standing' reads' copying.walking.isam
      stack
  refine ⟨c', records', ?_, copying', store⟩
  unfold Cmp.extra Cmp.remove
  rw [if_pos rfl]
  change ((Updates.handler env).delete c.st >>= _) >>= _ = _
  rw [deleted]
  exact next

/-- A record of the ISAM file only is inserted. -/
theorem Copying.missing (copying : Copying extfh st₀ c records bds (isam :: isams))
    (server : KeyedServer env.pg st₀.tab.relation st₀.tab.keys) (storable : Storable st₀.tab isam)
    (whole : isam.length = totalLen st₀.tab.columns)
    (absent : ofList (st₀.tab.keyOf 0) records (st₀.tab.keyOf 0 isam) = none) :
    ∃ c' records', c.missing extfh (Updates.handler env) true = .ok c' ∧
      Copying extfh st₀ c' records' bds isams ∧ ofList (st₀.tab.keyOf 0) records' =
        Function.update (ofList (st₀.tab.keyOf 0) records) (st₀.tab.keyOf 0 isam) (some isam) := by
  have area : c.isam.record = isam := copying.walking.isam.2.1
  obtain ⟨c', records', borrowed, copying', store⟩ :=
    (copying.note (.onlyIsam isam)).borrow area whole
      fun standing => standing.write server storable absent
  refine ⟨c'.nextIsam extfh, records', ?_, copying'.nextIsam, store⟩
  unfold Cmp.missing
  rw [area, borrowed]
  rfl

/-- Of two records with one key, that of the ISAM file replaces the other unless `reccmp` takes
them for the same. -/
theorem Copying.sameKey (copying : Copying extfh st₀ c records (bd :: bds) (isam :: isams))
    (server : KeyedServer env.pg st₀.tab.relation st₀.tab.keys) (storable : Storable st₀.tab isam)
    (whole : isam.length = totalLen st₀.tab.columns)
    (present : ofList (st₀.tab.keyOf 0) records (st₀.tab.keyOf 0 isam) = some bd)
    (stack : ℕ → Byte) :
    ∃ c' records', c.sameKey extfh (Updates.handler env) stack true = .ok c' ∧
      Copying extfh st₀ c' records' bds isams ∧ ofList (st₀.tab.keyOf 0) records' =
        Function.update (ofList (st₀.tab.keyOf 0) records) (st₀.tab.keyOf 0 isam)
          (syncMatch st₀.tab.columns (.both bd isam) (some bd)) := by
  have area : c.isam.record = isam := copying.walking.isam.2.1
  have bdArea : c.st.fcd.record = bd := copying.walking.bd.2.1
  -- what is done about a difference, with the walk where it was
  obtain ⟨c₁, records', settled, copying₁, store⟩ : ∃ c₁ records',
      c.settle (Updates.handler env) true = .ok c₁ ∧
      Copying extfh st₀ c₁ records' (bd :: bds) (isam :: isams) ∧
      ofList (st₀.tab.keyOf 0) records' =
        Function.update (ofList (st₀.tab.keyOf 0) records) (st₀.tab.keyOf 0 isam)
          (syncMatch st₀.tab.columns (.both bd isam) (some bd)) := by
    unfold Cmp.settle
    rw [bdArea, area, copying.standing.columns]
    by_cases equal : reccmp bd isam st₀.tab.columns = .eq
    · have kept : syncMatch st₀.tab.columns (.both bd isam) (some bd) = some bd := if_pos equal
      refine ⟨c, records, if_neg (not_not.mpr equal), copying, ?_⟩
      rw [kept, ← present, Function.update_eq_self]
    · obtain ⟨c', records', borrowed, copying', store⟩ :=
        (copying.note (.differ bd isam)).borrow area whole
          fun standing => standing.rewrite server storable present
      have replaced : syncMatch st₀.tab.columns (.both bd isam) (some bd) = some isam :=
        if_neg equal
      refine ⟨c', records', (if_pos equal).trans borrowed, copying', ?_⟩
      rw [replaced]
      exact store
  obtain ⟨c₂, next, copying₂⟩ :=
    copying₁.standing.next copying₁.walking.bd.2.2 copying₁.walking.isam stack
  refine ⟨c₂.nextIsam extfh, records', ?_, copying₂.nextIsam, store⟩
  unfold Cmp.sameKey
  rw [settled, ok_bind, next]
  rfl

/-! ## Rounds -/

variable {places : List (ℕ × ℕ)}

/-- One round of SYNC. -/
theorem Copying.round (copying : Copying extfh st₀ c records bds isams)
    (server : KeyedServer env.pg st₀.tab.relation st₀.tab.keys)
    (placed : st₀.tab.keyOf 0 = keyAt places) (first : Increasing (keyAt places) bds)
    (second : Increasing (keyAt places) isams)
    (consistent : Consistent places (ofList (keyAt places) records) bds isams)
    (probes : ∀ bd ∈ bds, KeyOk st₀.tab 0 bd)
    (storable : ∀ isam ∈ isams, Storable st₀.tab isam ∧ isam.length = totalLen st₀.tab.columns)
    (stack : ℕ → Byte) (more : bds ≠ [] ∨ isams ≠ []) :
    ∃ c' records' passed bds' isams',
      cmpStep extfh (Updates.handler env) stack places true c = .ok c' ∧
      Copying extfh st₀ c' records' bds' isams' ∧ Round places bds isams passed bds' isams' ∧
      ofList (keyAt places) records' = Function.update (ofList (keyAt places) records)
        (passed.key (keyAt places) (keyAt places)) (syncMatch st₀.tab.columns passed
          (ofList (keyAt places) records (passed.key (keyAt places) (keyAt places)))) := by
  cases bds with
  | nil =>
      cases isams with
      | nil => simp at more
      | cons isam isams =>
          obtain ⟨storable, whole⟩ := storable isam List.mem_cons_self
          have absent := consistent.2 isam List.mem_cons_self (by simp)
          rw [← placed] at absent
          obtain ⟨c', records', stepped, copying', store⟩ :=
            copying.missing server storable whole absent
          rw [placed] at store
          refine ⟨c', records', .right isam, [], isams, ?_, copying',
            round_right first second (by simp), store⟩
          unfold cmpStep
          rw [if_neg copying.walking.bd.1]
          exact stepped
  | cons bd bds =>
      have probe := probes bd List.mem_cons_self
      have here := consistent.1 bd List.mem_cons_self
      obtain ⟨status, area, _⟩ := copying.walking.bd
      unfold cmpStep
      rw [if_pos status]
      cases isams with
      | nil =>
          obtain ⟨c', records', stepped, copying', store⟩ :=
            copying.extra server probe (by rw [placed]; exact here) stack
          rw [placed] at store
          rw [if_neg copying.walking.isam]
          exact ⟨c', records', .left bd, bds, [], stepped, copying',
            round_left first second (by simp), store⟩
      | cons isam isams =>
          obtain ⟨storable, whole⟩ := storable isam List.mem_cons_self
          obtain ⟨status', area', _⟩ := copying.walking.isam
          rw [if_pos status', area, area']
          rcases lt_trichotomy (keyAt places bd) (keyAt places isam) with smaller | same | larger
          · obtain ⟨c', records', stepped, copying', store⟩ :=
              copying.extra server probe (by rw [placed]; exact here) stack
            rw [placed] at store
            rw [memcmp, if_neg smaller.ne, if_pos smaller]
            exact ⟨c', records', .left bd, bds, isam :: isams, stepped, copying',
              round_left first second (below_all second smaller), store⟩
          · obtain ⟨c', records', stepped, copying', store⟩ :=
              copying.sameKey server storable whole (by rw [placed, ← same]; exact here) stack
            rw [placed, ← same] at store
            rw [memcmp_eq_iff.mpr same]
            refine ⟨c', records', .both bd isam, bds, isams, stepped, copying',
              round_both first second same, ?_⟩
            rw [store, ← here]
            rfl
          · have apart : ∀ other ∈ bd :: bds, keyAt places other ≠ keyAt places isam :=
              fun other member => (below_all first larger other member).ne'
            have absent := consistent.2 isam List.mem_cons_self apart
            rw [← placed] at absent
            obtain ⟨c', records', stepped, copying', store⟩ :=
              copying.missing server storable whole absent
            rw [placed] at store
            rw [memcmp, if_neg larger.ne', if_neg larger.le.not_gt]
            exact ⟨c', records', .right isam, bd :: bds, isams, stepped, copying',
              round_right first second (below_all first larger), store⟩

/-- The walk of SYNC comes to an end, and changes the records as they are aligned. -/
theorem Copying.loop (server : KeyedServer env.pg st₀.tab.relation st₀.tab.keys)
    (placed : st₀.tab.keyOf 0 = keyAt places) (scratch : ℕ → ℕ → Byte) :
    ∀ (fuel : ℕ) {c : Cmp σ} {records bds isams : List (List Byte)},
      Copying extfh st₀ c records bds isams → Increasing (keyAt places) bds →
      Increasing (keyAt places) isams →
      Consistent places (ofList (keyAt places) records) bds isams →
      (∀ bd ∈ bds, KeyOk st₀.tab 0 bd) →
      (∀ isam ∈ isams, Storable st₀.tab isam ∧ isam.length = totalLen st₀.tab.columns) →
      bds.length + isams.length < fuel →
      ∃ c' records', cmpLoop extfh (Updates.handler env) scratch places true fuel c = .ok c' ∧
        StandsFor st₀ c'.st records' ∧ ofList (keyAt places) records' =
          changeAll (Match.key (keyAt places) (keyAt places)) (syncMatch st₀.tab.columns)
            (align (keyAt places) (keyAt places) bds isams) (ofList (keyAt places) records) := by
  intro fuel
  induction fuel with
  | zero => intro c records bds isams _ _ _ _ _ _ enough; omega
  | succ fuel ih =>
      intro c records bds isams copying first second consistent probes storable enough
      by_cases more : bds ≠ [] ∨ isams ≠ []
      · obtain ⟨c₁, records₁, passed, bds', isams', stepped, copying', round, store⟩ :=
          copying.round server placed first second consistent probes storable (scratch fuel) more
        have off : ∀ key, key ≠ passed.key (keyAt places) (keyAt places) →
            ofList (keyAt places) records₁ key = ofList (keyAt places) records key := by
          intro key other
          rw [store, Function.update_of_ne other]
        have shorter := round.shorter
        obtain ⟨c', records', looped, standing, store'⟩ := ih copying' round.increasingBds
          round.increasingIsams
          (consistent.pass off round.leftBds round.leftIsams round.gone)
          (fun bd member => probes bd (round.leftBds bd member).1)
          (fun isam member => storable isam (round.leftIsams isam member).1) (by omega)
        refine ⟨c', records', ?_, standing, ?_⟩
        · have running : c.st.fcd.status = stOk ∨ c.isam.status = stOk := by
            rcases more with more | more
            · obtain ⟨bd, rest, rfl⟩ := List.exists_cons_of_ne_nil more
              exact Or.inl copying.walking.bd.1
            · obtain ⟨isam, rest, rfl⟩ := List.exists_cons_of_ne_nil more
              exact Or.inr copying.walking.isam.1
          unfold cmpLoop
          rw [if_pos running, stepped]
          exact looped
        · rw [store', store, round.aligned]
          rfl
      · rw [not_or, not_not, not_not] at more
        obtain ⟨rfl, rfl⟩ := more
        refine ⟨c, records, ?_, copying.standing, by rw [align]; rfl⟩
        have ended : ¬ (c.st.fcd.status = stOk ∨ c.isam.status = stOk) :=
          not_or.mpr ⟨copying.walking.bd.1, copying.walking.isam⟩
        unfold cmpLoop
        rw [if_neg ended]

end Walk

/-! ## The records afterwards -/

/-- Records that are full are the same when `reccmp` takes them for the same and the second has no
NUL in a text and no NUL or blank in a number. -/
theorem eq_of_reccmp {cols : List Column} {bd isam : List Byte} (laid : Contiguous 0 cols)
    (full : bd.length = totalLen cols) (isamOf : RecordOf cols isam)
    (same : reccmp bd isam cols = .eq) : bd = isam := by
  have fields : ∀ col ∈ cols,
      slice bd col.offset col.len = slice isam col.offset col.len := by
    intro col member
    rcases colcmp_eq_iff.mp (reccmp_eq_iff.mp same col member) with equal | normalised
    · exact equal.symm
    · rw [isamField_of_ok (isamOf.wellFormed col member)] at normalised
      exact normalised.symm
  have taken := laid.ext fields
  rwa [List.take_of_length_le full.le, List.take_of_length_le isamOf.full.le] at taken

/-- A table that SYNC has brought into line has the records of the ISAM file. -/
theorem Synced.eq_ofList {places : List (ℕ × ℕ)} {cols : List Column} {bds isams : List (List Byte)}
    {held : List Byte → Option (List Byte)} (laid : Contiguous 0 cols)
    (synced : Synced places (byColumns cols) bds isams held)
    (full : ∀ bd ∈ bds, bd.length = totalLen cols) (isamOf : ∀ isam ∈ isams, RecordOf cols isam)
    (distinct : (isams.map (keyAt places)).Nodup) : held = ofList (keyAt places) isams := by
  funext key
  by_cases there : ∃ isam ∈ isams, keyAt places isam = key
  · obtain ⟨isam, member, rfl⟩ := there
    rw [(ofList_eq_some_iff distinct).mpr ⟨member, rfl⟩]
    by_cases both : ∃ bd ∈ bds, keyAt places bd = keyAt places isam
    · obtain ⟨bd, present, same⟩ := both
      by_cases equal : reccmp bd isam cols = .eq
      · rw [synced.kept bd present isam member same equal,
          eq_of_reccmp laid (full bd present) (isamOf isam member) equal]
      · exact synced.replaced bd present isam member same equal
    · exact synced.inserted isam member fun bd present same => both ⟨bd, present, same⟩
  · have apart : ∀ isam ∈ isams, keyAt places isam ≠ key :=
      fun isam member same => there ⟨isam, member, same⟩
    rw [synced.removed key apart, ofList_eq_none_iff.mpr apart]

/-- A call of SYNC: the open table stands for records, which a START from low values delivers as
`bds`, and the ISAM file gives the records `isams`, which the table can keep, both in increasing
order of key 0, which is the primary key of the table. No scan is in progress. -/
structure TableSync (σ : Type) where
  extfh : Extfh σ
  env : Env
  garbage : Garbage
  scratch : ℕ → ℕ → Byte
  area : List Byte
  files : σ
  st : State
  places : List (ℕ × ℕ)
  records : List (List Byte)
  bds : List (List Byte)
  isams : List (List Byte)
  database : st.fcd.isam = false
  placed : checkedPlaces st.fcd.kdb st.fcd.record.length = .ok places
  keyPlaces : st.tab.keyOf 0 = keyAt places
  primary : st.fcd.keyId = 0
  whole : st.fcd.record.length = totalLen st.tab.columns
  keyed : KeyedState st records
  server : KeyedServer env.pg st.tab.relation st.tab.keys
  scannable : Scannable env .ge (st.setRecord (List.replicate st.fcd.record.length 0)) bds
  delivered : bds.Perm records
  probes : ∀ record ∈ records, KeyOk st.tab 0 record
  increasingBds : Increasing (keyAt places) bds
  increasingIsams : Increasing (keyAt places) isams
  storable : ∀ isam ∈ isams, Storable st.tab isam ∧ isam.length = totalLen st.tab.columns
  reads :
    let opened := extfh (.openFile .input) files (isamFcd st.fcd area)
    let started := extfh (.start .gt) opened.1
      { opened.2 with record := List.replicate st.fcd.record.length 0 }
    IsamReads extfh started.1 started.2 isams

/-- The call. -/
def TableSync.run (call : TableSync σ) (fuel : ℕ) : Except Stop (Option (Cmp σ)) :=
  cmpTable call.extfh call.env (Updates.handler call.env) false call.garbage call.scratch true
    call.area fuel call.files call.st

/-- The walk of SYNC up to its loop. -/
theorem TableSync.run_loop (call : TableSync σ) (fuel : ℕ) :
    ∃ c, call.run fuel = some <$> cmpLoop call.extfh (Updates.handler call.env) call.scratch
        call.places true fuel c ∧
      Copying call.extfh call.st c call.records call.bds call.isams := by
  have blank : (List.replicate call.st.fcd.record.length (0 : Byte)).length =
      totalLen call.st.tab.columns := by
    rw [List.length_replicate, call.whole]
  have before : StandsFor call.st call.st call.records :=
    ⟨call.keyed, rfl, rfl, rfl, call.primary, call.whole, fun _ _ => rfl⟩
  obtain ⟨started, st', start, read, here, same⟩ := opStart_fresh call.scannable
    call.garbage.stack call.garbage.inner call.garbage.stack
  let fresh := call.st.setRecord (List.replicate call.st.fcd.record.length 0)
  have statements : SameStatements fresh started := by
    rcases opStart_prepares start with ⟨_, statements⟩ | ⟨probed, _⟩
    · exact statements
    · cases probed
  have next := (opNextPrev_same read).1
  have standing := (before.setArea call.st.fcd.status blank).scanned same
    ⟨next.1.trans statements.1, next.2.trans statements.2⟩
    ((opNextPrev_bufs read).trans (opStart_bufs start)) here.reads
  let opened := call.extfh (.openFile .input) call.files (isamFcd call.st.fcd call.area)
  let isam := call.extfh (.start .gt) opened.1
    { opened.2 with record := List.replicate call.st.fcd.record.length 0 }
  let first := call.extfh .readNext isam.1 isam.2
  refine ⟨⟨st', first.1, first.2, st'.fcd.status, []⟩, ?_,
    ⟨⟨here, IsamReads.at call.reads, rfl, standing.columns, standing.whole⟩, standing⟩⟩
  unfold TableSync.run cmpTable
  rw [if_neg (by rw [call.database]; exact Bool.false_ne_true), call.placed]
  change (opStart call.env false call.garbage.stack call.garbage.inner .ge
    (call.st.setRecord (List.replicate call.st.fcd.record.length 0)) >>= _) = _
  rw [start]
  change (opNextPrev call.garbage.stack .n started >>= _) = _
  rw [show opNextPrev call.garbage.stack .n started = .ok st' from read]
  rfl

/-- **SYNC.** When the table can keep the records of the native file, SYNC returns; the table has
exactly these records then, in some order, and the other tables what they had. -/
theorem sync_copies (call : TableSync σ) (fuel : ℕ)
    (enough : call.bds.length + call.isams.length < fuel) :
    ∃ c records', call.run fuel = .ok (some c) ∧ StandsFor call.st c.st records' ∧
      records'.Perm call.isams := by
  have laid := call.keyed.table.laid
  have isamOf : ∀ isam ∈ call.isams, RecordOf call.st.tab.columns isam := fun isam member =>
    ⟨(call.storable isam member).2, (call.storable isam member).1.wellFormed⟩
  have distinct : (call.isams.map (keyAt call.places)).Nodup :=
    List.pairwise_map.mpr (call.increasingIsams.imp fun smaller => smaller.ne)
  have held := call.keyed.distinct
  rw [call.keyPlaces] at held
  have present : ∀ bd ∈ call.bds,
      ofList (keyAt call.places) call.records (keyAt call.places bd) = some bd :=
    fun bd member => (ofList_eq_some_iff held).mpr ⟨call.delivered.mem_iff.mp member, rfl⟩
  have absent : ∀ key, (∀ bd ∈ call.bds, keyAt call.places bd ≠ key) →
      ofList (keyAt call.places) call.records key = none :=
    fun key apart => ofList_eq_none_iff.mpr fun record member =>
      apart record (call.delivered.mem_iff.mpr member)
  obtain ⟨c, run, copying⟩ := call.run_loop fuel
  obtain ⟨c', records', looped, standing, store⟩ := Copying.loop call.server call.keyPlaces
    call.scratch fuel copying call.increasingBds call.increasingIsams
    ⟨present, fun isam _ apart => absent _ apart⟩
    (fun bd member => call.probes bd (call.delivered.mem_iff.mp member)) call.storable enough
  have synced := @synced_align call.places call.st.tab.columns _ _ _ call.increasingBds
    call.increasingIsams present absent
  rw [← store] at synced
  have same := synced.eq_ofList laid
    (fun bd member => (call.keyed.recordOf bd (call.delivered.mem_iff.mp member)).full) isamOf
    distinct
  refine ⟨c', records', by rw [run, looped]; rfl, standing, perm_of_ofList ?_ distinct same⟩
  rw [← call.keyPlaces, ← standing.keyOf]
  exact standing.keyed.distinct

/-! ## A small file -/

/-- The table of notes, with buffers for its parameters. -/
def keptNotes : State := notes.setBufs (clearBuffers maxCols).bufs

/-- The buffers say nothing about a START. -/
theorem Scannable.setBufs {env : Env} {op : Comparison} {st : State} {records : List (List Byte)}
    (scannable : Scannable env op st records) (bufs : List Byte) :
    Scannable env op (st.setBufs bufs) records where
  opened := scannable.opened
  live := scannable.live
  plain := scannable.plain
  forgotten := scannable.forgotten
  closed := scannable.closed
  free := scannable.free
  key := fun area whole => by
    rw [getkbuf_congr rfl rfl]
    exact scannable.key area whole
  found := by
    obtain ⟨tokens, order, rows, found, written, present, query, decodes⟩ := scannable.found
    refine ⟨tokens, order, rows, found, ?_, present, query, decodes⟩
    rw [← written]
    exact @getwhere_congr st.tab (st.setBufs bufs).tab rfl rfl rfl rfl env _ _ op false

theorem keptNotes_keyed : KeyedState keptNotes [[67, 90], [65, 88], [66, 89]] where
  table :=
    { laid := by decide
      few := by decide
      short := by decide
      size := List.length_replicate
      count := by decide
      primary := by decide
      keys := by decide
      once := by decide
      flags := by decide
      whole := by decide
      prepared := nofun }
  opened := by decide
  room := by decide
  running := rfl
  present := by
    have rows : ([[67, 90], [65, 88], [66, 89]] : List (List Byte)).map (rowOf noteColumns) =
        [noteRow [67, 90], noteRow [65, 88], noteRow [66, 89]] := by decide +kernel
    exact congrArg some rows.symm
  recordOf := by
    have recordOf : ∀ record ∈ ([[67, 90], [65, 88], [66, 89]] : List (List Byte)),
        record.length = totalLen noteColumns ∧ RecordOk noteColumns record := by decide +kernel
    exact fun record member => ⟨(recordOf record member).1, (recordOf record member).2⟩
  distinct := by decide

/-- SYNC of the table of notes and the file `a`. -/
def notesSync : TableSync (List Byte → List (List Byte)) where
  extfh := namedFiles twoFiles
  env := plainServer
  garbage := notesCmp.garbage
  scratch := fun _ _ => 0
  area := [0, 0]
  files := fun _ => []
  st := keptNotes
  places := [(0, 1)]
  records := [[67, 90], [65, 88], [66, 89]]
  bds := [[65, 88], [66, 89], [67, 90]]
  isams := [[65, 88], [66, 81], [68, 87]]
  database := rfl
  placed := notesCmp.placed
  keyPlaces := rfl
  primary := rfl
  whole := rfl
  keyed := keptNotes_keyed
  server := ⟨fun _ _ _ _ _ _ => rfl, fun _ _ => rfl⟩
  scannable := notes_scannable.setBufs (clearBuffers maxCols).bufs
  delivered := by decide +kernel
  probes := by decide +kernel
  increasingBds := notesCmp.increasingBds
  increasingIsams := notesCmp.increasingIsams
  storable := by decide +kernel
  reads := notesCmp.reads

/-- The table of notes has the three records of the file `a` after it. -/
theorem sync_copies_notes :
    ∃ c records', notesSync.run 7 = .ok (some c) ∧ StandsFor keptNotes c.st records' ∧
      records'.Perm [[65, 88], [66, 81], [68, 87]] :=
  sync_copies notesSync 7 (by decide)

end Pqfh
