import Pqfh.Handler.Scan

/-! # What a scan reads

A cursor keeps the rows that its query found. While nothing stands in the way of a fetch
(`Pqfh.ScanReads`), each READ gives the record of the next row, and then the end of the file
(`Pqfh.opNextPrev_reads`, `Pqfh.opNextPrev_ends`). A START without the shortcut gets a scan into
this state (`Pqfh.opStart_fresh`).
-/

namespace Pqfh

/-- A row is read as a record, whatever stands in the record area before. -/
def Decodes (cols : List Column) (reclen : ℕ) (row : Row) (record : List Byte) : Prop :=
  record.length = reclen ∧
    ∀ area : List Byte, area.length = reclen → pq2cob cols row area = .ok record

/-- A scan that has these records still to give. -/
structure ScanReads (st : State) (records : List (List Byte)) : Prop where
  opened : st.fcd.openMode ≠ 128
  past : st.tab.first = false
  going : st.eofStart = false
  plain : st.tab.restart = none
  live : st.conn.aborted = false
  key : ∀ area : List Byte, area.length = st.fcd.record.length →
    ∃ kbuf, getkbuf st.tab st.fcd.keyId area = .ok kbuf
  cursor : ∃ rows held, st.conn.cursors st.tab.handle = some ⟨rows, held⟩ ∧
    List.Forall₂ (Decodes st.tab.columns st.fcd.record.length) rows records

/-- What reading leaves alone. -/
structure ScanSame (st st' : State) : Prop where
  working : st'.conn.working = st.conn.working
  relation : st'.tab.relation = st.tab.relation
  columns : st'.tab.columns = st.tab.columns
  keyId : st'.fcd.keyId = st.fcd.keyId
  reclen : st'.fcd.record.length = st.fcd.record.length

theorem ScanSame.trans {first second third : State} (one : ScanSame first second)
    (two : ScanSame second third) : ScanSame first third :=
  ⟨two.working.trans one.working, two.relation.trans one.relation,
    two.columns.trans one.columns, two.keyId.trans one.keyId, two.reclen.trans one.reclen⟩

def Table.recAt (tab : Table) : Dir → List Byte
  | .n => tab.recNext
  | .p => tab.recPrev

/-- What `fetchNextPrev` comes to: the cursor has no row, or one that is read. -/
inductive FetchesNext (stack : ℕ → Byte) (dir : Dir) (st : State) : State → Prop
  | ended (none : (st.conn.fetch st.tab.handle).2 = none) :
      FetchesNext stack dir st ((st.setConn (st.conn.fetch st.tab.handle).1).setStatus stEof)
  | read {row : Row} {record kbuf : List Byte}
      (found : (st.conn.fetch st.tab.handle).2 = some row)
      (decoded : pq2cob st.tab.columns row st.fcd.record = .ok record)
      (built : getkbuf st.tab st.fcd.keyId record = .ok kbuf) :
      FetchesNext stack dir st ((((st.setConn (st.conn.fetch st.tab.handle).1).setRecord
        record).setStatus stOk).remember dir (stackCopy stack kbuf))

theorem fetchNextPrev_iff {stack : ℕ → Byte} {dir : Dir} {st st' : State} :
    fetchNextPrev stack dir st = .ok st' ↔ FetchesNext stack dir st st' := by
  unfold fetchNextPrev
  dsimp only
  constructor
  · intro fetched
    split at fetched
    · rename_i none
      cases fetched
      exact .ended none
    · rename_i row found
      obtain ⟨record, decoded, fetched⟩ := bind_eq_ok.mp fetched
      obtain ⟨kbuf, built, fetched⟩ := bind_eq_ok.mp fetched
      cases fetched
      exact .read found decoded built
  · intro fetches
    cases fetches with
    | ended none => simp only [none]; rfl
    | read found decoded built =>
        simp only [found]
        exact bind_eq_ok.mpr ⟨_, decoded, bind_eq_ok.mpr ⟨_, built, rfl⟩⟩

/-- What `opNextPrev` comes to: the file is not open, the row of the START is given out, the START
has found nothing, the row remembered is given once more, or the cursor is asked. -/
inductive ReadsNextPrev (stack : ℕ → Byte) (dir : Dir) (st : State) : State → Prop
  | closed (closed : st.fcd.openMode = 128) :
      ReadsNextPrev stack dir st (st.setStatus stNotOpenedRead)
  | first (opened : st.fcd.openMode ≠ 128) (first : st.tab.first = true) :
      ReadsNextPrev stack dir st
        ({ st with tab := { st.tab with first := false } }.setStatus stOk)
  | nothing (opened : st.fcd.openMode ≠ 128) (past : st.tab.first = false)
      (nothing : st.eofStart = true) : ReadsNextPrev stack dir st (st.setStatus stEof)
  | again (opened : st.fcd.openMode ≠ 128) (past : st.tab.first = false)
      (going : st.eofStart = false) (again : st.tab.restart = some dir) :
      ReadsNextPrev stack dir st (({ st with tab := { st.tab with restart := none } }.setRecord
        (st.tab.recAt dir)).setStatus stOk)
  | fetched {st' : State} (opened : st.fcd.openMode ≠ 128) (past : st.tab.first = false)
      (going : st.eofStart = false) (other : st.tab.restart ≠ some dir)
      (fetched : fetchNextPrev stack dir { st with tab := { st.tab with restart := none } } =
        .ok st') : ReadsNextPrev stack dir st st'

/-- A READ that neither gives out the row of START nor repeats one goes to the cursor. -/
theorem opNextPrev_forgets {st : State} {dir : Dir} (opened : st.fcd.openMode ≠ 128)
    (past : st.tab.first = false) (going : st.eofStart = false)
    (other : st.tab.restart ≠ some dir) (stack : ℕ → Byte) :
    opNextPrev stack dir st =
      fetchNextPrev stack dir { st with tab := { st.tab with restart := none } } := by
  unfold opNextPrev
  rw [if_neg opened, if_neg (by rw [past]; exact Bool.false_ne_true),
    if_neg (by rw [going]; exact Bool.false_ne_true), if_neg other]

theorem opNextPrev_again {st : State} {dir : Dir} (opened : st.fcd.openMode ≠ 128)
    (past : st.tab.first = false) (going : st.eofStart = false)
    (again : st.tab.restart = some dir) (stack : ℕ → Byte) :
    opNextPrev stack dir st = .ok (({ st with tab := { st.tab with restart := none } }.setRecord
      (st.tab.recAt dir)).setStatus stOk) := by
  unfold opNextPrev
  rw [if_neg opened, if_neg (by rw [past]; exact Bool.false_ne_true),
    if_neg (by rw [going]; exact Bool.false_ne_true), if_pos again]
  cases dir <;> rfl

theorem opNextPrev_iff {stack : ℕ → Byte} {dir : Dir} {st st' : State} :
    opNextPrev stack dir st = .ok st' ↔ ReadsNextPrev stack dir st st' := by
  constructor
  · intro read
    by_cases closed : st.fcd.openMode = 128
    · obtain rfl := Except.ok.inj ((if_pos closed).symm.trans read)
      exact .closed closed
    cases first : st.tab.first with
    | true =>
        obtain rfl := Except.ok.inj (((if_neg closed).trans (if_pos first)).symm.trans read)
        exact .first closed first
    | false =>
        have past : ¬ st.tab.first = true := Bool.eq_false_iff.mp first
        cases nothing : st.eofStart with
        | true =>
            obtain rfl := Except.ok.inj
              (((if_neg closed).trans ((if_neg past).trans (if_pos nothing))).symm.trans read)
            exact .nothing closed first nothing
        | false =>
            by_cases again : st.tab.restart = some dir
            · obtain rfl :=
                Except.ok.inj ((opNextPrev_again closed first nothing again stack).symm.trans read)
              exact .again closed first nothing again
            · rw [opNextPrev_forgets closed first nothing again] at read
              exact .fetched closed first nothing again read
  · intro reads
    cases reads with
    | closed closed => exact if_pos closed
    | first opened first => exact (if_neg opened).trans (if_pos first)
    | nothing opened past nothing =>
        exact (if_neg opened).trans ((if_neg (Bool.eq_false_iff.mp past)).trans (if_pos nothing))
    | again opened past going again => exact opNextPrev_again opened past going again stack
    | fetched opened past going other fetched =>
        rw [opNextPrev_forgets opened past going other]
        exact fetched

/-- A scan that has records still to give, and is about to fetch. -/
theorem opNextPrev_fetches {st : State} {records : List (List Byte)} (reads : ScanReads st records)
    (stack : ℕ → Byte) (dir : Dir) : opNextPrev stack dir st = fetchNextPrev stack dir st := by
  have same : { st with tab := { st.tab with restart := none } } = st := by
    have plain := reads.plain
    cases st with
    | mk conn pending eof tab fcd =>
        cases tab
        cases plain
        rfl
  have plain : st.tab.restart ≠ some dir := by
    rw [reads.plain]
    exact nofun
  rw [opNextPrev_forgets reads.opened reads.past reads.going plain, same]

/-- What remembering a row leaves alone. -/
theorem State.remember_kept (dir : Dir) (kbuf : List Byte) (st : State) :
    (st.remember dir kbuf).conn = st.conn ∧ (st.remember dir kbuf).fcd = st.fcd ∧
      (st.remember dir kbuf).eofStart = st.eofStart ∧
      (st.remember dir kbuf).tab.first = st.tab.first ∧
      (st.remember dir kbuf).tab.restart = st.tab.restart ∧
      (st.remember dir kbuf).tab.handle = st.tab.handle ∧
      (st.remember dir kbuf).tab.relation = st.tab.relation ∧
      (st.remember dir kbuf).tab.columns = st.tab.columns ∧
      (st.remember dir kbuf).tab.keys = st.tab.keys := by
  cases dir <;> exact ⟨rfl, rfl, rfl, rfl, rfl, rfl, rfl, rfl, rfl⟩

theorem Table.column_congr {tab tab' : Table} (columns : tab'.columns = tab.columns) :
    tab'.column = tab.column := by
  funext i
  rw [Table.column, columns, Table.column]

theorem getkbuf_congr {tab tab' : Table} (keys : tab'.keys = tab.keys)
    (columns : tab'.columns = tab.columns) (keyid : ℕ) (record : List Byte) :
    getkbuf tab' keyid record = getkbuf tab keyid record := by
  unfold getkbuf
  rw [keys, Table.column_congr columns]

/-- The condition of a START depends on the columns of the table. -/
theorem adicionaComp_congr {tab tab' : Table} (columns : tab'.columns = tab.columns)
    (record : List Byte) (partialKey : ℕ) (weak : Bool) (ncols : ℕ) :
    ∀ (cols : List ℕ) (op : Comparison) (c : ℕ),
      adicionaComp tab' record partialKey weak ncols op c cols =
        adicionaComp tab record partialKey weak ncols op c cols := by
  have literal : ∀ i, startLiteral tab' record i = startLiteral tab record i := by
    intro i
    rw [startLiteral, Table.column_congr columns, startLiteral]
  have size : ∀ tokens, wordsSize tab' tokens = wordsSize tab tokens := by
    intro tokens
    unfold wordsSize
    congr 1
    apply List.map_congr_left
    intro token _
    cases token <;> simp only [Token.size, Table.column_congr columns]
  intro cols
  induction cols with
  | nil => intro op c; rfl
  | cons i rest ih =>
      intro op c
      simp only [adicionaComp, literal, size, ih]

theorem getwhere_congr {tab tab' : Table} (columns : tab'.columns = tab.columns)
    (keys : tab'.keys = tab.keys) (name : tab'.name = tab.name)
    (partialKey : tab'.partialKey = tab.partialKey) (env : Env) (record : List Byte) (keyid : ℕ)
    (op : Comparison) (weak : Bool) :
    getwhere env tab' record keyid op weak = getwhere env tab record keyid op weak := by
  have size : ∀ order, orderSize tab' order = orderSize tab order := by
    intro order
    rw [orderSize, Table.column_congr columns, orderSize]
  have sameKey : partialColumns env tab' keyid = partialColumns env tab keyid := by
    rw [partialColumns, name, partialKey, partialColumns]
  unfold getwhere
  simp only [keys, adicionaComp_congr columns, size, sameKey]

/-- Each READ gives the next record. -/
theorem opNextPrev_reads {st : State} {record : List Byte} {records : List (List Byte)}
    (reads : ScanReads st (record :: records)) (stack : ℕ → Byte) (dir : Dir) :
    ∃ st', opNextPrev stack dir st = .ok st' ∧ st'.fcd.status = stOk ∧ st'.fcd.record = record ∧
      ScanReads st' records ∧ ScanSame st st' := by
  obtain ⟨rows, held, present, decoded⟩ := reads.cursor
  cases decoded with
  | @cons row _ rows _ decodes decoded =>
      obtain ⟨length, decodes⟩ := decodes
      obtain ⟨kbuf, key⟩ := reads.key record length
      have fetched : st.conn.fetch st.tab.handle =
          (st.conn.setCursor st.tab.handle (some ⟨rows, held⟩), some row) := by
        simp only [Conn.fetch, reads.live, Bool.false_eq_true, ↓reduceIte, present]
      let next := ((st.setConn (st.conn.setCursor st.tab.handle (some ⟨rows, held⟩))).setRecord
        record).setStatus stOk
      have ended : opNextPrev stack dir st = .ok (next.remember dir (stackCopy stack kbuf)) := by
        rw [opNextPrev_fetches reads, fetchNextPrev, fetched]
        simp only [State.setConn, decodes st.fcd.record rfl, ok_bind]
        change (getkbuf st.tab st.fcd.keyId record >>= fun key =>
          pure (next.remember dir (stackCopy stack key))) = _
        rw [key]
        rfl
      obtain ⟨conn, fcd, eof, first, restart, handle, relation, columns, keys⟩ :=
        next.remember_kept dir (stackCopy stack kbuf)
      refine ⟨_, ended, by rw [fcd]; rfl, by rw [fcd]; rfl, ?_, ?_⟩
      · refine ⟨by rw [fcd]; exact reads.opened, first.trans reads.past, eof.trans reads.going,
          restart.trans reads.plain, by rw [conn]; exact reads.live, ?_, rows, held, ?_, ?_⟩
        · intro area whole
          rw [getkbuf_congr keys columns, fcd]
          rw [fcd] at whole
          exact reads.key area (whole.trans length)
        · rw [conn, handle]
          exact Function.update_self ..
        · rw [columns, fcd]
          change List.Forall₂ (Decodes st.tab.columns record.length) rows records
          rw [length]
          exact decoded
      · refine ⟨by rw [conn]; rfl, relation, columns, by rw [fcd]; rfl, ?_⟩
        rw [fcd]
        exact length

/-- After the last record comes the end of the file. -/
theorem opNextPrev_ends {st : State} (reads : ScanReads st []) (stack : ℕ → Byte) (dir : Dir) :
    opNextPrev stack dir st = .ok (st.setStatus stEof) := by
  obtain ⟨rows, held, present, decoded⟩ := reads.cursor
  cases decoded
  have fetched : st.conn.fetch st.tab.handle = (st.conn, none) := by
    simp only [Conn.fetch, reads.live, Bool.false_eq_true, ↓reduceIte, present]
  rw [opNextPrev_fetches reads, fetchNextPrev, fetched]
  rfl

/-- Where a scan is after a READ: at a record, with others still to give, or past the last. -/
def AtRecord (st : State) : List (List Byte) → Prop
  | [] => st.fcd.status ≠ stOk ∧ ScanReads st []
  | record :: records => st.fcd.status = stOk ∧ st.fcd.record = record ∧ ScanReads st records

/-- A READ goes on to the next record, or past the last. -/
theorem opNextPrev_at {st : State} {records : List (List Byte)} (reads : ScanReads st records)
    (stack : ℕ → Byte) (dir : Dir) :
    ∃ st', opNextPrev stack dir st = .ok st' ∧ AtRecord st' records ∧ ScanSame st st' := by
  cases records with
  | nil =>
      have ended : ScanReads (st.setStatus stEof) [] :=
        ⟨reads.opened, reads.past, reads.going, reads.plain, reads.live, reads.key, reads.cursor⟩
      exact ⟨_, opNextPrev_ends reads stack dir, ⟨(by decide : stEof ≠ stOk), ended⟩, rfl, rfl, rfl,
        rfl, rfl⟩
  | cons record records =>
      obtain ⟨st', read, status, area, reads', same⟩ := opNextPrev_reads reads stack dir
      exact ⟨st', read, ⟨status, area, reads'⟩, same⟩

/-! ## START -/

/-- A table on which no scan is in progress, and the records that the query of a START finds, in
their order. -/
structure Scannable (env : Env) (op : Comparison) (st : State) (records : List (List Byte)) :
    Prop where
  opened : st.fcd.openMode ≠ 128
  live : st.conn.aborted = false
  plain : st.tab.restart = none
  forgotten : match op.dir with
    | .n => st.tab.keyNext = none
    | .p => st.tab.keyPrev = none
  closed : st.tab.cursor = false
  free : st.conn.cursors st.tab.handle = none
  key : ∀ area : List Byte, area.length = st.fcd.record.length →
    ∃ kbuf, getkbuf st.tab st.fcd.keyId area = .ok kbuf
  found : ∃ tokens order rows found,
    getwhere env st.tab st.fcd.record st.fcd.keyId op false = .ok (tokens, order) ∧
    st.conn.working st.tab.relation = some rows ∧ env.pg.query tokens order rows = some found ∧
    List.Forall₂ (Decodes st.tab.columns st.fcd.record.length) found records

/-- START on a table without a scan, and the READ after it. -/
theorem opStart_fresh {env : Env} {op : Comparison} {st : State} {records : List (List Byte)}
    (scannable : Scannable env op st records) (stack inner outer : ℕ → Byte) :
    ∃ started st', opStart env false stack inner op st = .ok started ∧
      opNextPrev outer op.dir started = .ok st' ∧ AtRecord st' records ∧ ScanSame st st' := by
  obtain ⟨tokens, order, rows, found, condition, table, query, decoded⟩ := scannable.found
  obtain ⟨kbuf, key⟩ := scannable.key st.fcd.record rfl
  -- the state in which the first row is fetched
  let st₁ : State := { st with eofStart := false, tab := { st.tab with cursor := true } }
  let conn := st.conn.setCursor st.tab.handle (some ⟨found, false⟩)
  let st₂ : State := { st₁.setConn conn with tab := match op.dir with
    | .n => { st₁.tab with first := false, keyNext := some st.fcd.keyId }
    | .p => { st₁.tab with first := false, keyPrev := some st.fcd.keyId } }
  have kept : st₂.tab.first = false ∧ st₂.tab.restart = st.tab.restart ∧
      st₂.tab.handle = st.tab.handle ∧ st₂.tab.relation = st.tab.relation ∧
      st₂.tab.columns = st.tab.columns ∧ st₂.tab.keys = st.tab.keys := by
    dsimp only [st₂]
    cases op.dir <;> exact ⟨rfl, rfl, rfl, rfl, rfl, rfl⟩
  obtain ⟨past, restart, handle, relation, columns, keys⟩ := kept
  have same₂ : ScanSame st st₂ := ⟨rfl, relation, columns, rfl, rfl⟩
  have reads : ScanReads st₂ records := by
    refine ⟨scannable.opened, past, rfl, restart.trans scannable.plain, scannable.live, ?_, found,
      false, ?_, ?_⟩
    · intro area whole
      rw [getkbuf_congr keys columns]
      exact scannable.key area whole
    · rw [handle]
      exact Function.update_self ..
    · rw [columns]
      exact decoded
  have fresh : shortcut op (stackCopy stack kbuf) { st with eofStart := false } = false := by
    have forgotten := scannable.forgotten
    unfold shortcut
    cases dir : op.dir <;> rw [dir] at forgotten <;> simp [forgotten]
  have declared : declareScan env false inner op { st with eofStart := false } = (do
      let st ← opNextPrev inner op.dir st₂
      if st.fcd.status = stEof then
        return { st with tab := { st.tab with first := false } }.setStatus stRecNotFound
      else return { st with tab := { st.tab with first := true } }) := by
    have cursor : (st.conn.declare env.pg st.tab.handle st.tab.relation tokens order) =
        (conn, true) := by
      simp only [Conn.declare, scannable.live, Bool.false_eq_true, ↓reduceIte, scannable.free,
        table, Option.bind_some, query, conn]
    have closed : ({ st with eofStart := false } : State).closeCursor =
        { st with eofStart := false } := by
      simp only [State.closeCursor, scannable.closed, Bool.false_eq_true, ↓reduceIte]
    have words : getwhere env st₁.tab st.fcd.record st.fcd.keyId op false = .ok (tokens, order) :=
      (@getwhere_congr st.tab st₁.tab rfl rfl rfl rfl ..).trans condition
    rw [declareScan, closed]
    change (getwhere env st₁.tab st.fcd.record st.fcd.keyId op false >>= _) = _
    rw [words, ok_bind]
    simp only [cursor, Bool.not_true, Bool.false_eq_true, ↓reduceIte]
    rfl
  have start : opStart env false stack inner op st =
      declareScan env false inner op { st with eofStart := false } := by
    simp only [opStart, scannable.opened, ↓reduceIte]
    rw [key, ok_bind]
    simp only [fresh, Bool.false_eq_true, ↓reduceIte]
  rw [start, declared]
  cases records with
  | nil =>
      rw [opNextPrev_ends reads, ok_bind]
      have reads' : ScanReads (({ st₂.setStatus stEof with tab := { (st₂.setStatus stEof).tab with
          first := false } } : State).setStatus stRecNotFound) [] :=
        ⟨reads.opened, rfl, reads.going, reads.plain, reads.live, reads.key, reads.cursor⟩
      obtain ⟨st', read, here, same⟩ := opNextPrev_at reads' outer op.dir
      refine ⟨_, st', if_pos rfl, read, here, ?_⟩
      exact ⟨same.working.trans same₂.working, same.relation.trans same₂.relation,
        same.columns.trans same₂.columns, same.keyId.trans same₂.keyId,
        same.reclen.trans same₂.reclen⟩
  | cons record records =>
      obtain ⟨st₃, read, status, area, reads', same⟩ := opNextPrev_reads reads inner op.dir
      have notEnd : ¬ st₃.fcd.status = stEof := by
        rw [status]
        decide
      rw [read, ok_bind, if_neg notEnd]
      refine ⟨_, ({ st₃ with tab := { st₃.tab with first := false } } : State).setStatus stOk, rfl,
        ?_, ⟨rfl, area, ?_⟩, (same₂.trans same).trans ⟨rfl, rfl, rfl, rfl, rfl⟩⟩
      · simp only [opNextPrev, reads'.opened, ↓reduceIte]
      · exact ⟨reads'.opened, rfl, reads'.going, reads'.plain, reads'.live, reads'.key,
          reads'.cursor⟩

end Pqfh
