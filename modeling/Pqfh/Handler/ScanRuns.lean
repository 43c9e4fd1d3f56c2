import Pqfh.Handler.RoundTrip
import Pqfh.Handler.ScanOrder
import Pqfh.Handler.WholeKey

/-! # Scans in a history of calls

A START that declares its cursor has the rows of its comparison before it. A START whose key is
that of the row remembered uses the open cursor on, whatever comparison the cursor was declared
for and whatever has happened since.

`Pqfh.scan_reads` says for which histories the READs after a START give the rows that it asks for:
the cursor must have been declared for an inequality in the direction of the START, nothing may
have been written and no READ made in the other direction since, and the key must identify rows.
-/

namespace Pqfh

/-! ## Where a scan stands -/

def Table.keyAt (tab : Table) : Dir → Option ℕ
  | .n => tab.keyNext
  | .p => tab.keyPrev

def Table.bufAt (tab : Table) : Dir → List Byte
  | .n => tab.bufNext
  | .p => tab.bufPrev

/-- The record area holds a row. -/
def HoldsRow (cols : List Column) (record : List Byte) (row : Row) : Prop :=
  ∃ area, pq2cob cols row area = .ok record

/-- A scan by a key in a direction: the row it remembers, and the rows its cursor still has. -/
structure Position (st : State) (dir : Dir) (keyid : ℕ) (row : Row) (rest : List Row) : Prop where
  live : st.conn.aborted = false
  going : st.eofStart = false
  cursor : ∃ held, st.conn.cursors st.tab.handle = some ⟨rest, held⟩
  key : st.tab.keyAt dir = some keyid
  record : HoldsRow st.tab.columns (st.tab.recAt dir) row
  size : (st.tab.recAt dir).length = st.fcd.record.length
  buffer : ∃ stack kbuf after, getkbuf st.tab keyid (st.tab.recAt dir) = .ok kbuf ∧
    st.tab.bufAt dir = stackCopy stack kbuf ++ after
  restart : st.tab.restart = none ∨ st.tab.restart = some dir

/-- The table and its rows are the same. -/
structure SameRows (st st' : State) : Prop where
  columns : st'.tab.columns = st.tab.columns
  keys : st'.tab.keys = st.tab.keys
  relation : st'.tab.relation = st.tab.relation
  working : st'.conn.working = st.conn.working

/-- The position does not depend on the fcd, except for the size of the record area. -/
theorem Position.setFcd {st : State} {dir : Dir} {keyid : ℕ} {row : Row} {rest : List Row}
    (position : Position st dir keyid row rest) {fcd : Fcd}
    (size : fcd.record.length = st.fcd.record.length) :
    Position { st with fcd := fcd } dir keyid row rest :=
  ⟨position.live, position.going, position.cursor, position.key, position.record,
    position.size.trans size.symm, position.buffer, position.restart⟩

/-- The mark of the first READ does not move a position. -/
theorem Position.setFirst {st : State} {dir : Dir} {keyid : ℕ} {row : Row} {rest : List Row}
    (position : Position st dir keyid row rest) (first : Bool) :
    Position { st with tab := { st.tab with first := first } } dir keyid row rest := by
  obtain ⟨live, going, cursor, key, record, size, buffer, restart⟩ := position
  cases dir with
  | n => exact ⟨live, going, cursor, key, record, size, buffer, restart⟩
  | p => exact ⟨live, going, cursor, key, record, size, buffer, restart⟩

/-- The direction of a restart does not move a position. -/
theorem Position.setRestart {st : State} {dir : Dir} {keyid : ℕ} {row : Row} {rest : List Row}
    (position : Position st dir keyid row rest) {restart : Option Dir}
    (own : restart = none ∨ restart = some dir) :
    Position { st with tab := { st.tab with restart := restart } } dir keyid row rest := by
  obtain ⟨live, going, cursor, key, record, size, buffer, _⟩ := position
  cases dir with
  | n => exact ⟨live, going, cursor, key, record, size, buffer, own⟩
  | p => exact ⟨live, going, cursor, key, record, size, buffer, own⟩

/-- The row just read is the one that is remembered. -/
theorem remember_position {st : State} {dir : Dir} {row : Row} {rest : List Row} {held : Bool}
    {area kbuf : List Byte} (live : st.conn.aborted = false) (going : st.eofStart = false)
    (cursor : st.conn.cursors st.tab.handle = some ⟨rest, held⟩) (plain : st.tab.restart = none)
    {keyid : ℕ} (key : st.tab.keyAt dir = some keyid)
    (decoded : pq2cob st.tab.columns row area = .ok st.fcd.record)
    (built : getkbuf st.tab keyid st.fcd.record = .ok kbuf) (stack : ℕ → Byte) :
    Position (st.remember dir (stackCopy stack kbuf)) dir keyid row rest ∧
      SameRows st (st.remember dir (stackCopy stack kbuf)) := by
  have buffer : ∃ stack' kbuf' after, getkbuf st.tab keyid st.fcd.record = .ok kbuf' ∧
      copyOver (stackCopy stack kbuf) (st.tab.bufAt dir) = stackCopy stack' kbuf' ++ after :=
    ⟨stack, kbuf, _, built, rfl⟩
  cases dir with
  | n =>
      exact ⟨⟨live, going, ⟨held, cursor⟩, key, ⟨area, decoded⟩, rfl, buffer, .inl plain⟩, rfl, rfl,
        rfl, rfl⟩
  | p =>
      exact ⟨⟨live, going, ⟨held, cursor⟩, key, ⟨area, decoded⟩, rfl, buffer, .inl plain⟩, rfl, rfl,
        rfl, rfl⟩

/-- A cursor without rows gives the status of the end. -/
theorem fetchNextPrev_ends {st st' : State} {dir : Dir} {held : Bool}
    (live : st.conn.aborted = false) (cursor : st.conn.cursors st.tab.handle = some ⟨[], held⟩)
    {stack : ℕ → Byte} (read : fetchNextPrev stack dir st = .ok st') :
    st' = st.setStatus stEof := by
  have fetched : st.conn.fetch st.tab.handle = (st.conn, none) := by
    simp only [Conn.fetch, live, Bool.false_eq_true, ↓reduceIte, cursor]
  cases fetchNextPrev_iff.mp read with
  | ended =>
      rw [fetched]
      rfl
  | read found => cases (congrArg Prod.snd fetched).symm.trans found

/-- A row fetched from the cursor of a scan. -/
structure Fetched (st st' : State) (dir : Dir) (row : Row) (later : List Row) : Prop where
  fcd : st'.fcd = { st.fcd with record := st'.fcd.record, status := stOk }
  decoded : pq2cob st.tab.columns row st.fcd.record = .ok st'.fcd.record
  moved : Position st' dir st.fcd.keyId row later
  plain : st'.tab.restart = none
  first : st'.tab.first = st.tab.first
  same : SameRows st st'

/-- A cursor with rows gives its next one. -/
theorem fetchNextPrev_fetched {st st' : State} {dir : Dir} {row : Row} {later : List Row}
    {held : Bool} (live : st.conn.aborted = false) (going : st.eofStart = false)
    (cursor : st.conn.cursors st.tab.handle = some ⟨row :: later, held⟩)
    (plain : st.tab.restart = none) (key : st.tab.keyAt dir = some st.fcd.keyId)
    {stack : ℕ → Byte} (read : fetchNextPrev stack dir st = .ok st') :
    Fetched st st' dir row later := by
  have fetched : st.conn.fetch st.tab.handle =
      (st.conn.setCursor st.tab.handle (some ⟨later, held⟩), some row) := by
    simp only [Conn.fetch, live, Bool.false_eq_true, ↓reduceIte, cursor]
  unfold fetchNextPrev at read
  rw [fetched] at read
  obtain ⟨record, decoded, read⟩ := bind_eq_ok.mp read
  obtain ⟨kbuf, built, read⟩ := bind_eq_ok.mp read
  cases read
  let next := ((st.setConn (st.conn.setCursor st.tab.handle (some ⟨later, held⟩))).setRecord
    record).setStatus stOk
  obtain ⟨_, fcd, _, first, restart, _⟩ := next.remember_kept dir (stackCopy stack kbuf)
  have cursor' : next.conn.cursors next.tab.handle = some ⟨later, held⟩ := Function.update_self ..
  obtain ⟨moved, same⟩ := @remember_position next dir row later held st.fcd.record kbuf live going
    cursor' plain st.fcd.keyId key decoded built stack
  exact ⟨by rw [fcd]; rfl, by rw [fcd]; exact decoded, moved, restart.trans plain, first,
    same.columns, same.keys, same.relation, same.working⟩

/-- What a READ in the direction of a scan does: it gives out the row that START has read, gives
the row remembered once more, goes on to the next row, or comes to the end. -/
inductive ReadStep (st st' : State) (dir : Dir) (rest : List Row) : Prop
  | first (was : st.tab.first = true)
      (now : st' = { st with tab := { st.tab with first := false } }.setStatus stOk)
  | again (past : st.tab.first = false) (was : st.tab.restart = some dir)
      (now : st' = ({ st with tab := { st.tab with restart := none } }.setRecord
        (st.tab.recAt dir)).setStatus stOk)
  | next {row : Row} {later : List Row} (past : st.tab.first = false)
      (was : st.tab.restart = none) (more : rest = row :: later)
      (fetched : Fetched st st' dir row later)
  | ended (past : st.tab.first = false) (was : st.tab.restart = none) (none : rest = [])
      (now : st' = st.setStatus stEof)

/-- A READ in the direction of the scan moves on by one row. -/
theorem Position.step {st st' : State} {dir : Dir} {keyid : ℕ} {row : Row} {rest : List Row}
    (position : Position st dir keyid row rest) (opened : st.fcd.openMode ≠ 128)
    (key : st.fcd.keyId = keyid) {stack : ℕ → Byte} (read : opNextPrev stack dir st = .ok st') :
    ReadStep st st' dir rest := by
  cases opNextPrev_iff.mp read with
  | closed closed => exact absurd closed opened
  | first _ was => exact .first was rfl
  | nothing _ _ nothing => exact Bool.noConfusion (position.going.symm.trans nothing)
  | again _ past _ was => exact .again past was rfl
  | fetched _ past _ other fetched =>
      have plain : st.tab.restart = none := position.restart.resolve_right other
      have forget : { st with tab := { st.tab with restart := none } } = st := by
        rw [← plain]
      rw [forget] at fetched
      obtain ⟨held, cursor⟩ := position.cursor
      cases rest with
      | nil => exact .ended past plain rfl (fetchNextPrev_ends position.live cursor fetched)
      | cons following later =>
          exact .next past plain rfl (fetchNextPrev_fetched position.live position.going cursor
            plain (by rw [key]; exact position.key) fetched)

/-! ## Reading on -/

/-- READs give these rows, whatever the program puts into the record area after each, and then the
end of the file. -/
def ReadsOn (dir : Dir) : List Row → State → Prop
  | [], st => ∀ stack, ∃ st', opNextPrev stack dir st = .ok st' ∧ st'.fcd.status = stEof
  | row :: rows, st => ∀ stack, ∃ st', opNextPrev stack dir st = .ok st' ∧
      st'.fcd.status = stOk ∧ HoldsRow st'.tab.columns st'.fcd.record row ∧
      ∀ area : List Byte, area.length = st'.fcd.record.length →
        ReadsOn dir rows (st'.setRecord area)

/-- Every one of these rows can be read into a record area of a length. -/
def Readable (cols : List Column) (reclen : ℕ) (rows : List Row) : Prop :=
  ∀ row ∈ rows, ∀ area : List Byte, area.length = reclen → ∃ record,
    pq2cob cols row area = .ok record

/-- Whether `getkbuf` succeeds depends on the length of the record. -/
theorem getkbuf_of_length {tab : Table} {keyid : ℕ} {record record' kbuf : List Byte}
    (built : getkbuf tab keyid record = .ok kbuf) (length : record'.length = record.length) :
    ∃ kbuf', getkbuf tab keyid record' = .ok kbuf' := by
  unfold getkbuf at built ⊢
  rw [length]
  split at built
  · cases built
  · split at built
    · exact ⟨_, if_pos ‹_›⟩
    · cases built

/-- What a scan needs of the caller to go on. -/
structure Goes (st : State) (keyid : ℕ) (rest : List Row) : Prop where
  opened : st.fcd.openMode ≠ 128
  key : st.fcd.keyId = keyid
  readable : Readable st.tab.columns st.fcd.record.length rest
  built : ∃ kbuf, getkbuf st.tab keyid st.fcd.record = .ok kbuf

/-- A scan goes on after the record area is set. -/
theorem Goes.setRecord {st : State} {keyid : ℕ} {rest : List Row} (goes : Goes st keyid rest)
    {area : List Byte} (length : area.length = st.fcd.record.length) :
    Goes (st.setRecord area) keyid rest where
  opened := goes.opened
  key := goes.key
  readable := fun row member area' length' => goes.readable row member area' (length'.trans length)
  built := by
    obtain ⟨kbuf, built⟩ := goes.built
    exact getkbuf_of_length built length

/-- A READ of a scan returns. -/
theorem Position.returns {st : State} {dir : Dir} {keyid : ℕ} {row : Row} {rest : List Row}
    (position : Position st dir keyid row rest) (goes : Goes st keyid rest) (stack : ℕ → Byte) :
    ∃ st', opNextPrev stack dir st = .ok st' := by
  unfold opNextPrev
  rw [if_neg goes.opened]
  split
  · exact ⟨_, rfl⟩
  · rw [if_neg (by rw [position.going]; exact Bool.false_ne_true)]
    dsimp only
    split
    · exact ⟨_, rfl⟩
    · unfold fetchNextPrev
      obtain ⟨held, cursor⟩ := position.cursor
      cases rest with
      | nil =>
          simp only [Conn.fetch, position.live, Bool.false_eq_true, ↓reduceIte, cursor]
          exact ⟨_, rfl⟩
      | cons following later =>
          simp only [Conn.fetch, position.live, Bool.false_eq_true, ↓reduceIte, cursor,
            State.setConn]
          obtain ⟨record, decoded⟩ :=
            goes.readable following List.mem_cons_self st.fcd.record rfl
          obtain ⟨kbuf, built⟩ := goes.built
          obtain ⟨kbuf', built'⟩ := getkbuf_of_length built
            (pq2cobFrom_room (Nat.zero_le _) decoded).1
          rw [decoded, ok_bind]
          change ∃ st', (getkbuf st.tab st.fcd.keyId record >>= _) = .ok st'
          rw [goes.key, built', ok_bind]
          exact ⟨_, rfl⟩

/-- A scan whose START and last READ are done reads the rows its cursor still has. -/
theorem Position.readsOn :
    ∀ {rest : List Row} {st : State} {dir : Dir} {keyid : ℕ} {row : Row},
      Position st dir keyid row rest → Goes st keyid rest → st.tab.first = false →
      st.tab.restart = none → ReadsOn dir rest st := by
  intro rest
  induction rest with
  | nil =>
      intro st dir keyid row position goes past plain stack
      obtain ⟨st', read⟩ := position.returns goes stack
      refine ⟨st', read, ?_⟩
      cases position.step goes.opened goes.key read with
      | first was => exact absurd (was.symm.trans past) (by decide)
      | again _ was => cases was.symm.trans plain
      | next _ _ more => cases more
      | ended _ _ _ now => rw [now]; rfl
  | cons following later ih =>
      intro st dir keyid row position goes past plain stack
      obtain ⟨st', read⟩ := position.returns goes stack
      cases position.step goes.opened goes.key read with
      | first was => exact absurd (was.symm.trans past) (by decide)
      | again _ was => cases was.symm.trans plain
      | ended _ _ empty => cases empty
      | next _ _ more fetched =>
          cases more
          obtain ⟨fcd, decoded, moved, plain', still, same⟩ := fetched
          rw [goes.key] at moved
          have length := (pq2cobFrom_room (Nat.zero_le _) decoded).1
          have goes' : Goes st' keyid later := by
            refine ⟨by rw [fcd]; exact goes.opened, by rw [fcd]; exact goes.key, ?_, ?_⟩
            · rw [same.columns, length]
              exact fun row member => goes.readable row (List.mem_cons_of_mem _ member)
            · obtain ⟨kbuf, built⟩ := goes.built
              rw [getkbuf_congr same.keys same.columns]
              exact getkbuf_of_length built length
          refine ⟨st', read, by rw [fcd], ⟨st.fcd.record, by rw [same.columns]; exact decoded⟩, ?_⟩
          intro area whole
          exact ih (moved.setFcd whole) (goes'.setRecord whole) (still.trans past) plain'

/-! ## START -/

/-- A START that returned 00 used the open cursor on, or declared one. -/
theorem opStart_cases {env : Env} {stack inner : ℕ → Byte} {op : Comparison} {st st' : State}
    (started : opStart env false stack inner op st = .ok st') (ok : st'.fcd.status = stOk) :
    st.fcd.openMode ≠ 128 ∧ ∃ kbuf, getkbuf st.tab st.fcd.keyId st.fcd.record = .ok kbuf ∧
      (shortcut op (stackCopy stack kbuf) st = true ∧
          st' = (restartScan op { st with eofStart := false }).setStatus stOk ∨
        shortcut op (stackCopy stack kbuf) st = false ∧
          declareScan env false inner op { st with eofStart := false } = .ok st') := by
  unfold opStart at started
  split at started
  · cases started
    exact absurd ok (by decide : stNotOpenedRead ≠ stOk)
  · rename_i opened
    obtain ⟨kbuf, built, started⟩ := bind_eq_ok.mp started
    refine ⟨opened, kbuf, built, ?_⟩
    split at started
    · rename_i taken
      cases started
      exact .inl ⟨taken, rfl⟩
    · rename_i fresh
      exact .inr ⟨Bool.eq_false_iff.mpr fresh, started⟩

/-- What DECLARE has done when it succeeded. -/
theorem Conn.declare_true {pg : Postgres} {conn conn' : Conn} {handle relation : ℕ}
    {tokens : List Token} {order : List (ℕ × Bool)}
    (declared : conn.declare pg handle relation tokens order = (conn', true)) :
    conn.aborted = false ∧ ∃ rows found, conn.working relation = some rows ∧
      pg.query tokens order rows = some found ∧
      conn' = conn.setCursor handle (some ⟨found, false⟩) := by
  unfold Conn.declare at declared
  split at declared
  · cases declared
  · rename_i live
    split at declared
    · rename_i found _ queried
      obtain ⟨rows, present, query⟩ := Option.bind_eq_some_iff.mp queried
      cases declared
      exact ⟨Bool.eq_false_iff.mpr live, rows, found, present, query, rfl⟩
    · cases declared

/-- What a START that declared its cursor has found. -/
structure Declared (env : Env) (op : Comparison) (st st' : State) (tokens : List Token)
    (order : List (ℕ × Bool)) (rows : List Row) (row : Row) (rest : List Row) : Prop where
  written : getwhere env st.tab st.fcd.record st.fcd.keyId op false = .ok (tokens, order)
  present : st.conn.working st.tab.relation = some rows
  query : env.pg.query tokens order rows = some (row :: rest)
  fcd : st'.fcd = { st.fcd with record := st'.fcd.record, status := stOk }
  decoded : pq2cob st.tab.columns row st.fcd.record = .ok st'.fcd.record
  position : Position st' op.dir st.fcd.keyId row rest
  plain : st'.tab.restart = none
  first : st'.tab.first = true
  same : SameRows st st'

/-- A table whose cursor has been declared and not been read. -/
def Table.scanning (tab : Table) (dir : Dir) (keyid : ℕ) : Table :=
  match dir with
  | .n => { tab with cursor := true, first := false, keyNext := some keyid }
  | .p => { tab with cursor := true, first := false, keyPrev := some keyid }

/-- A table that is set to scan keeps everything else. -/
theorem Table.scanning_kept (tab : Table) (dir : Dir) (keyid : ℕ) :
    (tab.scanning dir keyid).first = false ∧ (tab.scanning dir keyid).restart = tab.restart ∧
      (tab.scanning dir keyid).handle = tab.handle ∧
      (tab.scanning dir keyid).columns = tab.columns ∧
      (tab.scanning dir keyid).keys = tab.keys ∧
      (tab.scanning dir keyid).relation = tab.relation ∧
      (tab.scanning dir keyid).keyAt dir = some keyid := by
  cases dir <;> exact ⟨rfl, rfl, rfl, rfl, rfl, rfl, rfl⟩

/-- Closing a cursor changes the connection and the table's mark alone. -/
theorem State.closeCursor_eq (st : State) :
    ∃ conn cursor, st.closeCursor =
      { st with conn := conn, tab := { st.tab with cursor := cursor } } ∧
      conn.working = st.conn.working := by
  unfold State.closeCursor
  split
  · refine ⟨_, _, rfl, ?_⟩
    unfold Conn.closeCursor
    split
    · rfl
    · split
      · rfl
      · rfl
  · exact ⟨_, _, rfl, rfl⟩

/-- A scan that was declared with status 00 has a first row, with the others behind it. -/
theorem declareScan_declared {env : Env} {inner : ℕ → Byte} {op : Comparison} {st st' : State}
    (declared : declareScan env false inner op st = .ok st') (ok : st'.fcd.status = stOk)
    (opened : st.fcd.openMode ≠ 128) (going : st.eofStart = false)
    (plain : st.tab.restart ≠ some op.dir) :
    ∃ tokens order rows row rest, Declared env op st st' tokens order rows row rest := by
  obtain ⟨conn, cursor, closed, working⟩ := st.closeCursor_eq
  unfold declareScan at declared
  rw [closed] at declared
  obtain ⟨⟨tokens, order⟩, written, declared⟩ := bind_eq_ok.mp declared
  dsimp only at declared
  generalize executed : conn.declare env.pg _ _ tokens order = outcome at declared
  obtain ⟨conn', done⟩ := outcome
  cases done with
  | false => cases declared
  | true =>
      obtain ⟨live, rows, found, present, query, rfl⟩ := Conn.declare_true executed
      obtain ⟨st₁, read, result⟩ := bind_eq_ok.mp declared
      let st₂ : State := { st with
        conn := conn.setCursor st.tab.handle (some ⟨found, false⟩)
        tab := st.tab.scanning op.dir st.fcd.keyId }
      obtain ⟨past, restart, handle, columns, keys, relation, key⟩ :=
        st.tab.scanning_kept op.dir st.fcd.keyId
      have read : opNextPrev inner op.dir st₂ = .ok st₁ := read
      have other : st₂.tab.restart ≠ some op.dir := fun equal => plain (restart.symm.trans equal)
      rw [@opNextPrev_forgets st₂ op.dir opened past going other] at read
      have cursor' : st₂.conn.cursors st₂.tab.handle = some ⟨found, false⟩ := by
        change Function.update _ _ _ (st.tab.scanning op.dir st.fcd.keyId).handle = _
        rw [handle]
        exact Function.update_self ..
      let st₃ : State := { st₂ with tab := { st₂.tab with restart := none } }
      cases found with
      | nil =>
          obtain rfl := @fetchNextPrev_ends st₃ st₁ op.dir false live cursor' inner read
          cases result
          exact absurd ok (by decide : stRecNotFound ≠ stOk)
      | cons row rest =>
          have key' : st₃.tab.keyAt op.dir = some st₃.fcd.keyId := by
            dsimp only [st₃, st₂]
            rw [← key]
            cases op.dir <;> rfl
          obtain ⟨fcd, decoded, moved, plain', _, same⟩ :=
            @fetchNextPrev_fetched st₃ st₁ op.dir row rest false live going cursor' rfl key' inner
              read
          have notEnd : st₁.fcd.status ≠ stEof := by
            rw [fcd]
            exact (by decide : stOk ≠ stEof)
          rw [if_neg notEnd] at result
          cases result
          have words : getwhere env st.tab st.fcd.record st.fcd.keyId op false =
              .ok (tokens, order) :=
            (@getwhere_congr { st.tab with cursor := true } st.tab rfl rfl rfl rfl ..).trans written
          refine ⟨tokens, order, rows, row, rest, words, working ▸ present, query, fcd,
            columns ▸ decoded, ?_, plain', rfl, same.columns.trans columns, same.keys.trans keys,
            same.relation.trans relation, same.working.trans working⟩
          exact moved.setFirst true

/-! ## The key of the row remembered -/

/-- A key without NUL is copied whole. -/
theorem stackCopy_clean {key : List Byte} (clean : 0 ∉ key) (stack : ℕ → Byte) :
    stackCopy stack key = key := by
  unfold stackCopy
  rw [cstr_eq_self clean]
  apply List.ext_getElem
  · rw [List.length_map, List.length_range]
  · intro i short long
    rw [List.getElem_map, List.getElem_range, if_pos long, List.getD_eq_getElem?_getD,
      List.getElem?_eq_getElem long, Option.getD_some]

/-- A key copied that has no NUL was copied as a whole. -/
theorem eq_of_stackCopy_clean {key copied : List Byte} {stack : ℕ → Byte}
    (copy : stackCopy stack key = copied) (clean : 0 ∉ copied) : key = copied := by
  by_cases whole : 0 ∈ key
  · exfalso
    apply clean
    rw [← copy]
    have ended := length_cstr_lt_iff.mpr whole
    unfold stackCopy
    refine List.mem_map.mpr ⟨(cstr key).length, List.mem_range.mpr ended, ?_⟩
    rw [if_neg (lt_irrefl _), if_pos rfl]
  · rw [← copy, stackCopy_clean whole]

/-- Keys that are equal have equal fields. -/
theorem slices_of_flatMap {tab : Table} {record record' : List Byte} :
    ∀ {cols : List ℕ},
      (∀ i ∈ cols, (tab.column i).offset + (tab.column i).len ≤ record.length) →
      (∀ i ∈ cols, (tab.column i).offset + (tab.column i).len ≤ record'.length) →
      (cols.flatMap fun i => slice record (tab.column i).offset (tab.column i).len) =
        (cols.flatMap fun i => slice record' (tab.column i).offset (tab.column i).len) →
      ∀ i ∈ cols, slice record (tab.column i).offset (tab.column i).len =
        slice record' (tab.column i).offset (tab.column i).len := by
  intro cols
  induction cols with
  | nil => intro _ _ _ i member; cases member
  | cons j rest ih =>
      intro inside inside' equal i member
      rw [List.flatMap_cons, List.flatMap_cons] at equal
      have length := length_slice (inside j List.mem_cons_self)
      have length' := length_slice (inside' j List.mem_cons_self)
      obtain ⟨here, later⟩ := List.append_inj equal (length.trans length'.symm)
      rcases List.mem_cons.mp member with rfl | member
      · exact here
      · exact ih (fun j member => inside j (List.mem_cons_of_mem _ member))
          (fun j member => inside' j (List.mem_cons_of_mem _ member)) later i member

/-- What `getkbuf` gives. -/
theorem getkbuf_eq {tab : Table} {keyid : ℕ} {record kbuf : List Byte} {cols : List ℕ}
    (known : tab.keys[keyid]? = some cols) (built : getkbuf tab keyid record = .ok kbuf) :
    (∀ i ∈ cols, (tab.column i).offset + (tab.column i).len ≤ record.length) ∧
      kbuf = cols.flatMap fun i => slice record (tab.column i).offset (tab.column i).len := by
  unfold getkbuf at built
  rw [known] at built
  dsimp only at built
  split at built
  case isTrue fits =>
    cases built
    exact ⟨fits.2.2, rfl⟩
  case isFalse => cases built

/-- The key is as long as its columns together. -/
theorem length_flatMap_slices {tab : Table} {record : List Byte} {cols : List ℕ}
    (inside : ∀ i ∈ cols, (tab.column i).offset + (tab.column i).len ≤ record.length) :
    (cols.flatMap fun i => slice record (tab.column i).offset (tab.column i).len).length =
      (cols.map fun i => (tab.column i).len).sum := by
  rw [List.length_flatMap]
  congr 1
  apply List.map_congr_left
  intro i member
  exact length_slice (inside i member)

/-- A table that can be scanned: its columns are laid out one after the other, and its rows have
values of their types and can be read. -/
structure ScanTable (tab : Table) (reclen : ℕ) (rows : List Row) : Prop where
  laid : Contiguous 0 tab.columns
  digits : ∀ col ∈ tab.columns, col.tp = .numeric → col.dec < col.len
  typed : ∀ row ∈ rows, RowFits tab.columns row
  readable : Readable tab.columns reclen rows

/-- Rows without NULLs can be read when the record area has room for the columns. -/
theorem readable_of_fits {cols : List Column} {reclen : ℕ} {rows : List Row}
    (laid : Contiguous 0 cols) (digits : ∀ col ∈ cols, col.tp = .numeric → col.dec < col.len)
    (room : totalLen cols ≤ reclen) (typed : ∀ row ∈ rows, RowFits cols row)
    (filled : ∀ row ∈ rows, .null ∉ row) : Readable cols reclen rows := by
  intro row member area length
  have printed : List.Forall₂ (fun col value => ∃ field,
      fieldBytes col (printValue col value) = .ok field ∧ field.length = col.len) cols row := by
    have fits := typed row member
    have present := filled row member
    unfold RowFits at fits
    rw [List.forall₂_iff_zip] at fits ⊢
    refine ⟨fits.1, fun {col value} among => ?_⟩
    obtain ⟨column, inside⟩ := List.of_mem_zip among
    exact exists_fieldBytes (fits.2 among) (fun null => present (null ▸ inside)) (digits col column)
  obtain ⟨record, read, _⟩ := pq2cobFrom_spec laid printed
    (by rw [Nat.zero_add, length]; exact room : 0 + totalLen cols ≤ area.length)
  exact ⟨record, read⟩

/-- A key identifies rows: they have values in its columns, no two the same. -/
structure Identifies (cols : List ℕ) (rows : List Row) : Prop where
  filled : ∀ row ∈ rows, ∀ i ∈ cols, row.getD i .null ≠ .null
  differ : rows.Pairwise (Differ cols)

/-- A record with the key of the row remembered stands for the values of that row. -/
theorem Position.startKey {st : State} {dir : Dir} {keyid : ℕ} {row : Row} {rest : List Row}
    (position : Position st dir keyid row rest) {cols : List ℕ}
    (known : st.tab.keys[keyid]? = some cols) (laid : Contiguous 0 st.tab.columns)
    (typed : RowFits st.tab.columns row) (filled : ∀ i ∈ cols, row.getD i .null ≠ .null)
    {record kbuf : List Byte} {stack : ℕ → Byte} (built : getkbuf st.tab keyid record = .ok kbuf)
    (same : stackCopy stack kbuf = (st.tab.bufAt dir).take (stackCopy stack kbuf).length)
    {key : List (ℕ × Value)} (stands : st.tab.startKey record cols = some key) :
    key = rowKey cols row := by
  obtain ⟨stack₀, kbuf₀, after, built₀, buffer⟩ := position.buffer
  obtain ⟨area, decoded⟩ := position.record
  obtain ⟨inside, rfl⟩ := getkbuf_eq known built
  obtain ⟨inside₀, rfl⟩ := getkbuf_eq known built₀
  have length := typed.length_eq.symm
  have fields : ∀ i ∈ cols, ∃ value, row[i]? = some value ∧ row.getD i .null = value ∧
      value.Fits (st.tab.column i) ∧ value ≠ .null ∧
      fieldBytes (st.tab.column i) (printValue (st.tab.column i) value) =
        .ok (slice (st.tab.recAt dir) (st.tab.column i).offset (st.tab.column i).len) := by
    intro i member
    have present := filled i member
    rw [List.getD_eq_getElem?_getD] at present ⊢
    cases value : row[i]? with
    | none =>
        rw [value] at present
        exact (present rfl).elim
    | some value' =>
        rw [value] at present
        exact ⟨value', rfl, rfl, (forall₂_columns_iff length).mp typed i value' value, present,
          pq2cob_holds laid length decoded i value' value⟩
  have clean : 0 ∉ cols.flatMap fun i =>
      slice (st.tab.recAt dir) (st.tab.column i).offset (st.tab.column i).len := by
    intro zero
    obtain ⟨i, member, zero⟩ := List.mem_flatMap.mp zero
    obtain ⟨value, _, _, fits, present, read⟩ := fields i member
    exact zero_notMem_fieldBytes fits present read zero
  have copied : stackCopy stack (cols.flatMap fun i =>
      slice record (st.tab.column i).offset (st.tab.column i).len) = cols.flatMap fun i =>
      slice (st.tab.recAt dir) (st.tab.column i).offset (st.tab.column i).len := by
    rw [buffer, stackCopy_clean clean] at same
    rw [same]
    apply List.take_left'
    rw [stackCopy, List.length_map, List.length_range, length_flatMap_slices inside,
      length_flatMap_slices inside₀]
  have slices := slices_of_flatMap inside inside₀ (eq_of_stackCopy_clean copied clean)
  apply Table.startKey_eq_rowKey stands
  intro i member value stands
  obtain ⟨value', _, here, fits, present, read⟩ := fields i member
  rw [here]
  exact startValue_of_fieldBytes fits present read (slices i member ▸ stands)

/-! ## Histories -/

/-- Whether a START would use the open cursor on. -/
def resumes (stack : ℕ → Byte) (op : Comparison) (st : State) : Bool :=
  match getkbuf st.tab st.fcd.keyId st.fcd.record with
  | .ok key => shortcut op (stackCopy stack key) st
  | .error _ => false

/-- When a START may be made. The scan in progress is that of a cursor declared for an inequality,
its direction and its key, as long as nothing has disturbed it. -/
structure StartMeets (env : Env) (scan : Option (Dir × ℕ)) (stack : ℕ → Byte) (op : Comparison)
    (st : State) : Prop where
  whole : partialColumns env st.tab st.fcd.keyId = 0
  numbers : ∀ cols, st.tab.keys[st.fcd.keyId]? = some cols →
    (st.tab.startKey st.fcd.record cols).isSome
  table : ∀ rows, st.conn.working st.tab.relation = some rows →
    ScanTable st.tab st.fcd.record.length rows
  fresh : resumes stack op st = false → st.tab.restart ≠ some op.dir
  resumed : resumes stack op st = true →
    op ≠ .eq ∧ scan = some (op.dir, st.fcd.keyId) ∧ st.tab.first = false ∧
      (op.inclusive = true ∨ st.tab.restart = none) ∧
      ∀ rows cols, st.conn.working st.tab.relation = some rows →
        st.tab.keys[st.fcd.keyId]? = some cols → Identifies cols rows

/-- Calls on an open table, with what the program makes of its fcd before each and with the commits
and the changes of other sessions between them. The size of the record area stays the same. The scan
in progress ends with a write and with a READ in another direction or by another key. -/
inductive ScanRun (env : Env) : Option (Dir × ℕ) → State → Prop where
  | opened (st : State) : ScanRun env none st
  | start {st st' : State} {scan : Option (Dir × ℕ)} {fcd : Fcd} {stack inner : ℕ → Byte}
      {op : Comparison} (earlier : ScanRun env scan st)
      (size : fcd.record.length = st.fcd.record.length)
      (met : StartMeets env scan stack op { st with fcd := fcd })
      (called : opStart env false stack inner op { st with fcd := fcd } = .ok st') :
      ScanRun env
        (if st'.fcd.status = stOk ∧ op ≠ .eq then some (op.dir, fcd.keyId) else none) st'
  | read {st st' : State} {scan : Option (Dir × ℕ)} {fcd : Fcd} {stack : ℕ → Byte} {dir : Dir}
      (earlier : ScanRun env scan st) (size : fcd.record.length = st.fcd.record.length)
      (called : opNextPrev stack dir { st with fcd := fcd } = .ok st') :
      ScanRun env (if scan = some (dir, fcd.keyId) then scan else none) st'
  | write {st st' : State} {scan : Option (Dir × ℕ)} {fcd : Fcd}
      (earlier : ScanRun env scan st) (called : opWrite env { st with fcd := fcd } = .ok st') :
      ScanRun env none st'
  | rewrite {st st' : State} {scan : Option (Dir × ℕ)} {fcd : Fcd} {done : Bool}
      (earlier : ScanRun env scan st)
      (called : opRewrite env { st with fcd := fcd } = .ok (done, st')) :
      ScanRun env none st'
  | delete {st st' : State} {scan : Option (Dir × ℕ)} {fcd : Fcd}
      (earlier : ScanRun env scan st) (called : opDelete env { st with fcd := fcd } = .ok st') :
      ScanRun env none st'
  | commit {st : State} {scan : Option (Dir × ℕ)} (earlier : ScanRun env scan st) :
      ScanRun env (if st.conn.aborted then none else scan) { st with conn := st.conn.commit }
  | changed {st : State} {scan : Option (Dir × ℕ)} (earlier : ScanRun env scan st)
      (conn : Conn) : ScanRun env none { st with conn := conn }

/-- A scan in progress has all the rows of its comparison behind it and before it. -/
structure InScan (pg : Postgres) (st : State) (dir : Dir) (keyid : ℕ) (op : Comparison)
    (key : List (ℕ × Value)) (rows front : List Row) (row : Row) (rest : List Row) : Prop where
  direction : op.dir = dir
  inequality : op ≠ .eq
  known : st.tab.keys[keyid]? = some (key.map Prod.fst)
  filled : ∀ column ∈ key, column.2 ≠ .null
  present : st.conn.working st.tab.relation = some rows
  found : (front ++ row :: rest).Perm (rows.filter fun row => pg.keyCompares op row key)
  sorted : (front ++ row :: rest).Pairwise (pg.keyLe op (key.map Prod.fst))
  position : Position st dir keyid row rest

/-- What holds of the scan in progress. -/
def Scanning (pg : Postgres) (st : State) : Option (Dir × ℕ) → Prop
  | none => True
  | some (dir, keyid) => ∃ op key rows front row rest,
      InScan pg st dir keyid op key rows front row rest

variable {env : Env}

/-- What a START that returned 00 has done: it used the open cursor on, or declared one. -/
theorem opStart_outcome {stack inner : ℕ → Byte} {op : Comparison} {st st' : State}
    (started : opStart env false stack inner op st = .ok st') (ok : st'.fcd.status = stOk)
    (plain : resumes stack op st = false → st.tab.restart ≠ some op.dir) :
    st.fcd.openMode ≠ 128 ∧ ∃ kbuf, getkbuf st.tab st.fcd.keyId st.fcd.record = .ok kbuf ∧
      (resumes stack op st = true ∧ shortcut op (stackCopy stack kbuf) st = true ∧
          st' = (restartScan op { st with eofStart := false }).setStatus stOk ∨
        ∃ tokens order rows row rest, Declared env op st st' tokens order rows row rest) := by
  obtain ⟨opened, kbuf, built, outcome⟩ := opStart_cases started ok
  have known : resumes stack op st = shortcut op (stackCopy stack kbuf) st := by
    unfold resumes
    rw [built]
  refine ⟨opened, kbuf, built, ?_⟩
  rcases outcome with ⟨taken, shape⟩ | ⟨fresh, declared⟩
  · exact .inl ⟨known.trans taken, taken, shape⟩
  · obtain ⟨tokens, order, rows, row, rest, found⟩ :=
      declareScan_declared declared ok opened rfl (plain (known.trans fresh))
    exact .inr
      ⟨tokens, order, rows, row, rest, found.written, found.present, found.query, found.fcd,
      found.decoded, found.position, found.plain, found.first, found.same.columns, found.same.keys,
      found.same.relation, found.same.working⟩

/-- A START that declares its cursor begins a scan. -/
theorem Declared.inScan {op : Comparison} {st st' : State} {tokens : List Token}
    {order : List (ℕ × Bool)} {rows : List Row} {row : Row} {rest : List Row}
    {scan : Option (Dir × ℕ)}
    {stack : ℕ → Byte} (declared : Declared env op st st' tokens order rows row rest)
    (met : StartMeets env scan stack op st)
    (built : ∃ kbuf, getkbuf st.tab st.fcd.keyId st.fcd.record = .ok kbuf) :
    ∃ cols key, st.tab.keys[st.fcd.keyId]? = some cols ∧
      st.tab.startKey st.fcd.record cols = some key ∧
      (row :: rest).Perm (rows.filter fun row => env.pg.keyCompares op row key) ∧
      (row :: rest).Pairwise (env.pg.keyLe op cols) := by
  obtain ⟨kbuf, built⟩ := built
  obtain ⟨cols, known, _⟩ := getkbuf_ok built
  obtain ⟨key, stands⟩ := Option.isSome_iff_exists.mp (met.numbers cols known)
  have digits : ∀ i ∈ cols, (st.tab.column i).tp = .numeric →
      (st.tab.column i).dec < (st.tab.column i).len := by
    intro i _ numeric
    by_cases inside : i < st.tab.columns.length
    · exact (met.table rows declared.present).digits _ (Table.column_mem inside) numeric
    · rw [Table.column, List.getD_eq_getElem?_getD,
        List.getElem?_eq_none (not_lt.mp inside)] at numeric
      cases numeric
  obtain ⟨found, query, perm, sorted⟩ :=
    getwhere_query known met.whole digits stands declared.written rows
  obtain rfl := Option.some.inj (declared.query.symm.trans query)
  exact ⟨cols, key, known, stands, perm, sorted⟩

section Scan

variable {st st' : State} {dir : Dir} {keyid : ℕ} {op : Comparison} {key : List (ℕ × Value)}
  {rows front rest : List Row} {row : Row}

/-- A scan stays one when the state moves and its rows do not. -/
theorem InScan.move {front' rest' : List Row} {row' : Row}
    (scan : InScan env.pg st dir keyid op key rows front row rest) (same : SameRows st st')
    (lists : front' ++ row' :: rest' = front ++ row :: rest)
    (position : Position st' dir keyid row' rest') :
    InScan env.pg st' dir keyid op key rows front' row' rest' where
  direction := scan.direction
  inequality := scan.inequality
  known := by rw [same.keys]; exact scan.known
  filled := scan.filled
  present := by rw [same.working, same.relation]; exact scan.present
  found := by rw [lists]; exact scan.found
  sorted := by rw [lists]; exact scan.sorted
  position := position

/-- A READ by the key of a scan and in its direction moves it on by one row at most. -/
theorem InScan.read (scan : InScan env.pg st dir keyid op key rows front row rest)
    (own : st.fcd.keyId = keyid) {stack : ℕ → Byte} (called : opNextPrev stack dir st = .ok st') :
    Scanning env.pg st' (some (dir, keyid)) := by
  have position := scan.position
  by_cases opened : st.fcd.openMode = 128
  · obtain rfl := Except.ok.inj ((if_pos opened).symm.trans called)
    exact ⟨op, key, rows, front, row, rest,
      scan.move ⟨rfl, rfl, rfl, rfl⟩ rfl (position.setFcd rfl)⟩
  cases position.step opened own called with
  | first _ now =>
      subst now
      exact ⟨op, key, rows, front, row, rest,
        scan.move ⟨rfl, rfl, rfl, rfl⟩ rfl ((position.setFirst false).setFcd rfl)⟩
  | again _ _ now =>
      subst now
      exact ⟨op, key, rows, front, row, rest,
        scan.move ⟨rfl, rfl, rfl, rfl⟩ rfl ((position.setRestart (.inl rfl)).setFcd position.size)⟩
  | next _ _ more fetched =>
      subst more
      refine ⟨op, key, rows, front ++ [row], _, _, scan.move fetched.same ?_ (own ▸ fetched.moved)⟩
      rw [List.append_assoc, List.singleton_append]
  | ended _ _ _ now =>
      subst now
      exact ⟨op, key, rows, front, row, rest,
        scan.move ⟨rfl, rfl, rfl, rfl⟩ rfl (position.setFcd rfl)⟩

/-- A START that uses the cursor on leaves the scan where it is. -/
theorem InScan.restart {op' : Comparison}
    (scan : InScan env.pg st dir keyid op key rows front row rest) (own : op'.dir = dir) :
    InScan env.pg ((restartScan op' { st with eofStart := false }).setStatus stOk) dir keyid op key
      rows front row rest := by
  have position := scan.position
  have going : { st with eofStart := false } = st := by
    rw [← position.going]
  rw [going]
  have again : ∀ restart, restart = none ∨ restart = some dir →
      InScan env.pg (({ st with tab := { st.tab with restart := restart } } : State).setStatus stOk)
        dir
        keyid op key rows front row rest := fun restart fits =>
    scan.move ⟨rfl, rfl, rfl, rfl⟩ rfl ((position.setRestart fits).setFcd rfl)
  have still : InScan env.pg (st.setStatus stOk) dir keyid op key rows front row rest :=
    scan.move ⟨rfl, rfl, rfl, rfl⟩ rfl (position.setFcd rfl)
  subst own
  cases op' with
  | ge => exact again (some .n) (.inr rfl)
  | le => exact again (some .p) (.inr rfl)
  | _ => exact still

end Scan

/-- The scan in progress has all its rows in every history. -/
theorem ScanRun.scanning {st : State} {scan : Option (Dir × ℕ)}
    (run : ScanRun env scan st) : Scanning env.pg st scan := by
  induction run with
  | opened => trivial
  | @start st st' scan fcd stack inner op earlier size met called ih =>
      by_cases began : st'.fcd.status = stOk ∧ op ≠ .eq
      case neg => rw [if_neg began]; trivial
      rw [if_pos began]
      obtain ⟨_, kbuf, built, ⟨resumed, _, rfl⟩ | ⟨tokens, order, rows, row, rest, found⟩⟩ :=
        opStart_outcome called began.1 met.fresh
      · obtain ⟨_, own, _⟩ := met.resumed resumed
        subst own
        obtain ⟨op', key, rows, front, row, rest, inScan⟩ := ih
        have inScan' :
            InScan env.pg { st with fcd := fcd } op.dir fcd.keyId op' key rows front row rest :=
          inScan.move ⟨rfl, rfl, rfl, rfl⟩ rfl (inScan.position.setFcd size)
        exact ⟨op', key, rows, front, row, rest, inScan'.restart rfl⟩
      · obtain ⟨cols, key, known, stands, perm, sorted⟩ := found.inScan met ⟨kbuf, built⟩
        have columns := Table.map_fst_startKey stands
        subst columns
        refine ⟨op, key, rows, [], row, rest, rfl, began.2, ?_, Table.startKey_ne_null stands, ?_,
          perm,
          sorted, found.position⟩
        · rw [found.same.keys]
          exact known
        · rw [found.same.working, found.same.relation]
          exact found.present
  | @read st st' scan fcd stack dir earlier size called ih =>
      by_cases own : scan = some (dir, fcd.keyId)
      case neg => rw [if_neg own]; trivial
      rw [if_pos own]
      subst own
      obtain ⟨op, key, rows, front, row, rest, inScan⟩ := ih
      have inScan' :
          InScan env.pg { st with fcd := fcd } dir fcd.keyId op key rows front row rest :=
        inScan.move ⟨rfl, rfl, rfl, rfl⟩ rfl (inScan.position.setFcd size)
      exact inScan'.read rfl called
  | write => trivial
  | rewrite => trivial
  | delete => trivial
  | @commit st scan earlier ih =>
      cases aborted : st.conn.aborted with
      | true => trivial
      | false =>
          cases scan with
          | none => trivial
          | some scan =>
              obtain ⟨op, key, rows, front, row, rest, inScan⟩ := ih
              have position := inScan.position
              obtain ⟨held, cursor⟩ := position.cursor
              have kept : st.conn.commit = { st.conn with
                  committed := st.conn.working
                  cursors := fun handle => (st.conn.cursors handle).map fun cursor =>
                    { cursor with held := true } } := by
                unfold Conn.commit
                rw [if_neg (by rw [aborted]; exact Bool.false_ne_true)]
              rw [kept]
              refine ⟨op, key, rows, front, row, rest, inScan.move ⟨rfl, rfl, rfl, rfl⟩ rfl ?_⟩
              refine ⟨aborted, position.going, ⟨true, ?_⟩, position.key, position.record,
                position.size, position.buffer, position.restart⟩
              change (st.conn.cursors st.tab.handle).map _ = _
              rw [cursor]
              rfl
  | changed => trivial

/-! ## What the READs after a START give -/

/-- The first READ after a START that declared its cursor gives out the row START has read. -/
theorem Position.readsOn_first {st : State} {dir : Dir} {keyid : ℕ} {row : Row} {rest : List Row}
    (position : Position st dir keyid row rest) (goes : Goes st keyid rest)
    (first : st.tab.first = true) (plain : st.tab.restart = none)
    (holds : HoldsRow st.tab.columns st.fcd.record row) : ReadsOn dir (row :: rest) st := by
  intro stack
  obtain ⟨st', read⟩ := position.returns goes stack
  cases position.step goes.opened goes.key read with
  | first _ now =>
      subst now
      refine ⟨_, read, rfl, holds, fun area length => ?_⟩
      have goes' := goes.setRecord length
      exact ((position.setFirst false).setFcd length).readsOn
        ⟨goes'.opened, goes'.key, goes'.readable, goes'.built⟩ rfl plain
  | again past => exact absurd (first.symm.trans past) (by decide)
  | next past => exact absurd (first.symm.trans past) (by decide)
  | ended past => exact absurd (first.symm.trans past) (by decide)

/-- The first READ after a START that used the cursor on, and includes the row remembered, gives
that row once more. -/
theorem Position.readsOn_again {st : State} {dir : Dir} {keyid : ℕ} {row : Row} {rest : List Row}
    (position : Position st dir keyid row rest) (goes : Goes st keyid rest)
    (past : st.tab.first = false) (again : st.tab.restart = some dir) :
    ReadsOn dir (row :: rest) st := by
  intro stack
  obtain ⟨st', read⟩ := position.returns goes stack
  cases position.step goes.opened goes.key read with
  | first was => exact absurd (was.symm.trans past) (by decide)
  | again _ _ now =>
      subst now
      refine ⟨_, read, rfl, position.record, fun area length => ?_⟩
      have length : area.length = st.fcd.record.length := length.trans position.size
      have goes' := goes.setRecord length
      exact ((position.setRestart (.inl rfl)).setFcd length).readsOn
        ⟨goes'.opened, goes'.key, goes'.readable, goes'.built⟩ past rfl
  | next _ was => cases was.symm.trans again
  | ended _ was => cases was.symm.trans again

/-- The shortcut is taken by the same key in the same direction with the same bytes. -/
theorem shortcut_iff {op : Comparison} {kbuf : List Byte} {st : State} :
    shortcut op kbuf st = true ↔ st.tab.keyAt op.dir = some st.fcd.keyId ∧
      kbuf = (st.tab.bufAt op.dir).take kbuf.length := by
  unfold shortcut
  cases op.dir <;>
    exact Bool.and_eq_true_iff.trans (and_congr decide_eq_true_iff decide_eq_true_iff)

/-- Comparisons of one direction are read in one order. -/
theorem descending_of_dir {op op' : Comparison} (same : op.dir = op'.dir) :
    op'.descending = op.descending := by
  cases op <;> cases op' <;> first | rfl | cases same

/-- What a START that uses the cursor on leaves alone, and which row it asks for again. -/
theorem restartScan_kept {op : Comparison} (inequality : op ≠ .eq) (st : State) :
    (restartScan op st).fcd = st.fcd ∧ (restartScan op st).tab.first = st.tab.first ∧
      (restartScan op st).tab.columns = st.tab.columns ∧
      (restartScan op st).tab.keys = st.tab.keys ∧
      (restartScan op st).tab.restart = if op.inclusive then some op.dir else st.tab.restart := by
  cases op with
  | eq => exact (inequality rfl).elim
  | _ => exact ⟨rfl, rfl, rfl, rfl, rfl⟩

/-- A START that has declared its cursor: it has read the first row, which the first READ gives
out. -/
structure Began (pg : Postgres) (op : Comparison) (cols : List ℕ) (key : List (ℕ × Value))
    (rows : List Row) (st : State) (keyid : ℕ) (row : Row) (rest : List Row) : Prop where
  first : st.tab.first = true
  plain : st.tab.restart = none
  holds : HoldsRow st.tab.columns st.fcd.record row
  position : Position st op.dir keyid row rest
  goes : Goes st keyid rest
  perm : (row :: rest).Perm (rows.filter fun row => pg.keyCompares op row key)
  sorted : (row :: rest).Pairwise (pg.keyLe op cols)

/-- A START that uses the cursor on: it asks for the row remembered once more when the comparison
includes it. -/
structure Resumed (pg : Postgres) (op : Comparison) (cols : List ℕ) (key : List (ℕ × Value))
    (rows : List Row) (st : State) (keyid : ℕ) (row : Row) (rest : List Row) : Prop where
  inequality : op ≠ .eq
  past : st.tab.first = false
  restart : st.tab.restart = if op.inclusive then some op.dir else none
  position : Position st op.dir keyid row rest
  goes : Goes st keyid rest
  remembered : key = rowKey cols row
  member : row ∈ rows
  perm : (if op.inclusive then row :: rest else rest).Perm
    (rows.filter fun row => pg.keyCompares op row key)
  sorted : (row :: rest).Pairwise (pg.keyLe op cols)

/-- What a START that meets the condition has done in a history. -/
theorem ScanRun.started {st st' : State} {scan : Option (Dir × ℕ)} (run : ScanRun env scan st)
    {fcd : Fcd} (size : fcd.record.length = st.fcd.record.length) {stack inner : ℕ → Byte}
    {op : Comparison} (met : StartMeets env scan stack op { st with fcd := fcd })
    (started : opStart env false stack inner op { st with fcd := fcd } = .ok st')
    (ok : st'.fcd.status = stOk) :
    ∃ cols key rows row rest, st.tab.keys[fcd.keyId]? = some cols ∧
      st.tab.startKey fcd.record cols = some key ∧ st.conn.working st.tab.relation = some rows ∧
      (Began env.pg op cols key rows st' fcd.keyId row rest ∨
        Resumed env.pg op cols key rows st' fcd.keyId row rest) := by
  obtain ⟨opened, kbuf, built, ⟨resumed, taken, rfl⟩ | ⟨tokens, order, rows, row, rest, found⟩⟩ :=
    opStart_outcome started ok met.fresh
  · obtain ⟨inequality, rfl, past, restart, identifies⟩ := met.resumed resumed
    obtain ⟨op', key', rows, front, row, rest, scanning⟩ := run.scanning
    have scanning :
        InScan env.pg { st with fcd := fcd } op.dir fcd.keyId op' key' rows front row rest :=
      scanning.move ⟨rfl, rfl, rfl, rfl⟩ rfl (scanning.position.setFcd size)
    obtain ⟨key, stands⟩ := Option.isSome_iff_exists.mp (met.numbers _ scanning.known)
    have table := met.table rows scanning.present
    have identified := identifies rows _ scanning.present scanning.known
    have inside : ∀ other ∈ front ++ row :: rest, other ∈ rows := fun other member =>
      (List.mem_filter.mp (scanning.found.subset member)).1
    have among : row ∈ rows := inside row (List.mem_append_right _ List.mem_cons_self)
    have same := scanning.position.startKey scanning.known table.laid (table.typed row among)
      (identified.filled row among) built (shortcut_iff.mp taken).2 stands
    have direction := descending_of_dir scanning.direction
    have perm := env.pg.perm_after scanning.inequality inequality direction rfl scanning.filled
      identified.filled identified.differ scanning.found scanning.sorted
    have order : env.pg.keyLe op (key'.map Prod.fst) = env.pg.keyLe op' (key'.map Prod.fst) := by
      funext a b
      unfold Postgres.keyLe
      rw [direction]
    have sorted : (row :: rest).Pairwise (env.pg.keyLe op (key'.map Prod.fst)) := by
      rw [order]
      exact scanning.sorted.sublist (List.sublist_append_right _ _)
    obtain ⟨fcd', first, columns, keys, again⟩ :=
      restartScan_kept inequality { st with fcd := fcd, eofStart := false }
    have goes : Goes ((restartScan op { st with fcd := fcd, eofStart := false }).setStatus stOk)
        fcd.keyId rest := by
      refine ⟨by rw [State.setStatus, fcd']; exact opened, by rw [State.setStatus, fcd'], ?_, kbuf,
        ?_⟩
      · rw [State.setStatus, columns, fcd']
        exact fun other member => table.readable other
          (inside other (List.mem_append_right _ (List.mem_cons_of_mem _ member)))
      · rw [State.setStatus, getkbuf_congr keys columns, fcd']
        exact built
    have position :=
      (scanning.restart rfl : InScan env.pg _ op.dir fcd.keyId op' key' rows front row
      rest).position
    have again' : st.tab.restart = none ∨ op.inclusive = true := restart.symm
    refine ⟨_, key, rows, row, rest, scanning.known, stands, scanning.present, .inr
      ⟨inequality, first.trans past, again.trans ?_, position, goes, same, among, ?_, sorted⟩⟩
    · cases inclusive : op.inclusive with
      | true => rfl
      | false => exact again'.resolve_right (by rw [inclusive]; exact Bool.false_ne_true)
    · rw [same]
      exact perm
  · obtain ⟨cols, key, known, stands, perm, sorted⟩ := found.inScan met ⟨kbuf, built⟩
    have table := met.table rows found.present
    have length := (pq2cobFrom_room (Nat.zero_le _) found.decoded).1
    have goes : Goes st' fcd.keyId rest := by
      refine ⟨by rw [found.fcd]; exact opened, by rw [found.fcd], ?_, ?_⟩
      · rw [found.same.columns, length]
        exact fun other member => table.readable other
          (List.mem_filter.mp (perm.subset (List.mem_cons_of_mem _ member))).1
      · rw [getkbuf_congr found.same.keys found.same.columns]
        exact getkbuf_of_length built length
    exact ⟨cols, key, rows, row, rest, known, stands, found.present, .inl
      ⟨found.first, found.plain, ⟨fcd.record, by rw [found.same.columns]; exact found.decoded⟩,
        found.position, goes, perm, sorted⟩⟩

/-- In a history in which every START meets the condition, the READs after a START that returned 00
give the rows whose keys compare with that of the record, in the order of the keys, and then the
end of the file. -/
theorem scan_reads {st st' : State} {scan : Option (Dir × ℕ)} (run : ScanRun env scan st)
    {fcd : Fcd}
    (size : fcd.record.length = st.fcd.record.length) {stack inner : ℕ → Byte} {op : Comparison}
    (met : StartMeets env scan stack op { st with fcd := fcd })
    (started : opStart env false stack inner op { st with fcd := fcd } = .ok st')
    (ok : st'.fcd.status = stOk) :
    ∃ cols key rows found, st.tab.keys[fcd.keyId]? = some cols ∧
      st.tab.startKey fcd.record cols = some key ∧
      st.conn.working st.tab.relation = some rows ∧
      found.Perm (rows.filter fun row => env.pg.keyCompares op row key) ∧
      found.Pairwise (env.pg.keyLe op cols) ∧ ReadsOn op.dir found st' := by
  obtain ⟨cols, key, rows, row, rest, known, stands, present, began | resumed⟩ :=
    run.started size met started ok
  · exact ⟨cols, key, rows, row :: rest, known, stands, present, began.perm, began.sorted,
      began.position.readsOn_first began.goes began.first began.plain began.holds⟩
  · refine ⟨cols, key, rows, _, known, stands, present, resumed.perm, ?_, ?_⟩
    · split
      · exact resumed.sorted
      · exact (List.pairwise_cons.mp resumed.sorted).2
    · have again := resumed.restart
      cases inclusive : op.inclusive with
      | true =>
          rw [inclusive, if_pos rfl] at again
          exact resumed.position.readsOn_again resumed.goes resumed.past again
      | false =>
          rw [inclusive, if_neg Bool.false_ne_true] at again
          exact resumed.position.readsOn resumed.goes resumed.past again

/-- Two balances. -/
def twoBalances : List Row := [[.num 1, .num (5 / 2)], [.num 2, .num 3]]

/-- A START on the balances meets its condition. -/
theorem startMeets_balances : StartMeets plainServer none (fun _ => 0) .ge
    (balances twoBalances [49, 48, 48, 48]) := by
  have fits : ∀ row ∈ twoBalances, RowFits balanceColumns row := by
    intro row member
    rcases List.mem_cons.mp member with rfl | member
    · exact .cons ⟨rfl, 1, by norm_num, by decide⟩ (.cons ⟨rfl, 25, by norm_num, by decide⟩ .nil)
    · obtain rfl := List.mem_singleton.mp member
      exact .cons ⟨rfl, 2, by norm_num, by decide⟩ (.cons ⟨rfl, 30, by norm_num, by decide⟩ .nil)
  refine ⟨rfl, ?_, ?_, fun _ => by exact nofun, ?_⟩
  · rintro cols ⟨⟩
    decide +kernel
  · rintro rows ⟨⟩
    exact ⟨by decide, by decide, fits,
      readable_of_fits (by decide) (by decide) (by decide) fits (by decide +kernel)⟩
  · intro taken
    exact absurd taken (by decide +kernel)

/-- A START on the table just opened, and the READs after it. -/
theorem scan_reads_balances :
    ∃ st', opStart plainServer false (fun _ => 0) (fun _ => 0) .ge
        (balances twoBalances [49, 48, 48, 48]) = .ok st' ∧
      ∃ found, found.Perm twoBalances ∧ found.Pairwise (plainServer.pg.keyLe .ge [0]) ∧
        ReadsOn .n found st' := by
  obtain ⟨st', started, status⟩ := map_eq_ok.mp (by decide +kernel :
    (fun st : State => st.fcd.status) <$> opStart plainServer false (fun _ => 0) (fun _ => 0) .ge
      (balances twoBalances [49, 48, 48, 48]) = .ok stOk)
  obtain ⟨cols, key, rows, found, known, stands, present, perm, sorted, reads⟩ :=
    scan_reads (.opened (balances twoBalances [49, 48, 48, 48])) rfl startMeets_balances started
      status
  cases known
  cases present
  have selected : (twoBalances.filter fun row => plainServer.pg.keyCompares .ge row key) =
      twoBalances := by
    have value : (balances twoBalances [49, 48, 48, 48]).tab.startKey [49, 48, 48, 48] [0] =
        some [(0, .num 1)] := by decide +kernel
    obtain rfl := Option.some.inj (value.symm.trans stands)
    decide +kernel
  rw [selected] at perm
  exact ⟨st', started, found, perm, sorted, reads⟩

/-- A START for the balance just read uses the cursor on and finds nothing, and what the program
puts into the record area after a START is taken for the row. -/
theorem scan_misses :
    (∃ st₁ st₂ st₃, opStart plainServer false (fun _ => 0) (fun _ => 0) .ge
        (balances twoBalances [50, 48, 48, 48]) = .ok st₁ ∧
      opNextPrev (fun _ => 0) .n st₁ = .ok st₂ ∧
      opStart plainServer false (fun _ => 0) (fun _ => 0) .eq st₂ = .ok st₃ ∧
      st₃.fcd.status = stOk ∧ st₃.fcd.record = [50, 48, 51, 48] ∧
      (twoBalances.filter fun row => plainServer.pg.keyCompares .eq row [(0, .num 2)]) =
        [[.num 2, .num 3]] ∧
      ¬ ReadsOn .n [[.num 2, .num 3]] st₃) ∧
    ∃ st₁ st₂, opStart plainServer false (fun _ => 0) (fun _ => 0) .ge
        (balances twoBalances [50, 48, 48, 48]) = .ok st₁ ∧ st₁.fcd.status = stOk ∧
      opNextPrev (fun _ => 0) .n (st₁.setRecord [57, 57, 57, 57]) = .ok st₂ ∧
      st₂.fcd.status = stOk ∧ st₂.fcd.record = [57, 57, 57, 57] := by
  constructor
  · have calls : (do
        let st₁ ← opStart plainServer false (fun _ => 0) (fun _ => 0) .ge
          (balances twoBalances [50, 48, 48, 48])
        let st₂ ← opNextPrev (fun _ => 0) .n st₁
        let st₃ ← opStart plainServer false (fun _ => 0) (fun _ => 0) .eq st₂
        (fun st₄ : State => (st₃.fcd.status, st₃.fcd.record, st₄.fcd.status)) <$>
          opNextPrev (fun _ => 0) .n st₃) = .ok (stOk, [50, 48, 51, 48], stEof) := by decide +kernel
    obtain ⟨st₁, started, calls⟩ := bind_eq_ok.mp calls
    obtain ⟨st₂, read, calls⟩ := bind_eq_ok.mp calls
    obtain ⟨st₃, again, calls⟩ := bind_eq_ok.mp calls
    obtain ⟨st₄, ended, seen⟩ := map_eq_ok.mp calls
    obtain ⟨status, seen⟩ := Prod.mk.inj seen
    obtain ⟨record, atEnd⟩ := Prod.mk.inj seen
    refine ⟨st₁, st₂, st₃, started, read, again, status, record, by decide +kernel, ?_⟩
    intro reads
    obtain ⟨st', read', ok, _⟩ := reads fun _ => 0
    obtain rfl := Except.ok.inj (ended.symm.trans read')
    rw [atEnd] at ok
    exact absurd ok (by decide)
  · have calls : (do
        let st₁ ← opStart plainServer false (fun _ => 0) (fun _ => 0) .ge
          (balances twoBalances [50, 48, 48, 48])
        (fun st₂ : State => (st₁.fcd.status, st₂.fcd.status, st₂.fcd.record)) <$>
          opNextPrev (fun _ => 0) .n (st₁.setRecord [57, 57, 57, 57])) =
        .ok (stOk, stOk, [57, 57, 57, 57]) := by decide +kernel
    obtain ⟨st₁, started, calls⟩ := bind_eq_ok.mp calls
    obtain ⟨st₂, read, seen⟩ := map_eq_ok.mp calls
    obtain ⟨status, seen⟩ := Prod.mk.inj seen
    obtain ⟨status', record⟩ := Prod.mk.inj seen
    exact ⟨st₁, st₂, started, status, read, status', record⟩

end Pqfh
