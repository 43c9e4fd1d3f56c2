import Pqfh.Handler.ScanRuns

/-! # What a read looks at of the connection

The operations that read look at the rows, at whether the transaction is aborted and at the cursor
of their own table, and they change nothing else of the connection: on another connection with the
same rows, of which these parts are the same, they do the same (`Pqfh.opStart_local`,
`Pqfh.opNextPrev_local`, `Pqfh.opReadRandom_local`).
-/

namespace Pqfh

/-! ## Another connection behind a table -/

/-- A connection with the cursor of a table and the aborted flag of another connection. -/
def Conn.over (back : Conn) (handle : ℕ) (conn : Conn) : Conn :=
  { back with
    aborted := conn.aborted
    cursors := Function.update back.cursors handle (conn.cursors handle) }

/-- A state on another connection, with other commits pending. -/
def State.over (back : Conn) (pending : ℕ) (st : State) : State :=
  { st with
    conn := back.over st.tab.handle st.conn
    pendingCommits := pending }

/-- The table is that of the state that is read. -/
@[simp] theorem State.over_tab (back : Conn) (pending : ℕ) (st : State) :
    (st.over back pending).tab = st.tab := rfl

/-- The caller's block is that of the state that is read. -/
@[simp] theorem State.over_fcd (back : Conn) (pending : ℕ) (st : State) :
    (st.over back pending).fcd = st.fcd := rfl

/-- The connection is the other one, with the cursor of this table. -/
@[simp] theorem State.over_conn (back : Conn) (pending : ℕ) (st : State) :
    (st.over back pending).conn = back.over st.tab.handle st.conn := rfl

variable {back conn : Conn} {handle : ℕ}

/-- A connection over itself is itself. -/
@[simp] theorem Conn.over_self (conn : Conn) (handle : ℕ) : conn.over handle conn = conn := by
  simp [Conn.over]

/-- The transaction is aborted when that of the reader is. -/
@[simp] theorem Conn.over_aborted : (back.over handle conn).aborted = conn.aborted := rfl

/-- The rows are those of the connection below. -/
@[simp] theorem Conn.over_working : (back.over handle conn).working = back.working := rfl

/-- The cursor of the table is that of the reader. -/
@[simp] theorem Conn.over_cursor : (back.over handle conn).cursors handle = conn.cursors handle :=
  Function.update_self ..

/-- A failed statement aborts both alike. -/
@[simp] theorem Conn.over_fail : (back.over handle conn).fail = back.over handle conn.fail := rfl

/-- The cursor that is set is the one that is put over. -/
@[simp] theorem Conn.over_setCursor (cursor : Option Cursor) :
    (back.over handle conn).setCursor handle cursor =
    back.over handle (conn.setCursor handle cursor) := by
  simp [Conn.over, Conn.setCursor]

/-- A statement is prepared alike on the same rows. -/
theorem Conn.over_prepare (same : back.working = conn.working) (relation : ℕ) :
    (back.over handle conn).prepare relation = conn.prepare relation := by
  simp only [Conn.prepare, Conn.over_aborted, Conn.over_working, same]

/-- A SELECT gives the same rows on the same tables. -/
theorem Conn.over_select (same : back.working = conn.working) (relation : ℕ)
    (condition : Option Condition) :
    (back.over handle conn).select relation condition =
      (back.over handle (conn.select relation condition).1,
      (conn.select relation condition).2) := by
  unfold Conn.select
  simp only [Conn.over_aborted, Conn.over_working, same]
  by_cases dead : conn.aborted = true
  · simp only [dead, if_true]
  · simp only [dead, Bool.false_eq_true, if_false]
    split <;> rfl

/-- A FETCH gives the same row, whatever the other cursors are. -/
theorem Conn.over_fetch : (back.over handle conn).fetch handle =
    (back.over handle (conn.fetch handle).1, (conn.fetch handle).2) := by
  unfold Conn.fetch
  simp only [Conn.over_aborted, Conn.over_cursor]
  by_cases dead : conn.aborted = true
  · simp only [dead, if_true]
  · simp only [dead, Bool.false_eq_true, if_false]
    split <;> simp

/-- A cursor is closed alike. -/
theorem Conn.over_closeCursor :
    (back.over handle conn).closeCursor handle = back.over handle (conn.closeCursor handle) := by
  unfold Conn.closeCursor
  simp only [Conn.over_aborted, Conn.over_cursor, Conn.over_setCursor, Conn.over_fail]
  split
  · rfl
  · split <;> rfl

/-- A cursor is declared alike on the same rows. -/
theorem Conn.over_declare (pg : Postgres) (same : back.working = conn.working) (relation : ℕ)
    (tokens : List Token) (order : List (ℕ × Bool)) :
    (back.over handle conn).declare pg handle relation tokens order =
      (back.over handle (conn.declare pg handle relation tokens order).1,
        (conn.declare pg handle relation tokens order).2) := by
  unfold Conn.declare
  simp only [Conn.over_aborted, Conn.over_cursor, Conn.over_working, same]
  by_cases dead : conn.aborted = true
  · simp only [dead, if_true]
  · simp only [dead, Bool.false_eq_true, if_false]
    split <;> simp

/-- A SELECT changes no row. -/
theorem Conn.select_working (conn : Conn) (relation : ℕ) (condition : Option Condition) :
    (conn.select relation condition).1.working = conn.working := by
  unfold Conn.select
  split
  · rfl
  · split <;> rfl

/-- A FETCH changes no row. -/
theorem Conn.fetch_working (conn : Conn) (handle : ℕ) :
    (conn.fetch handle).1.working = conn.working := by
  unfold Conn.fetch
  split
  · rfl
  · split <;> rfl

/-- Closing a cursor changes no row. -/
theorem Conn.closeCursor_working (conn : Conn) (handle : ℕ) :
    (conn.closeCursor handle).working = conn.working := by
  unfold Conn.closeCursor
  split
  · rfl
  · split <;> rfl

/-- Declaring a cursor changes no row. -/
theorem Conn.declare_working (pg : Postgres) (conn : Conn) (handle relation : ℕ)
    (tokens : List Token) (order : List (ℕ × Bool)) :
    (conn.declare pg handle relation tokens order).1.working = conn.working := by
  unfold Conn.declare
  split
  · rfl
  · split <;> rfl

/-! ## The operations -/

/-- The outcome of an operation: on another connection with the same rows it does the same, and the
rows and the name of the cursor stay. -/
structure Local (op : State → Except Stop State) (st st' : State) : Prop where
  covers : ∀ (back : Conn) (pending : ℕ), back.working = st.conn.working →
    ∃ pending', op (st.over back pending) = .ok (st'.over back pending')
  handle : st'.tab.handle = st.tab.handle
  working : st'.conn.working = st.conn.working

/-- A row is delivered alike, and neither the table nor the connection changes. -/
theorem State.deliver_over {st st' : State} {weak : Bool} {rows : Option (List Row)}
    (delivered : st.deliver weak rows = .ok st') (back : Conn) (pending : ℕ) :
    (st.over back pending).deliver weak rows = .ok (st'.over back pending) ∧
      st'.tab = st.tab ∧ st'.conn = st.conn := by
  rcases rows with - | - | ⟨row, rest⟩
  · cases delivered
    exact ⟨rfl, rfl, rfl⟩
  · cases delivered
    exact ⟨rfl, rfl, rfl⟩
  · simp only [State.deliver] at delivered ⊢
    split at delivered
    · rename_i probe
      cases delivered
      exact ⟨if_pos probe, rfl, rfl⟩
    · rename_i reads
      obtain ⟨record, decoded, ended⟩ := bind_eq_ok.mp delivered
      cases ended
      exact ⟨(if_neg reads).trans (bind_eq_ok.mpr ⟨record, decoded, rfl⟩), rfl, rfl⟩

/-- A READ by key depends on the rows and on its own table alone. -/
theorem fetchRandom_local {env : Env} {weak : Bool} {cols : List ℕ} {st st' : State}
    (fetched : fetchRandom env weak cols st = .ok st') :
    Local (fetchRandom env weak cols) st st' := by
  obtain ⟨⟨bufs, texts⟩, bound, _⟩ := bind_eq_ok.mp fetched
  rw [fetchRandom_eq env weak bound] at fetched
  have delivered := State.deliver_over fetched
  obtain ⟨_, tab, conn⟩ := delivered st.conn 0
  refine ⟨fun back pending same => ⟨pending, ?_⟩, by rw [tab]; rfl, ?_⟩
  · rw [@fetchRandom_eq env weak cols (st.over back pending) bufs texts bound,
      ← (delivered back pending).1]
    dsimp only [State.over]
    rw [Conn.over_select same]
    rfl
  · rw [conn]
    exact st.conn.select_working _ _

/-- `prepareRandom` changes the table alone. -/
theorem prepareRandom_local {env : Env} {weak withLock : Bool} {kbuf : List Byte} {st st' : State}
    {cols : Option (List ℕ)}
    (prepared : prepareRandom env weak withLock kbuf st = .ok (cols, st')) :
    (∀ (back : Conn) (pending : ℕ), back.working = st.conn.working →
      prepareRandom env weak withLock kbuf (st.over back pending) =
        .ok (cols, st'.over back pending)) ∧
      st'.tab.handle = st.tab.handle ∧ st'.conn = st.conn := by
  cases prepareRandom_iff.mp prepared with
  | found found => exact ⟨fun back pending _ => prepareRandom_iff.mpr (.found found), rfl, rfl⟩
  | refused missing chosen asks busy =>
      exact ⟨fun back pending _ => prepareRandom_iff.mpr (.refused missing chosen asks busy),
        rfl, rfl⟩
  | prepared missing chosen granted done =>
      refine ⟨fun back pending same => ?_, rfl, rfl⟩
      exact prepareRandom_iff.mpr (.prepared missing chosen granted
        ((Conn.over_prepare same st.tab.relation).trans done))

/-- The lock is given back over any connection. -/
theorem State.released_over (st : State) (back : Conn) (pending : ℕ) :
    ∃ pending', (st.over back pending).released = st.released.over back pending' := by
  unfold State.released
  by_cases held : 0 < st.tab.advisoryLock
  · rw [if_pos held]
    exact ⟨pending + 1, if_pos held⟩
  · rw [if_neg held]
    exact ⟨pending, if_neg held⟩

/-- `op_read_random` works on the rows and the cursor of its own table. -/
theorem opReadRandom_local {env : Env} {weak withLock : Bool} {st st' : State}
    (read : opReadRandom env weak withLock st = .ok st') :
    Local (opReadRandom env weak withLock) st st' := by
  cases opReadRandom_iff.mp read with
  | closed closed =>
      exact ⟨fun back pending _ => ⟨pending, opReadRandom_iff.mpr (.closed closed)⟩, rfl, rfl⟩
  | @locked kbuf st₂ opened built prepared =>
      obtain ⟨again, handle, conn⟩ := prepareRandom_local prepared
      refine ⟨fun back pending same => ?_, handle.trans st.released_handle,
        congrArg Conn.working (conn.trans st.released_conn)⟩
      obtain ⟨pending', unlocks⟩ := st.released_over back pending
      have prepared := again back pending' (by rw [same, st.released_conn])
      rw [← unlocks] at prepared
      have reads : ReadsRandom env weak withLock (st.over back pending)
          ((st₂.over back pending').setStatus stLocked) := .locked opened built prepared
      exact ⟨pending', opReadRandom_iff.mpr reads⟩
  | fetched opened built prepared fetched =>
      obtain ⟨again, handle, conn⟩ := prepareRandom_local prepared
      have conn := conn.trans st.released_conn
      have ends := fetchRandom_local fetched
      refine ⟨fun back pending same => ?_, ends.handle.trans (handle.trans st.released_handle),
        ends.working.trans (by rw [conn])⟩
      obtain ⟨pending', unlocks⟩ := st.released_over back pending
      obtain ⟨pending'', ended⟩ := ends.covers back pending' (by rw [same, conn])
      refine ⟨pending'', opReadRandom_iff.mpr (.fetched opened built ?_ ended)⟩
      rw [unlocks]
      exact again back pending' (by rw [same, st.released_conn])

/-- What `fetchNextPrev` does with the row fetched. -/
def State.read (st : State) (stack : ℕ → Byte) (dir : Dir) : Option Row → Except Stop State
  | none => .ok (st.setStatus stEof)
  | some row => do
      let record ← pq2cob st.tab.columns row st.fcd.record
      let key ← getkbuf st.tab st.fcd.keyId record
      return ((st.setRecord record).setStatus stOk).remember dir (stackCopy stack key)

/-- READ NEXT and READ PREVIOUS fetch a row and read it into the record area. -/
theorem fetchNextPrev_eq (stack : ℕ → Byte) (dir : Dir) (st : State) :
    fetchNextPrev stack dir st = (st.setConn (st.conn.fetch st.tab.handle).1).read stack dir
      (st.conn.fetch st.tab.handle).2 := by
  unfold fetchNextPrev
  cases st.conn.fetch st.tab.handle with
  | mk conn row => cases row <;> rfl

/-- A row is read into the area alike. -/
theorem State.read_over {st st' : State} {stack : ℕ → Byte} {dir : Dir} {row : Option Row}
    (read : st.read stack dir row = .ok st') (back : Conn) (pending : ℕ) :
    (st.over back pending).read stack dir row = .ok (st'.over back pending) ∧
      st'.tab.handle = st.tab.handle ∧ st'.conn = st.conn := by
  cases row with
  | none =>
      cases read
      exact ⟨rfl, rfl, rfl⟩
  | some row =>
      obtain ⟨record, decoded, read⟩ := bind_eq_ok.mp read
      obtain ⟨key, built, ended⟩ := bind_eq_ok.mp read
      cases ended
      refine ⟨bind_eq_ok.mpr ⟨record, decoded, bind_eq_ok.mpr ⟨key, built, ?_⟩⟩, ?_, ?_⟩ <;>
        cases dir <;> rfl

/-- READ NEXT and READ PREVIOUS depend on their own cursor alone. -/
theorem fetchNextPrev_local {stack : ℕ → Byte} {dir : Dir} {st st' : State}
    (fetched : fetchNextPrev stack dir st = .ok st') : Local (fetchNextPrev stack dir) st st' := by
  rw [fetchNextPrev_eq] at fetched
  have read := State.read_over fetched
  obtain ⟨_, handle, conn⟩ := read st.conn 0
  refine ⟨fun back pending same => ⟨pending, ?_⟩, handle, ?_⟩
  · rw [fetchNextPrev_eq, ← (read back pending).1]
    dsimp only [State.over]
    rw [Conn.over_fetch]
    rfl
  · rw [conn]
    exact st.conn.fetch_working _

/-- `op_next_prev` works on the cursor of its own table. -/
theorem opNextPrev_local {stack : ℕ → Byte} {dir : Dir} {st st' : State}
    (read : opNextPrev stack dir st = .ok st') : Local (opNextPrev stack dir) st st' := by
  cases opNextPrev_iff.mp read with
  | closed closed =>
      exact ⟨fun back pending _ => ⟨pending, opNextPrev_iff.mpr (.closed closed)⟩, rfl, rfl⟩
  | first opened first =>
      exact ⟨fun back pending _ => ⟨pending, opNextPrev_iff.mpr (.first opened first)⟩, rfl, rfl⟩
  | nothing opened past nothing =>
      exact ⟨fun back pending _ => ⟨pending, opNextPrev_iff.mpr (.nothing opened past nothing)⟩,
        rfl, rfl⟩
  | again opened past going again =>
      exact ⟨fun back pending _ => ⟨pending, opNextPrev_iff.mpr (.again opened past going again)⟩,
        rfl, rfl⟩
  | fetched opened past going other fetched =>
      obtain ⟨covers, handle, working⟩ := fetchNextPrev_local fetched
      refine ⟨fun back pending same => ?_, handle, working⟩
      obtain ⟨pending', fetched⟩ := covers back pending same
      exact ⟨pending', opNextPrev_iff.mpr (.fetched opened past going other fetched)⟩

/-- The cursor of a table is closed alike. -/
theorem State.closeCursor_over (st : State) (back : Conn) (pending : ℕ) :
    (st.over back pending).closeCursor = st.closeCursor.over back pending := by
  unfold State.closeCursor
  simp only [State.over_tab, State.over_conn, Conn.over_closeCursor]
  split <;> rfl

/-- What `declareScan` does before DECLARE. -/
def State.opening (st : State) : State :=
  { st.closeCursor with tab := { st.closeCursor.tab with cursor := true } }

/-- What it does after DECLARE. -/
def State.declared (st : State) (dir : Dir) (conn : Conn) : State :=
  { st.setConn conn with
    tab := match dir with
      | .n => { st.tab with first := false, keyNext := some st.fcd.keyId }
      | .p => { st.tab with first := false, keyPrev := some st.fcd.keyId } }

/-- What it does after the READ of the first row. -/
def State.began (st : State) : State :=
  if st.fcd.status = stEof then
    { st with tab := { st.tab with first := false } }.setStatus stRecNotFound
  else { st with tab := { st.tab with first := true } }

/-- A scan is declared when its condition can be built, and then the cursor is the answer. -/
theorem declareScan_eq_ok {env : Env} {weak : Bool} {stack : ℕ → Byte} {op : Comparison}
    {st st' : State} : declareScan env weak stack op st = .ok st' ↔ ∃ tokens order conn read,
      getwhere env st.opening.tab st.fcd.record st.fcd.keyId (if weak then .eq else op) weak =
        .ok (tokens, order) ∧
      st.opening.conn.declare env.pg st.opening.tab.handle st.opening.tab.relation tokens order =
        (conn, true) ∧
      opNextPrev stack op.dir (st.opening.declared op.dir conn) = .ok read ∧ st' = read.began := by
  have fcd : st.opening.fcd = st.fcd := by
    unfold State.opening State.closeCursor
    split <;> rfl
  have closed : st.closeCursor.fcd = st.fcd := fcd
  constructor
  · intro declared
    unfold declareScan at declared
    obtain ⟨⟨tokens, order⟩, written, declared⟩ := bind_eq_ok.mp declared
    dsimp only at declared written
    rw [closed] at written
    generalize executed : st.closeCursor.conn.declare env.pg _ _ tokens order = outcome at declared
    obtain ⟨conn, done⟩ := outcome
    cases done with
    | false => cases declared
    | true =>
        obtain ⟨read, reads, ended⟩ := bind_eq_ok.mp declared
        refine ⟨tokens, order, conn, read, written, executed, reads, ?_⟩
        unfold State.began
        split at ended
        · rename_i last
          cases ended
          rw [if_pos last]
        · rename_i more
          cases ended
          rw [if_neg more]
  · rintro ⟨tokens, order, conn, read, written, executed, reads, rfl⟩
    unfold declareScan
    rw [← closed] at written
    refine bind_eq_ok.mpr ⟨(tokens, order), written, ?_⟩
    dsimp only [State.opening] at executed ⊢
    rw [executed]
    refine bind_eq_ok.mpr ⟨read, reads, ?_⟩
    unfold State.began
    split <;> rfl

/-- `declareScan` works on the rows and the cursor of its own table. -/
theorem declareScan_local {env : Env} {weak : Bool} {stack : ℕ → Byte} {op : Comparison}
    {st st' : State} (declared : declareScan env weak stack op st = .ok st') :
    Local (declareScan env weak stack op) st st' := by
  obtain ⟨tokens, order, conn, read, written, executed, reads, rfl⟩ := declareScan_eq_ok.mp declared
  obtain ⟨covers, handle, working⟩ := opNextPrev_local reads
  have opening : ∀ back pending, (st.over back pending).opening = st.opening.over back pending := by
    intro back pending
    unfold State.opening
    rw [st.closeCursor_over]
    rfl
  have closed : st.opening.tab.handle = st.tab.handle ∧
      st.opening.conn.working = st.conn.working := by
    unfold State.opening State.closeCursor
    split
    · exact ⟨rfl, st.conn.closeCursor_working _⟩
    · exact ⟨rfl, rfl⟩
  have left := st.opening.conn.declare_working env.pg st.opening.tab.handle st.opening.tab.relation
    tokens order
  rw [executed] at left
  have began : ∀ back pending, (read.over back pending).began = read.began.over back pending := by
    intro back pending
    by_cases last : read.fcd.status = stEof
    · have ends : read.began = _ := if_pos last
      rw [ends]
      exact if_pos last
    · have begins : read.began = _ := if_neg last
      rw [begins]
      exact if_neg last
  have same : read.began.tab.handle = read.tab.handle ∧ read.began.conn = read.conn := by
    unfold State.began
    split <;> exact ⟨rfl, rfl⟩
  have declaredHandle : (st.opening.declared op.dir conn).tab.handle = st.opening.tab.handle := by
    cases op.dir <;> rfl
  refine ⟨fun back pending rows => ?_, ?_, ?_⟩
  · obtain ⟨pending', again⟩ := covers back pending (rows.trans (closed.2.symm.trans left.symm))
    refine ⟨pending', declareScan_eq_ok.mpr ⟨tokens, order, back.over st.opening.tab.handle conn,
      read.over back pending', ?_, ?_, ?_, (began back pending').symm⟩⟩
    · rw [opening]
      exact written
    · rw [opening, State.over_conn, State.over_tab,
        Conn.over_declare env.pg (rows.trans closed.2.symm),
        executed]
    · rw [← again, opening]
      cases op.dir <;> rfl
  · rw [same.1, handle, declaredHandle, closed.1]
  · rw [same.2, working]
    exact left.trans closed.2

/-- `op_start` works on the rows and the cursor of its own table. -/
theorem opStart_local {env : Env} {weak : Bool} {stack inner : ℕ → Byte} {op : Comparison}
    {st st' : State} (started : opStart env weak stack inner op st = .ok st') :
    Local (opStart env weak stack inner op) st st' := by
  unfold opStart at started
  split at started
  · rename_i closed
    cases started
    exact ⟨fun back pending _ => ⟨pending, if_pos closed⟩, rfl, rfl⟩
  · rename_i opened
    obtain ⟨kbuf, built, started⟩ := bind_eq_ok.mp started
    let going : State := { st with eofStart := false }
    have taken : ∀ back pending, shortcut op (stackCopy stack kbuf) (going.over back pending) =
        shortcut op (stackCopy stack kbuf) going := by
      intro back pending
      unfold shortcut
      rfl
    dsimp only at started
    split at started
    · rename_i same
      cases started
      refine ⟨fun back pending _ =>
        ⟨pending, (if_neg opened).trans (bind_eq_ok.mpr ⟨kbuf, built, ?_⟩)⟩,
        ?_, ?_⟩
      · refine (if_pos ((taken back pending).trans same)).trans ?_
        cases op <;> rfl
      · cases op <;> rfl
      · cases op <;> rfl
    · rename_i fresh
      have skips : ∀ back pending, ¬ shortcut op (stackCopy stack kbuf) (going.over back pending) =
          true :=
        fun back pending => by rw [taken]; exact fresh
      split at started
      · rename_i probes
        obtain ⟨read, reads, started⟩ := bind_eq_ok.mp started
        obtain ⟨covers, handle, working⟩ := opReadRandom_local reads
        split at started
        · rename_i missing
          cases started
          refine ⟨fun back pending rows => ?_, handle, working⟩
          obtain ⟨pending', again⟩ := covers back pending rows
          exact ⟨pending', (if_neg opened).trans (bind_eq_ok.mpr ⟨kbuf, built,
            (if_neg (skips back pending)).trans ((if_pos probes).trans
              (bind_eq_ok.mpr ⟨_, again, if_pos missing⟩))⟩)⟩
        · rename_i found
          obtain ⟨covers', handle', working'⟩ := declareScan_local started
          refine ⟨fun back pending rows => ?_, handle'.trans handle, working'.trans working⟩
          obtain ⟨pending', again⟩ := covers back pending rows
          obtain ⟨pending'', last⟩ := covers' back pending' (rows.trans working.symm)
          exact ⟨pending'', (if_neg opened).trans (bind_eq_ok.mpr ⟨kbuf, built,
            (if_neg (skips back pending)).trans ((if_pos probes).trans
              (bind_eq_ok.mpr ⟨_, again, (if_neg found).trans last⟩))⟩)⟩
      · rename_i plain
        obtain ⟨covers, handle, working⟩ := declareScan_local started
        refine ⟨fun back pending rows => ?_, handle, working⟩
        obtain ⟨pending', again⟩ := covers back pending rows
        exact ⟨pending', (if_neg opened).trans (bind_eq_ok.mpr ⟨kbuf, built,
          (if_neg (skips back pending)).trans ((if_neg plain).trans again)⟩)⟩

end Pqfh
