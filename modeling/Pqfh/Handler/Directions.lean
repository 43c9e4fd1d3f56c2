import Pqfh.Handler.ScanRuns

/-! # READs in both directions

READ NEXT and READ PREVIOUS fetch from the one cursor that START has declared, which only goes in
the direction of the START. A READ in the other direction therefore goes on in that of the START,
and a cursor for `=` has nothing after its row. `Pqfh.reads_both_ways` says which READs after a
START give the row that is next in their own direction.
-/

namespace Pqfh

/-- The comparison of the rows that a READ looks for with the row given last. -/
def Dir.beyond : Dir → Comparison
  | .n => .gt
  | .p => .lt

section Answers

variable (pg : Postgres) (cols : List ℕ) (rows : List Row)

/-- The row that a READ in a direction is to give after a row. -/
structure Nearest (dir : Dir) (last row : Row) : Prop where
  mem : row ∈ rows
  beyond : pg.keyCompares dir.beyond row (rowKey cols last) = true
  nearest : ∀ other ∈ rows, pg.keyCompares dir.beyond other (rowKey cols last) = true →
    pg.keyLe dir.beyond cols row other

/-- There is no row for a READ in a direction. -/
def NoneBeyond (dir : Dir) (last : Row) : Prop :=
  ∀ other ∈ rows, pg.keyCompares dir.beyond other (rowKey cols last) = false

instance decidableNoneBeyond (dir : Dir) (last : Row) :
    Decidable (NoneBeyond pg cols rows dir last) :=
  inferInstanceAs (Decidable (∀ other ∈ rows, _ = _))

/-- The row that a START positions on. -/
structure Positioned (op : Comparison) (key : List (ℕ × Value)) (row : Row) : Prop where
  mem : row ∈ rows
  compares : pg.keyCompares op row key = true
  first : ∀ other ∈ rows, pg.keyCompares op other key = true → pg.keyLe op cols row other

/-- When a READ may follow the READs after a START: it goes in the direction of the START, which is
not for `=`, or there is nothing more to read, neither in the cursor nor in its own direction. -/
def MayRead (op : Comparison) (dir : Dir) (last : Row) : Prop :=
  op ≠ .eq ∧ dir = op.dir ∨
    (op = .eq ∨ NoneBeyond pg cols rows op.dir last) ∧ NoneBeyond pg cols rows dir last

/-- As long as the READs are ones that may follow, each gives the next row in its direction, or the
end of the file when there is none, whatever the program puts into the record area between them. -/
def ReadsBoth (op : Comparison) : List Dir → Row → State → Prop
  | [], _, _ => True
  | dir :: dirs, last, st => MayRead pg cols rows op dir last →
      ∀ stack, ∃ st', opNextPrev stack dir st = .ok st' ∧
        ((∃ row, Nearest pg cols rows dir last row ∧ st'.fcd.status = stOk ∧
            HoldsRow st'.tab.columns st'.fcd.record row ∧
            ∀ area : List Byte, area.length = st'.fcd.record.length →
              ReadsBoth op dirs row (st'.setRecord area)) ∨
          NoneBeyond pg cols rows dir last ∧ st'.fcd.status = stEof ∧
            ∀ area : List Byte, area.length = st'.fcd.record.length →
              ReadsBoth op dirs last (st'.setRecord area))

/-- The first READ after a START gives the row that the START has positioned on, and the others
go on from it. A START that asks for the row remembered once more is to be followed by a READ in its
own direction. -/
def ReadsFrom (op : Comparison) (key : List (ℕ × Value)) : List Dir → State → Prop
  | [], _ => True
  | dir :: dirs, st => st.tab.restart = none ∨ st.tab.restart = some dir →
      ∀ stack, ∃ st', opNextPrev stack dir st = .ok st' ∧
        ((∃ row, Positioned pg cols rows op key row ∧ st'.fcd.status = stOk ∧
            HoldsRow st'.tab.columns st'.fcd.record row ∧
            ∀ area : List Byte, area.length = st'.fcd.record.length →
              ReadsBoth pg cols rows op dirs row (st'.setRecord area)) ∨
          (∀ other ∈ rows, pg.keyCompares op other key = false) ∧ st'.fcd.status = stEof)

end Answers

/-! ## The cursor -/

/-- A cursor that has rows still to give, with nothing else to give before. -/
structure CursorAt (st : State) (keyid : ℕ) (rest : List Row) : Prop where
  live : st.conn.aborted = false
  going : st.eofStart = false
  past : st.tab.first = false
  plain : st.tab.restart = none
  cursor : ∃ held, st.conn.cursors st.tab.handle = some ⟨rest, held⟩
  goes : Goes st keyid rest

/-- A cursor stands where it did after the record area is set. -/
theorem CursorAt.setRecord {st : State} {keyid : ℕ} {rest : List Row}
    (stands : CursorAt st keyid rest)
    {area : List Byte} (length : area.length = st.fcd.record.length) :
    CursorAt (st.setRecord area) keyid rest :=
  ⟨stands.live, stands.going, stands.past, stands.plain, stands.cursor,
    stands.goes.setRecord length⟩

/-- A cursor stands where it did after the status is set. -/
theorem CursorAt.setStatus {st : State} {keyid : ℕ} {rest : List Row}
    (stands : CursorAt st keyid rest)
    (status : Status) : CursorAt (st.setStatus status) keyid rest :=
  ⟨stands.live, stands.going, stands.past, stands.plain, stands.cursor,
    stands.goes.opened, stands.goes.key, stands.goes.readable, stands.goes.built⟩

/-- A READ in either direction goes to the cursor. -/
theorem CursorAt.fetches {st : State} {keyid : ℕ} {rest : List Row}
    (stands : CursorAt st keyid rest) (stack : ℕ → Byte) (dir : Dir) :
    opNextPrev stack dir st = fetchNextPrev stack dir st := by
  have other : st.tab.restart ≠ some dir := by
    rw [stands.plain]
    exact Option.some_ne_none dir |>.symm
  have forget : { st with tab := { st.tab with restart := none } } = st := by
    rw [← stands.plain]
  rw [opNextPrev_forgets stands.goes.opened stands.past stands.going other, forget]

/-- At the end a cursor gives the status of the end. -/
theorem CursorAt.ends {st : State} {keyid : ℕ} (stands : CursorAt st keyid []) (stack : ℕ → Byte)
    (dir : Dir) : opNextPrev stack dir st = .ok (st.setStatus stEof) := by
  obtain ⟨held, cursor⟩ := stands.cursor
  have fetched : st.conn.fetch st.tab.handle = (st.conn, none) := by
    simp only [Conn.fetch, stands.live, Bool.false_eq_true, ↓reduceIte, cursor]
  rw [stands.fetches, fetchNextPrev, fetched]
  rfl

/-- A READ in either direction gives the next row of the cursor. -/
theorem CursorAt.gives {st : State} {keyid : ℕ} {row : Row} {later : List Row}
    (stands : CursorAt st keyid (row :: later)) (stack : ℕ → Byte) (dir : Dir) :
    ∃ st', opNextPrev stack dir st = .ok st' ∧ st'.fcd.status = stOk ∧
      HoldsRow st'.tab.columns st'.fcd.record row ∧ CursorAt st' keyid later := by
  obtain ⟨held, cursor⟩ := stands.cursor
  have fetched : st.conn.fetch st.tab.handle =
      (st.conn.setCursor st.tab.handle (some ⟨later, held⟩), some row) := by
    simp only [Conn.fetch, stands.live, Bool.false_eq_true, ↓reduceIte, cursor]
  obtain ⟨record, decoded⟩ :=
    stands.goes.readable row List.mem_cons_self st.fcd.record rfl
  have length := (pq2cobFrom_room (Nat.zero_le _) decoded).1
  obtain ⟨kbuf, built⟩ := stands.goes.built
  obtain ⟨kbuf', built'⟩ := getkbuf_of_length built length
  let next := ((st.setConn (st.conn.setCursor st.tab.handle (some ⟨later, held⟩))).setRecord
    record).setStatus stOk
  have read : opNextPrev stack dir st = .ok (next.remember dir (stackCopy stack kbuf')) := by
    rw [stands.fetches, fetchNextPrev, fetched]
    simp only [State.setConn, decoded, ok_bind]
    change (getkbuf st.tab st.fcd.keyId record >>= fun key =>
      pure (next.remember dir (stackCopy stack key))) = _
    rw [stands.goes.key, built']
    rfl
  obtain ⟨conn, fcd, eof, first, restart, handle, _, columns, keys⟩ :=
    next.remember_kept dir (stackCopy stack kbuf')
  have cursor' : next.conn.cursors next.tab.handle = some ⟨later, held⟩ := Function.update_self ..
  refine ⟨_, read, by rw [fcd]; rfl, ⟨st.fcd.record, ?_⟩, ?_⟩
  · rw [columns, fcd]
    exact decoded
  · refine ⟨by rw [conn]; exact stands.live, eof.trans stands.going,
      first.trans stands.past, restart.trans stands.plain, ⟨held, ?_⟩, ?_⟩
    · rw [conn, handle]
      exact cursor'
    · refine ⟨by rw [fcd]; exact stands.goes.opened, by rw [fcd]; exact stands.goes.key, ?_, ?_⟩
      · rw [columns, fcd]
        intro other member area whole
        exact stands.goes.readable other (List.mem_cons_of_mem _ member) area
          (whole.trans length)
      · rw [getkbuf_congr keys columns, fcd]
        exact ⟨kbuf', built'⟩

/-! ## The READs after the first -/

/-- What lies beyond is read in the same direction. -/
@[simp] theorem Comparison.beyond_descending (op : Comparison) :
    op.dir.beyond.descending = op.descending := by
  cases op <;> rfl

/-- What lies beyond is an inequality. -/
theorem Dir.beyond_ne_eq (dir : Dir) : dir.beyond ≠ .eq := by
  cases dir <;> decide

/-- What lies beyond leaves the row itself out. -/
theorem Dir.beyond_strict (dir : Dir) : dir.beyond.inclusive = false := by
  cases dir <;> rfl

section Ahead

variable {pg : Postgres} {cols : List ℕ} {rows : List Row} {op : Comparison}

/-- What lies beyond is ordered as the scan is. -/
theorem Postgres.keyLe_beyond : pg.keyLe op.dir.beyond cols = pg.keyLe op cols := by
  funext a b
  unfold Postgres.keyLe
  rw [op.beyond_descending]

/-- The cursor has the rows after a row, and none for `=`. -/
structure RowsAhead (pg : Postgres) (cols : List ℕ) (rows : List Row) (op : Comparison) (st : State)
    (keyid : ℕ) (row : Row) (rest : List Row) : Prop where
  cursor : CursorAt st keyid rest
  member : row ∈ rows
  only : op = .eq → rest = []
  ahead : op ≠ .eq → rest.Perm
    (rows.filter fun other => pg.keyCompares op.dir.beyond other (rowKey cols row))
  sorted : rest.Pairwise (pg.keyLe op.dir.beyond cols)

/-- The key of a row that is identified has no NULL in it. -/
theorem rowKey_filled (identified : Identifies cols rows) {row : Row} (member : row ∈ rows) :
    ∀ column ∈ rowKey cols row, column.2 ≠ .null := by
  intro column inside
  obtain ⟨i, among, rfl⟩ := List.mem_map.mp inside
  exact identified.filled row member i among

/-- The key of a row names the columns it was taken from. -/
theorem map_fst_rowKey (cols : List ℕ) (row : Row) : (rowKey cols row).map Prod.fst = cols := by
  unfold rowKey
  rw [List.map_map]
  exact List.map_id cols

variable {st : State} {keyid : ℕ} {row : Row} {rest : List Row}

/-- Nothing lies beyond a row exactly when no row of the scan is left. -/
theorem RowsAhead.noneBeyond (scan : RowsAhead pg cols rows op st keyid row rest)
    (inequality : op ≠ .eq) : NoneBeyond pg cols rows op.dir row ↔ rest = [] := by
  have ahead := scan.ahead inequality
  constructor
  · intro none
    have empty : (rows.filter fun other =>
        pg.keyCompares op.dir.beyond other (rowKey cols row)) = [] := by
      rw [List.filter_eq_nil_iff]
      intro other member
      rw [none other member]
      exact Bool.false_ne_true
    rw [empty] at ahead
    exact ahead.eq_nil
  · rintro rfl other member
    exact Bool.eq_false_iff.mpr (List.filter_eq_nil_iff.mp ahead.symm.eq_nil other member)

/-- The cursor of a START that is not for `=` has the next row first. -/
theorem RowsAhead.nearest {following : Row} {later : List Row}
    (scan : RowsAhead pg cols rows op st keyid row (following :: later))
    (inequality : op ≠ .eq) : Nearest pg cols rows op.dir row following := by
  have ahead := scan.ahead inequality
  obtain ⟨member, beyond⟩ := List.mem_filter.mp (ahead.subset List.mem_cons_self)
  refine ⟨member, beyond, ?_⟩
  intro other among compares
  rcases List.mem_cons.mp (ahead.symm.subset (List.mem_filter.mpr ⟨among, compares⟩)) with
    rfl | inside
  · exact (pg.rowLe_total _ other other).elim id id
  · exact (List.pairwise_cons.mp scan.sorted).1 other inside

/-- What the cursor has after the next row are the rows after that one. -/
theorem RowsAhead.move {st' : State} {following : Row} {later : List Row}
    (scan : RowsAhead pg cols rows op st keyid row (following :: later))
    (identified : Identifies cols rows) (inequality : op ≠ .eq)
    (cursor : CursorAt st' keyid later) :
    RowsAhead pg cols rows op st' keyid following later := by
  have ahead := scan.ahead inequality
  have member := (List.mem_filter.mp (ahead.subset List.mem_cons_self)).1
  have after := @Postgres.perm_after pg op.dir.beyond cols op.dir.beyond (rowKey cols row) rows []
    later following op.dir.beyond_ne_eq op.dir.beyond_ne_eq rfl (map_fst_rowKey cols row)
    (rowKey_filled identified scan.member) identified.filled identified.differ ahead
    scan.sorted
  rw [op.dir.beyond_strict, if_neg Bool.false_ne_true] at after
  exact ⟨cursor, member, fun equal => absurd equal inequality, fun _ => after,
    (List.pairwise_cons.mp scan.sorted).2⟩

/-- A scan whose cursor stays has the same rows ahead. -/
theorem RowsAhead.stay {st' : State} (scan : RowsAhead pg cols rows op st keyid row rest)
    (cursor : CursorAt st' keyid rest) : RowsAhead pg cols rows op st' keyid row rest :=
  ⟨cursor, scan.member, scan.only, scan.ahead, scan.sorted⟩

/-- A READ that may follow comes to the end of the cursor, or goes on with it in its direction. -/
theorem RowsAhead.meets {dir : Dir} (scan : RowsAhead pg cols rows op st keyid row rest)
    (met : MayRead pg cols rows op dir row) :
    rest = [] ∧ NoneBeyond pg cols rows dir row ∨
      ∃ following later, rest = following :: later ∧ op ≠ .eq ∧ dir = op.dir := by
  rcases met with ⟨inequality, rfl⟩ | ⟨used, none⟩
  · cases rest with
    | nil => exact .inl ⟨rfl, (scan.noneBeyond inequality).mpr rfl⟩
    | cons following later => exact .inr ⟨following, later, rfl, inequality, rfl⟩
  · refine .inl ⟨?_, none⟩
    by_cases equal : op = .eq
    · exact scan.only equal
    · exact (scan.noneBeyond equal).mp (used.resolve_left equal)

/-- As long as the cursor has rows, a READ in either direction gives one on the side of the
START. -/
theorem RowsAhead.turned {following : Row} {later : List Row}
    (scan : RowsAhead pg cols rows op st keyid row (following :: later)) (inequality : op ≠ .eq)
    (stack : ℕ → Byte) (dir : Dir) :
    ∃ st', opNextPrev stack dir st = .ok st' ∧ st'.fcd.status = stOk ∧
      HoldsRow st'.tab.columns st'.fcd.record following ∧
      pg.keyCompares op.dir.beyond following (rowKey cols row) = true := by
  obtain ⟨st', read, status, holds, -⟩ := scan.cursor.gives stack dir
  exact ⟨st', read, status, holds, (scan.nearest inequality).beyond⟩

/-- The READs of a scan give the rows ahead, in both directions. -/
theorem RowsAhead.reads (identified : Identifies cols rows) :
    ∀ {dirs : List Dir} {st : State} {row : Row} {rest : List Row},
      RowsAhead pg cols rows op st keyid row rest → ReadsBoth pg cols rows op dirs row st := by
  intro dirs
  induction dirs with
  | nil =>
      intro st row rest _
      trivial
  | cons dir dirs ih =>
      intro st row rest scan met stack
      rcases scan.meets met with ⟨rfl, none⟩ | ⟨following, later, rfl, inequality, rfl⟩
      · exact ⟨_, scan.cursor.ends stack dir, .inr ⟨none, rfl, fun area whole =>
          ih (scan.stay ((scan.cursor.setStatus stEof).setRecord whole))⟩⟩
      · obtain ⟨st', read, status, holds, cursor⟩ := scan.cursor.gives stack op.dir
        refine ⟨st', read, .inl ⟨following, scan.nearest inequality, status, holds, ?_⟩⟩
        intro area whole
        exact ih (scan.move identified inequality (cursor.setRecord whole))

end Ahead

/-! ## START -/

section Start

variable {pg : Postgres} {cols : List ℕ} {rows : List Row} {op : Comparison}
  {key : List (ℕ × Value)} {st : State} {keyid : ℕ} {row : Row} {rest : List Row}

/-- A row that compares equal has the values of the key. -/
theorem values_of_keyCompares {row : Row} : ∀ {key : List (ℕ × Value)},
    pg.keyCompares .eq row key = true → ∀ column ∈ key, row.getD column.1 .null = column.2 := by
  intro key
  induction key with
  | nil => exact fun _ _ inside => absurd inside List.not_mem_nil
  | cons column key ih =>
      obtain ⟨i, value⟩ := column
      intro compares
      unfold Postgres.keyCompares at compares
      split at compares
      · rename_i same
        exact List.forall_mem_cons.mpr ⟨same, ih compares⟩
      · rename_i different
        simp only [Postgres.compares, Comparison.strict, Bool.and_eq_true,
          decide_eq_true_eq] at compares
        exact absurd compares.2 different

/-- The cursor of a START for `=` by a key that identifies rows has one row. -/
theorem eq_nil_of_eq (identified : Identifies cols rows) (columns : key.map Prod.fst = cols)
    (perm : (row :: rest).Perm (rows.filter fun row => pg.keyCompares .eq row key)) :
    rest = [] := by
  cases rest with
  | nil => rfl
  | cons other later =>
      have distinct : (row :: other :: later).Pairwise (Differ cols) :=
        (perm.pairwise_iff Differ.symm).mpr (identified.differ.sublist List.filter_sublist)
      obtain ⟨i, member, different⟩ := (List.pairwise_cons.mp distinct).1 other List.mem_cons_self
      subst columns
      obtain ⟨column, inside, rfl⟩ := List.mem_map.mp member
      have one := values_of_keyCompares (List.mem_filter.mp (perm.subset List.mem_cons_self)).2
      have two := values_of_keyCompares
        (List.mem_filter.mp (perm.subset (List.mem_cons_of_mem _ List.mem_cons_self))).2
      exact absurd ((one column inside).trans (two column inside).symm) different

/-- The first row of a sorted answer is where the scan stands. -/
theorem positioned_of_perm
    (perm : (row :: rest).Perm (rows.filter fun row => pg.keyCompares op row key))
    (sorted : (row :: rest).Pairwise (pg.keyLe op cols)) : Positioned pg cols rows op key row := by
  obtain ⟨member, compares⟩ := List.mem_filter.mp (perm.subset List.mem_cons_self)
  refine ⟨member, compares, ?_⟩
  intro other among compares'
  rcases List.mem_cons.mp (perm.symm.subset (List.mem_filter.mpr ⟨among, compares'⟩)) with
    rfl | inside
  · exact (pg.rowLe_total _ other other).elim id id
  · exact (List.pairwise_cons.mp sorted).1 other inside

/-- A position that goes on is one of a cursor. -/
theorem Position.cursorAt {dir : Dir} (position : Position st dir keyid row rest)
    (goes : Goes st keyid rest) (past : st.tab.first = false) (plain : st.tab.restart = none) :
    CursorAt st keyid rest :=
  ⟨position.live, position.going, past, plain, position.cursor, goes⟩

/-- The cursor of a START has the rows after the first one that its comparison selects. -/
theorem rowsAhead_of_perm (identified : Identifies cols rows) (columns : key.map Prod.fst = cols)
    (present : ∀ column ∈ key, column.2 ≠ .null)
    (perm : (row :: rest).Perm (rows.filter fun row => pg.keyCompares op row key))
    (sorted : (row :: rest).Pairwise (pg.keyLe op cols)) (cursor : CursorAt st keyid rest) :
    RowsAhead pg cols rows op st keyid row rest := by
  refine ⟨cursor, (List.mem_filter.mp (perm.subset List.mem_cons_self)).1, ?_, ?_, ?_⟩
  · rintro rfl
    exact eq_nil_of_eq identified columns perm
  · intro inequality
    have after := @Postgres.perm_after pg op cols op.dir.beyond key rows [] rest row inequality
      op.dir.beyond_ne_eq op.beyond_descending columns present identified.filled identified.differ
      perm sorted
    rwa [op.dir.beyond_strict, if_neg Bool.false_ne_true] at after
  · rw [Postgres.keyLe_beyond]
    exact (List.pairwise_cons.mp sorted).2

/-- The first READ after a START that has declared its cursor gives the row of the START, in
whatever direction it is. -/
theorem Began.readsFrom (began : Began pg op cols key rows st keyid row rest)
    (identified : Identifies cols rows) (columns : key.map Prod.fst = cols)
    (present : ∀ column ∈ key, column.2 ≠ .null) (dirs : List Dir) :
    ReadsFrom pg cols rows op key dirs st := by
  cases dirs with
  | nil => trivial
  | cons dir dirs =>
      intro _ stack
      have read : opNextPrev stack dir st =
          .ok ({ st with tab := { st.tab with first := false } }.setStatus stOk) :=
        opNextPrev_iff.mpr (.first began.goes.opened began.first)
      refine ⟨_, read, .inl ⟨row, positioned_of_perm began.perm began.sorted, rfl, began.holds, ?_⟩⟩
      intro area whole
      have goes : Goes { st with tab := { st.tab with first := false } } keyid rest :=
        ⟨began.goes.opened, began.goes.key, began.goes.readable, began.goes.built⟩
      have cursor := (began.position.setFirst false).cursorAt goes rfl began.plain
      exact RowsAhead.reads identified (rowsAhead_of_perm identified columns present began.perm
        began.sorted ((cursor.setStatus stOk).setRecord whole))

/-- The first READ after a START that uses the cursor on gives the row remembered, or the one after
it, as the comparison includes it or not. -/
theorem Resumed.readsFrom (resumed : Resumed pg op cols key rows st keyid row rest)
    (identified : Identifies cols rows) (columns : key.map Prod.fst = cols)
    (present : ∀ column ∈ key, column.2 ≠ .null) (dirs : List Dir) :
    ReadsFrom pg cols rows op key dirs st := by
  cases dirs with
  | nil => trivial
  | cons dir dirs =>
      intro own stack
      have again := resumed.restart
      have perm := resumed.perm
      cases inclusive : op.inclusive with
      | true =>
          rw [inclusive, if_pos rfl] at again perm
          have dir_eq : dir = op.dir := by
            rcases own with none | same
            · exact absurd (again.symm.trans none) (Option.some_ne_none _)
            · exact Option.some.inj (same.symm.trans again)
          subst dir_eq
          obtain ⟨st', read⟩ := resumed.position.returns resumed.goes stack
          cases resumed.position.step resumed.goes.opened resumed.goes.key read with
          | first was => exact absurd (was.symm.trans resumed.past) (by decide)
          | next _ was => cases was.symm.trans again
          | ended _ was => cases was.symm.trans again
          | again _ _ now =>
              subst now
              refine ⟨_, read, .inl ⟨row, positioned_of_perm perm resumed.sorted, rfl,
                resumed.position.record, ?_⟩⟩
              intro area whole
              have whole : area.length = st.fcd.record.length := whole.trans resumed.position.size
              have goes : Goes { st with tab := { st.tab with restart := none } } keyid rest :=
                ⟨resumed.goes.opened, resumed.goes.key, resumed.goes.readable, resumed.goes.built⟩
              have cursor :=
                (resumed.position.setRestart (.inl rfl)).cursorAt goes resumed.past rfl
              exact RowsAhead.reads identified (rowsAhead_of_perm identified columns present perm
                resumed.sorted ((cursor.setStatus stOk).setRecord whole))
      | false =>
          rw [inclusive, if_neg Bool.false_ne_true] at again perm
          have cursor := resumed.position.cursorAt resumed.goes resumed.past again
          have sorted := (List.pairwise_cons.mp resumed.sorted).2
          cases rest with
          | nil =>
              refine ⟨_, cursor.ends stack dir, .inr ⟨?_, rfl⟩⟩
              intro other member
              exact Bool.eq_false_iff.mpr
                (List.filter_eq_nil_iff.mp perm.symm.eq_nil other member)
          | cons following later =>
              obtain ⟨st', read, status, holds, cursor'⟩ := cursor.gives stack dir
              refine ⟨st', read, .inl
                ⟨following, positioned_of_perm perm sorted, status, holds, ?_⟩⟩
              intro area whole
              exact RowsAhead.reads identified (rowsAhead_of_perm identified columns present perm
                sorted (cursor'.setRecord whole))

end Start

/-- In a history in which every START meets the condition, and by a key that identifies the rows,
the first READ after a START that returned 00 gives the row that the START has positioned on, and
each READ after it the next row in its direction or the end of the file, as long as the READs are
ones that may follow. -/
theorem reads_both_ways {env : Env} {st st' : State} {scan : Option (Dir × ℕ)}
    (run : ScanRun env scan st) {fcd : Fcd} (size : fcd.record.length = st.fcd.record.length)
    {stack inner : ℕ → Byte} {op : Comparison}
    (met : StartMeets env scan stack op { st with fcd := fcd })
    (identifies : ∀ rows cols, st.conn.working st.tab.relation = some rows →
      st.tab.keys[fcd.keyId]? = some cols → Identifies cols rows)
    (started : opStart env false stack inner op { st with fcd := fcd } = .ok st')
    (ok : st'.fcd.status = stOk) :
    ∃ cols key rows, st.tab.keys[fcd.keyId]? = some cols ∧
      st.tab.startKey fcd.record cols = some key ∧
      st.conn.working st.tab.relation = some rows ∧
      ∀ dirs, ReadsFrom env.pg cols rows op key dirs st' := by
  obtain ⟨cols, key, rows, row, rest, known, stands, present, outcome⟩ :=
    run.started size met started ok
  have identified := identifies rows cols present known
  have columns := Table.map_fst_startKey stands
  have filled := Table.startKey_ne_null stands
  refine ⟨cols, key, rows, known, stands, present, fun dirs => ?_⟩
  rcases outcome with began | resumed
  · exact began.readsFrom identified columns filled dirs
  · exact resumed.readsFrom identified columns filled dirs

/-- The number of a balance identifies it. -/
theorem identifies_balances : Identifies [0] twoBalances := by
  refine ⟨by decide +kernel, ?_⟩
  refine List.pairwise_pair.mpr ⟨0, List.mem_singleton_self 0, ?_⟩
  decide +kernel

/-- READs in both directions after a START on the table just opened. -/
theorem reads_both_ways_balances :
    ∃ st', opStart plainServer false (fun _ => 0) (fun _ => 0) .ge
        (balances twoBalances [49, 48, 48, 48]) = .ok st' ∧
      ∃ key, ∀ dirs, ReadsFrom plainServer.pg [0] twoBalances .ge key dirs st' := by
  obtain ⟨st', started, status⟩ := map_eq_ok.mp (by decide +kernel :
    (fun st : State => st.fcd.status) <$> opStart plainServer false (fun _ => 0) (fun _ => 0) .ge
      (balances twoBalances [49, 48, 48, 48]) = .ok stOk)
  have identifies : ∀ rows cols,
      (balances twoBalances [49, 48, 48, 48]).conn.working
          (balances twoBalances [49, 48, 48, 48]).tab.relation = some rows →
        (balances twoBalances [49, 48, 48, 48]).tab.keys[0]? = some cols →
          Identifies cols rows := by
    rintro rows cols ⟨⟩ ⟨⟩
    exact identifies_balances
  obtain ⟨cols, key, rows, known, _, present, reads⟩ :=
    reads_both_ways (.opened (balances twoBalances [49, 48, 48, 48])) rfl startMeets_balances
      identifies started status
  cases known
  cases present
  exact ⟨st', started, key, reads⟩

/-- A READ PREVIOUS after a READ NEXT goes on to the next row, although there is none before. -/
theorem previous_goes_on :
    ∃ st₁ st₂ st₃, opStart plainServer false (fun _ => 0) (fun _ => 0) .ge
        (balances twoBalances [49, 48, 48, 48]) = .ok st₁ ∧ st₁.fcd.status = stOk ∧
      opNextPrev (fun _ => 0) .n st₁ = .ok st₂ ∧ st₂.fcd.status = stOk ∧
      st₂.fcd.record = [49, 48, 50, 53] ∧
      NoneBeyond plainServer.pg [0] twoBalances .p [.num 1, .num (5 / 2)] ∧
      opNextPrev (fun _ => 0) .p st₂ = .ok st₃ ∧ st₃.fcd.status = stOk ∧
      st₃.fcd.record = [50, 48, 51, 48] := by
  have calls : (do
      let st₁ ← opStart plainServer false (fun _ => 0) (fun _ => 0) .ge
        (balances twoBalances [49, 48, 48, 48])
      let st₂ ← opNextPrev (fun _ => 0) .n st₁
      (fun st₃ : State => (st₁.fcd.status, st₂.fcd.status, st₂.fcd.record, st₃.fcd.status,
        st₃.fcd.record)) <$> opNextPrev (fun _ => 0) .p st₂) =
      .ok (stOk, stOk, [49, 48, 50, 53], stOk, [50, 48, 51, 48]) := by decide +kernel
  obtain ⟨st₁, started, calls⟩ := bind_eq_ok.mp calls
  obtain ⟨st₂, read, calls⟩ := bind_eq_ok.mp calls
  obtain ⟨st₃, turned, seen⟩ := map_eq_ok.mp calls
  simp only [Prod.mk.injEq] at seen
  obtain ⟨status₁, status₂, record₂, status₃, record₃⟩ := seen
  exact ⟨st₁, st₂, st₃, started, status₁, read, status₂, record₂, by decide +kernel, turned,
    status₃,
    record₃⟩

end Pqfh
