import Pqfh.Handler.KeyRows

/-! # When operations return

An operation on an open table returns unless a key field does not pass the check of
`valida_comando`, a statement cannot be prepared, or a row cannot be read into the record
area.
-/

namespace Pqfh

/-- A table that was opened: its columns lie one after the other in the record area, its keys
are lists of columns within the limits of the handler, and the statements that READ has
prepared are for the columns of a key, or for all but its last column when it was prepared
to probe a weak table. -/
structure OpenTable (st : State) : Prop where
  opened : st.fcd.openMode ≠ 128
  laid : Contiguous 0 st.tab.columns
  whole : totalLen st.tab.columns ≤ st.fcd.record.length
  size : st.tab.bufs.length = maxCols * rowSize
  count : st.tab.keys.length ≤ maxKeys
  keyId : st.fcd.keyId < st.tab.keys.length
  keys : ∀ key ∈ st.tab.keys, key ≠ [] ∧ key.length ≤ maxComps ∧
    (∀ i ∈ key, i < st.tab.columns.length) ∧
    (key.map fun i => (st.tab.column i).len).sum ≤ maxKeyLen
  prepared : ∀ k cols, st.tab.readPrepared k = some cols →
    ∃ key, st.tab.keys[k]? = some key ∧ (cols = key ∨ cols = key.dropLast)

/-- A table with rows, in a transaction that has not failed. Each row can be read into the
record area, and no key column is NULL. -/
structure Content (st : State) (rows : List Row) : Prop where
  running : st.conn.aborted = false
  present : st.conn.working st.tab.relation = some rows
  fits : ∀ row ∈ rows, RowFits st.tab.columns row
  readable : ∀ row ∈ rows, ∃ record, pq2cob st.tab.columns row st.fcd.record = .ok record
  filled : ∀ row ∈ rows, ∀ i ∈ whereColumns st.tab.keys 0, row[i]? ≠ some .null

/-- A server that refuses no DELETE and grants every lock. -/
structure Grants (pg : Postgres) : Prop where
  accepts : ∀ relation condition db, pg.refuses (.delete relation condition) db = false
  free : ∀ oid key, pg.tryLock oid key = true

/-- The fields of columns pass the check of `valida_comando`. -/
def Passes (tab : Table) (record : List Byte) (cols : List ℕ) : Prop :=
  ∀ i ∈ cols, ((Param.key (tab.column i) (tab.chave i)).checked
    (slice record (tab.column i).offset (tab.column i).len)).2 = false

instance (tab : Table) (record : List Byte) (cols : List ℕ) : Decidable (Passes tab record cols) :=
  inferInstanceAs (Decidable (∀ i ∈ cols, _))

/-! ## What stays true while reading -/

theorem Kept.keyFits {st st' : State} (kept : Kept st st') {record : List Byte} {cols : List ℕ}
    (fits : KeyFits st.tab record cols) : KeyFits st'.tab record cols := by
  refine ⟨fun i member => ?_, ?_⟩
  · rw [kept.column]
    exact fits.inside i member
  · simp only [kept.column]
    exact fits.short

theorem Kept.chave {st st' : State} (kept : Kept st st') (i : ℕ) :
    st'.tab.chave i = st.tab.chave i := by
  unfold Table.chave
  rw [kept.keys]

theorem Kept.passes {st st' : State} (kept : Kept st st') {record : List Byte} {cols : List ℕ}
    (passes : Passes st.tab record cols) : Passes st'.tab record cols := by
  intro i member
  rw [kept.column, kept.chave]
  exact passes i member

theorem Kept.content {st st' : State} (kept : Kept st st') {rows : List Row}
    (content : Content st rows) (running : st'.conn.aborted = st.conn.aborted)
    (record : st'.fcd.record = st.fcd.record) : Content st' rows where
  running := running.trans content.running
  present := by rw [kept.working, kept.relation, content.present]
  fits := by rw [kept.columns]; exact content.fits
  readable := by rw [kept.columns, record]; exact content.readable
  filled := by rw [kept.keys]; exact content.filled

/-! ## Setting the parameters of a key -/

theorem length_keyBlock_le {col : Column} {field : List Byte} (full : field.length = col.len) :
    (keyBlock col field).length ≤ col.len + 2 := by
  have positive := col.len_pos
  unfold keyBlock
  split
  · split
    · rw [List.length_cons, List.length_cons, List.length_drop, List.length_append,
        List.length_singleton]
      omega
    · rw [List.length_append, List.length_singleton, length_pointed full]
      split <;> omega
  · rw [List.length_append, List.length_singleton]
    omega

theorem Param.length_row_le (param : Param) (field : List Byte) :
    (param.row field).length ≤ max 2 (param.block param.col field).length := by
  unfold Param.row
  dsimp only
  split
  · rw [List.length_cons, List.length_cons, List.length_drop]
    omega
  · rename_i filled
    have short := length_cstr_le (param.block param.col field)
    rw [List.length_append, List.length_drop, Param.length_checked filled]
    omega

/-- The key fits the rows of `tab->bufs`. -/
theorem bindParams_key {tab : Table} {record bufs : List Byte} {cols : List ℕ}
    (fits : KeyFits tab record cols) (few : cols.length ≤ maxComps)
    (size : bufs.length = maxCols * rowSize) :
    (Passes tab record cols → ∃ bufs', bufs'.length = bufs.length ∧
      bindParams (keyParams tab cols) record bufs = .ok (bufs', cols.map (keyTextOf tab record))) ∧
    (¬ Passes tab record cols → bindParams (keyParams tab cols) record bufs = .error .exit) := by
  have room : ∀ i param, (keyParams tab cols)[i]? = some param → i * rowSize +
      (param.row (slice record param.col.offset param.col.len)).length ≤ bufs.length := by
    intro i param present
    unfold keyParams at present
    rw [List.getElem?_map] at present
    obtain ⟨j, here, rfl⟩ := Option.map_eq_some_iff.mp present
    obtain ⟨before, rfl⟩ := List.getElem?_eq_some_iff.mp here
    have member := List.getElem_mem before
    have length := (Param.key (tab.column cols[i]) (tab.chave cols[i])).length_row_le
      (slice record (tab.column cols[i]).offset (tab.column cols[i]).len)
    have block := length_keyBlock_le (length_slice (fits.inside _ member))
    have short := fits.len_le member
    change _ ≤ max 2 (keyBlock (tab.column cols[i])
      (slice record (tab.column cols[i]).offset (tab.column cols[i]).len)).length at length
    change i * rowSize + ((Param.key (tab.column cols[i]) (tab.chave cols[i])).row
      (slice record (tab.column cols[i]).offset (tab.column cols[i]).len)).length ≤ _
    unfold maxKeyLen at short
    unfold maxComps at few
    rw [size]
    unfold maxCols rowSize
    omega
  have inside : ∀ param ∈ keyParams tab cols,
      param.col.offset + param.col.len ≤ record.length := by
    intro param member
    obtain ⟨i, among, rfl⟩ := List.mem_map.mp member
    exact fits.inside i among
  obtain ⟨bufs', length, result⟩ := bindParams_eq inside room
  rw [map_checked_key, fits.runOn_key] at result
  have passing : (keyParams tab cols).any (fun param =>
      (param.checked (slice record param.col.offset param.col.len)).2) = false ↔
      Passes tab record cols := by
    unfold keyParams
    rw [List.any_map, List.any_eq_false]
    exact forall₂_congr fun i _ => Bool.eq_false_iff.symm
  constructor
  · intro passes
    rw [passing.mpr passes] at result
    exact ⟨bufs', length, result⟩
  · intro fatal
    rw [Bool.eq_true_of_not_eq_false (fun none => fatal (passing.mp none))] at result
    exact result

/-! ## The keys of an open table -/

section Open

variable {st : State}

/-- The columns by which READ reads belong to the key in use. -/
theorem OpenTable.readColumns (ready : OpenTable st) :
    ∃ key cols, st.tab.keys[st.fcd.keyId]? = some key ∧ key ∈ st.tab.keys ∧
      Pqfh.readColumns st.tab st.fcd.keyId false = .ok cols ∧
          (cols = key ∨ cols = key.dropLast) := by
  have inside := ready.keyId
  have member : st.tab.keys[st.fcd.keyId] ∈ st.tab.keys := List.getElem_mem inside
  have here : st.tab.keys[st.fcd.keyId]? = some st.tab.keys[st.fcd.keyId] :=
    List.getElem?_eq_getElem inside
  refine ⟨st.tab.keys[st.fcd.keyId], ?_⟩
  cases prepared : st.tab.readPrepared st.fcd.keyId with
  | some cols =>
      obtain ⟨key, present, shape⟩ := ready.prepared _ _ prepared
      rw [here] at present
      cases present
      exact ⟨cols, here, member, readColumns_some prepared, shape⟩
  | none =>
      refine ⟨st.tab.keys[st.fcd.keyId], here, member,
        (readColumns_none prepared).trans ?_, Or.inl rfl⟩
      unfold randomColumns
      rw [here]
      obtain ⟨first, rest, shape⟩ :=
        List.exists_cons_of_ne_nil (ready.keys _ member).1
      rw [shape]

theorem OpenTable.keyFits (ready : OpenTable st) {key cols : List ℕ} (member : key ∈ st.tab.keys)
    (shape : cols = key ∨ cols = key.dropLast) :
    KeyFits st.tab st.fcd.record cols ∧ cols.length ≤ maxComps := by
  obtain ⟨_, few, positions, short⟩ := ready.keys key member
  have part : List.Sublist cols key := by
    rcases shape with rfl | rfl
    · exact List.Sublist.refl _
    · exact List.dropLast_sublist key
  refine ⟨⟨fun i among => ?_, ?_⟩, part.length_le.trans few⟩
  · have inside := ready.laid.end_le _ (Table.column_mem (positions i (part.subset among)))
    have whole := ready.whole
    omega
  · exact ((part.map _).sum_le_sum fun _ _ => Nat.zero_le _).trans short

theorem OpenTable.first (ready : OpenTable st) :
    ∃ key, st.tab.keys[0]? = some key ∧ key ∈ st.tab.keys ∧ whereColumns st.tab.keys 0 = key := by
  have some : 0 < st.tab.keys.length := lt_of_le_of_lt (Nat.zero_le _) ready.keyId
  exact ⟨st.tab.keys[0], List.getElem?_eq_getElem some, List.getElem_mem some,
    first_key (List.getElem?_eq_getElem some)⟩

/-! ## op_read_random -/

/-- Which statement READ uses on an open table. No lock is refused. -/
theorem prepareRandom_returns {env : Env} (withLock : Bool) (kbuf : List Byte) {rows : List Row}
    {cols : List ℕ} (grants : Grants env.pg) (content : Content st rows)
    (columns : Pqfh.readColumns st.tab st.fcd.keyId false = .ok cols) :
    ∃ st', prepareRandom env false withLock kbuf st = .ok (some cols, st') := by
  cases prepared : st.tab.readPrepared st.fcd.keyId with
  | some cols' =>
    rw [readColumns_some prepared] at columns
    cases columns
    exact ⟨st, prepareRandom_iff.mpr (.found prepared)⟩
  | none =>
    rw [readColumns_none prepared] at columns
    have done : st.conn.prepare st.tab.relation = .ok () := by
      unfold Conn.prepare
      simp only [content.running, content.present, Option.isNone_some, Bool.or_self,
        Bool.false_eq_true, ↓reduceIte]
    exact ⟨_, prepareRandom_iff.mpr
      (.prepared prepared columns (fun _ => ⟨content.running, grants.free _ _⟩) done)⟩

theorem getkbuf_returns {tab : Table} {record : List Byte} {keyid : ℕ} {key : List ℕ}
    (here : tab.keys[keyid]? = some key) (few : keyid < maxKeys) (fits : KeyFits tab record key) :
    ∃ kbuf, getkbuf tab keyid record = .ok kbuf := by
  unfold getkbuf
  rw [here]
  dsimp only
  rw [if_pos ⟨few, fits.short, fits.inside⟩]
  exact ⟨_, rfl⟩

theorem fetchRandom_returns (env : Env) {rows : List Row} {cols : List ℕ}
    (fits : KeyFits st.tab st.fcd.record cols) (few : cols.length ≤ maxComps)
    (size : st.tab.bufs.length = maxCols * rowSize) (content : Content st rows)
    (passes : Passes st.tab st.fcd.record cols) :
    ∃ st', fetchRandom env false cols st = .ok st' := by
  obtain ⟨bufs, _, bound⟩ := (bindParams_key fits few size).1 passes
  unfold fetchRandom
  rw [bound, ok_bind]
  dsimp only
  split
  · exact ⟨_, rfl⟩
  · exact ⟨_, rfl⟩
  · rename_i row rest selected
    obtain ⟨_, _, condition, all, _, present, filtered⟩ := Conn.select_some (Prod.ext rfl selected)
    rw [content.present] at present
    cases present
    have member : row ∈ rows := by
      apply List.mem_of_mem_filter
      rw [← filtered]
      exact List.mem_cons_self
    obtain ⟨record, read⟩ := content.readable row member
    simp only [Bool.false_eq_true, ↓reduceIte]
    change ∃ st', (pq2cob st.tab.columns row st.fcd.record >>= _) = .ok st'
    rw [read, ok_bind]
    exact ⟨_, rfl⟩

/-- What precedes the fetch changes nothing that the fetch uses. -/
theorem opReadRandom_eq_fetchRandom {env : Env} {rows : List Row} {cols : List ℕ} (withLock : Bool)
    (ready : OpenTable st) (grants : Grants env.pg) (content : Content st rows)
    (columns : Pqfh.readColumns st.tab st.fcd.keyId false = .ok cols) :
    ∃ st', Kept st st' ∧ st'.fcd = st.fcd ∧ st'.conn = st.conn ∧ st'.tab.bufs = st.tab.bufs ∧
      opReadRandom env false withLock st = fetchRandom env false cols st' := by
  obtain ⟨key, cols', here, member, columns', shape⟩ := ready.readColumns
  have whole := (ready.keyFits member (Or.inl rfl)).1
  have columns₁ : Pqfh.readColumns st.released.tab st.released.fcd.keyId false = .ok cols := by
    rw [st.released_fcd, readColumns_released]
    exact columns
  have content₁ := (kept_released st).content content (by rw [st.released_conn])
    (by rw [st.released_fcd])
  obtain ⟨kbuf, built⟩ := getkbuf_returns here (lt_of_lt_of_le ready.keyId ready.count) whole
  obtain ⟨st₂, prepared⟩ := prepareRandom_returns withLock (cstr kbuf) grants content₁ columns₁
  obtain ⟨kept₂, fcd₂, conn₂, bufs₂, _⟩ := prepareRandom_ok prepared
  exact ⟨st₂, (kept_released st).trans kept₂, fcd₂.trans st.released_fcd,
    conn₂.trans st.released_conn, bufs₂.trans st.released_bufs,
    opReadRandom_eq_fetch ready.opened built prepared⟩

/-- A read of an open table returns when the fields of the key pass the check. -/
theorem opReadRandom_returns {env : Env} {rows : List Row} {cols : List ℕ} (withLock : Bool)
    (ready : OpenTable st) (grants : Grants env.pg) (content : Content st rows)
    (columns : Pqfh.readColumns st.tab st.fcd.keyId false = .ok cols)
    (passes : Passes st.tab st.fcd.record cols) :
    ∃ st', opReadRandom env false withLock st = .ok st' := by
  obtain ⟨key, cols', here, member, columns', shape⟩ := ready.readColumns
  rw [columns] at columns'
  cases columns'
  obtain ⟨fits, few⟩ := ready.keyFits member shape
  obtain ⟨st₁, kept, fcd, conn, bufs, fetch⟩ :=
    opReadRandom_eq_fetchRandom withLock ready grants content columns
  rw [fetch]
  apply fetchRandom_returns env _ few
  · rw [bufs, ready.size]
  · exact kept.content content (by rw [conn]) (by rw [fcd])
  · rw [fcd]
    exact kept.passes passes
  · rw [fcd]
    exact kept.keyFits fits

/-- A read that returned found a row or none. -/
theorem opReadRandom_status {env : Env} {withLock : Bool} {rows : List Row} {st' : State}
    (ready : OpenTable st) (grants : Grants env.pg) (content : Content st rows)
    (read : opReadRandom env false withLock st = .ok st') :
    st'.fcd.status = stOk ∨ st'.fcd.status = stRecNotFound := by
  obtain ⟨key, cols, _, _, columns, _⟩ := ready.readColumns
  obtain ⟨st₁, _, _, _, _, fetch⟩ :=
    opReadRandom_eq_fetchRandom withLock ready grants content columns
  rw [fetch] at read
  obtain ⟨_, ⟨missing, _⟩ | ⟨found, _⟩⟩ := fetchRandom_ok read
  · exact Or.inr missing
  · exact Or.inl found

end Open

end Pqfh
