import Pqfh.Handler.KeyRows

/-! # Rows found by the key they were written with

WRITE makes a text of a key field in its own way, READ and DELETE in another, REWRITE in a
third. `Pqfh.key_encoders_agree_iff` says for which records a row just written is the row
that the other operations address.
-/

namespace Pqfh

/-- A row has in each key column the value that READ, DELETE and REWRITE look for, given a
record. -/
def KeysAgree (pg : Postgres) (st : State) (row : Row) : Prop :=
  ∀ i ∈ whereColumns st.tab.keys 0, ∃ value, row[i]? = some value ∧
    KeyAgrees pg (st.tab.column i)
      (slice st.fcd.record (st.tab.column i).offset (st.tab.column i).len) value

/-! ## What WRITE stores -/

theorem getElem?_runOn (texts : List (List Byte)) (i : ℕ) :
    (runOn texts)[i]? = texts[i]?.map fun text => runInto text (runOn (texts.drop (i + 1))) := by
  induction texts generalizing i with
  | nil => rfl
  | cons text rest ih =>
      rw [runOn_cons]
      cases i with
      | zero => rfl
      | succ i => rw [List.getElem?_cons_succ, List.getElem?_cons_succ, ih, List.drop_succ_cons]

/-- The texts of the parameters that follow column `i` in the INSERT of a record. -/
def insertLater (tab : Table) (record : List Byte) (i : ℕ) : List (List Byte) :=
  runOn (((writeParams tab).map fun param =>
    (param.checked (slice record param.col.offset param.col.len)).1).drop (i + 1))

/-- The value that WRITE stores in a column. -/
theorem insert_stored {pg : Postgres} {tab : Table} {record : List Byte} {texts : List (List Byte)}
    {values : List (ℕ × Value)}
    (sent : texts = runOn ((writeParams tab).map fun param =>
      (param.checked (slice record param.col.offset param.col.len)).1))
    (assigned : tab.assignment pg (List.range tab.columns.length) texts = some values) {i : ℕ}
    (inside : i < tab.columns.length) :
    ∃ value, (values.map Prod.snd)[i]? = some value ∧
      pg.store (tab.column i) (runInto ((Param.write (tab.column i) (tab.chave i)).checked
        (slice record (tab.column i).offset (tab.column i).len)).1 (insertLater tab record i)) =
      some value := by
  have text : texts[i]? = some (runInto ((Param.write (tab.column i) (tab.chave i)).checked
      (slice record (tab.column i).offset (tab.column i).len)).1 (insertLater tab record i)) := by
    rw [sent, getElem?_runOn, List.getElem?_map, writeParams, List.getElem?_map,
      List.getElem?_range inside]
    rfl
  have pair : ((List.range tab.columns.length).zip texts)[i]? = some (i, _) :=
    List.getElem?_zip_eq_some.mpr ⟨List.getElem?_range inside, text⟩
  obtain ⟨result, stored, present⟩ := mapM_getElem? assigned pair
  obtain ⟨value, storedValue, rfl⟩ := Option.map_eq_some_iff.mp stored
  exact ⟨value, by rw [List.getElem?_map, present]; rfl, storedValue⟩

/-- The row that WRITE appends has in each key column what the other operations look for, just
when the key field is safe. -/
theorem opWrite_key_iff {env : Env} {st st' : State}
    (positions : ∀ i ∈ whereColumns st.tab.keys 0, i < st.tab.columns.length)
    (wrote : opWrite env st = .ok st') (status : st'.fcd.status = stOk) :
    KeyFits st.tab st.fcd.record (whereColumns st.tab.keys 0) ∧
    ∃ rows row, st.conn.working st.tab.relation = some rows ∧
      st'.conn.working st.tab.relation = some (rows ++ [row]) ∧
      ∀ i ∈ whereColumns st.tab.keys 0,
        (∃ value, row[i]? = some value ∧ KeyAgrees env.pg (st.tab.column i)
          (slice st.fcd.record (st.tab.column i).offset (st.tab.column i).len) value) ↔
        KeySafe env.pg (st.tab.column i)
          (slice st.fcd.record (st.tab.column i).offset (st.tab.column i).len)
          (insertLater st.tab st.fcd.record i) := by
  have opened : st.fcd.openMode ≠ 128 := by
    intro closed
    unfold opWrite at wrote
    rw [if_pos closed] at wrote
    cases wrote
    exact absurd status (by decide : stNotOpenedWrite ≠ stOk)
  obtain ⟨st₁, bufs, texts, values, rows, read, _, _, _, bound, assigned, _, present, rfl⟩ :=
    opWrite_ok wrote status
  obtain ⟨cols, key, keyFits⟩ := opReadRandom_keyFits (by exact opened) read
  have fits : KeyFits st.tab st.fcd.record cols := keyFits
  have first : whereColumns st.tab.keys 0 = cols := first_key key
  rw [first]
  obtain ⟨params, _, sent⟩ := bindParams_ok bound
  refine ⟨fits, rows, values.map Prod.snd, present, Function.update_self _ _ _, ?_⟩
  intro i member
  have inside := positions i (first ▸ member)
  obtain ⟨value, here, stored⟩ := insert_stored sent assigned inside
  have checked := (params (Param.write (st.tab.column i) (st.tab.chave i))
    (List.mem_map_of_mem (List.mem_range.mpr inside))).2
  rw [chave_of_mem (first ▸ member)] at stored checked
  rw [← key_agree_iff (length_slice (fits.inside i member)) (fits.len_le member) checked stored]
  constructor
  · rintro ⟨value', here', agrees⟩
    rw [here] at here'
    cases here'
    exact agrees
  · intro agrees
    exact ⟨value, here, agrees⟩

/-! ## Rows found again -/

/-- A later state in which the row is still there and the record area has the same key. -/
structure Finds (st : State) (row : Row) (later : State) : Prop where
  columns : later.tab.columns = st.tab.columns
  keys : later.tab.keys = st.tab.keys
  relation : later.tab.relation = st.tab.relation
  fields : ∀ i ∈ whereColumns st.tab.keys 0,
    slice later.fcd.record (st.tab.column i).offset (st.tab.column i).len =
      slice st.fcd.record (st.tab.column i).offset (st.tab.column i).len
  keyId : later.fcd.keyId = 0
  /-- READ has its statement for the whole key, prepared or not. -/
  prepared : readColumns later.tab 0 false = .ok (whereColumns st.tab.keys 0)
  running : later.conn.aborted = false
  present : ∃ rows, later.conn.working st.tab.relation = some rows ∧ row ∈ rows ∧
    ∀ other ∈ rows, RowFits st.tab.columns other

/-- A row that is written can be addressed by the record it was written from: each key column
holds the value that the other operations look for, so a read finds the row, a rewrite that
returns 00 changes it or finds nothing to change, and a delete that returns 00 removes it. -/
structure Addressed (env : Env) (st : State) (row : Row) : Prop where
  agree : KeysAgree env.pg st row
  read : ∀ later withLock later', Finds st row later →
    opReadRandom env false withLock later = .ok later' → later'.fcd.status ≠ stRecNotFound
  rewrite : ∀ later done later', Finds st row later →
    opRewrite env later = .ok (done, later') → later'.fcd.status = stOk →
    ∃ rows, later.conn.working st.tab.relation = some rows ∧
      ((later'.conn.working = later.conn.working ∧ ∃ found ∈ rows,
          pq2cob st.tab.columns found later.fcd.record = .ok later.fcd.record) ∨
        ∃ values condition, meets condition row = true ∧
          later'.conn.working st.tab.relation = some (rows.map fun other =>
            if meets condition other then setRow values other else other))
  delete : ∀ later later', Finds st row later →
    opDelete env later = .ok later' → later'.fcd.status = stOk →
    ∃ rows, later'.conn.working st.tab.relation = some rows ∧ row ∉ rows

section Found

variable {env : Env} {st later : State} {row : Row}

theorem Finds.column (finds : Finds st row later) (i : ℕ) :
    later.tab.column i = st.tab.column i := by
  unfold Table.column
  rw [finds.columns]

theorem Finds.keyText (finds : Finds st row later) {i : ℕ}
    (member : i ∈ whereColumns st.tab.keys 0) :
    keyTextOf later.tab later.fcd.record i = ((Param.key (st.tab.column i) true).checked
      (slice st.fcd.record (st.tab.column i).offset (st.tab.column i).len)).1 := by
  unfold keyTextOf
  rw [finds.column, finds.fields i member, chave_of_mem (finds.keys.symm ▸ member)]

theorem Finds.rewriteText (finds : Finds st row later) {i : ℕ}
    (member : i ∈ whereColumns st.tab.keys 0) :
    rewriteTextOf later.tab later.fcd.record i = ((Param.rewrite (st.tab.column i) true).checked
      (slice st.fcd.record (st.tab.column i).offset (st.tab.column i).len)).1 := by
  unfold rewriteTextOf
  rw [finds.column, finds.fields i member, chave_of_mem (finds.keys.symm ▸ member)]

theorem Finds.meets_key (finds : Finds st row later)
    (agree : KeysAgree env.pg st row) :
    ∃ condition, later.tab.condition env.pg (whereColumns st.tab.keys 0)
        ((whereColumns st.tab.keys 0).map (keyTextOf later.tab later.fcd.record)) =
        some condition ∧ meets condition row = true := by
  have denoted : ∀ i ∈ whereColumns st.tab.keys 0, ∃ value,
      env.pg.denote (later.tab.column i) (keyTextOf later.tab later.fcd.record i) = some value ∧
        row[i]? = some value := by
    intro i member
    obtain ⟨value, here, agrees⟩ := agree i member
    exact ⟨value, by rw [finds.keyText member, finds.column]; exact agrees.2.1, here⟩
  obtain ⟨condition, conditioned⟩ := exists_condition fun i member =>
    (denoted i member).imp fun _ both => both.1
  exact ⟨condition, conditioned, (meets_condition_iff conditioned row).mpr denoted⟩

/-- A read finds the row. -/
theorem Finds.read (finds : Finds st row later)
    (agree : KeysAgree env.pg st row)
    {withLock : Bool} {later' : State} (read : opReadRandom env false withLock later = .ok later') :
    later'.fcd.status ≠ stRecNotFound := by
  intro missing
  have opened : later.fcd.openMode ≠ 128 := by
    intro closed
    obtain rfl : later.setStatus stNotOpenedRead = later' :=
      Except.ok.inj ((opReadRandom_iff.mpr (.closed closed)).symm.trans read)
    exact absurd missing (by decide : stNotOpenedRead ≠ stRecNotFound)
  obtain ⟨cols, key, fits⟩ := opReadRandom_keyFits opened read
  obtain ⟨_, ⟨_, _, misses⟩ | ⟨found, _⟩⟩ := opReadRandom_ok read
  · obtain ⟨cols', columns, bufs, texts, bound, none⟩ := misses missing
    rw [finds.keyId, finds.prepared] at columns
    cases columns
    rw [finds.keyId, finds.keys] at key
    have first := first_key key
    obtain ⟨_, _, sent⟩ := bindParams_ok bound
    rw [map_checked_key, first, fits.runOn_key, ← first] at sent
    obtain ⟨condition, conditioned, meets⟩ := finds.meets_key agree
    obtain ⟨rows, present, member, _⟩ := finds.present
    have empty := none finds.running condition rows (by rw [sent]; exact conditioned)
      (by rw [finds.relation]; exact present)
    exact List.filter_eq_nil_iff.mp empty row member meets
  · rw [missing] at found
    exact absurd found (by decide : stRecNotFound ≠ stOk)

/-- A rewrite changes the row, or finds the record there already. -/
theorem Finds.rewrite (finds : Finds st row later) (agree : KeysAgree env.pg st row)
    {done : Bool} {later' : State} (rewrote : opRewrite env later = .ok (done, later'))
    (status : later'.fcd.status = stOk) :
    ∃ rows, later.conn.working st.tab.relation = some rows ∧
      ((later'.conn.working = later.conn.working ∧ ∃ found ∈ rows,
          pq2cob st.tab.columns found later.fcd.record = .ok later.fcd.record) ∨
        ∃ values condition, meets condition row = true ∧
          later'.conn.working st.tab.relation = some (rows.map fun other =>
            if meets condition other then setRow values other else other)) := by
  have opened : later.fcd.openMode ≠ 128 := by
    intro closed
    unfold opRewrite at rewrote
    rw [if_pos closed] at rewrote
    cases rewrote
    exact absurd status (by decide : stNotOpenedUpdel ≠ stOk)
  obtain ⟨st₁, read, found, kept, outcome⟩ := opRewrite_ok rewrote status
  obtain ⟨cols, key, keyFits⟩ := opReadRandom_keyFits (by exact opened) read
  have fits : KeyFits later.tab later.fcd.record cols := ⟨keyFits.inside, keyFits.short⟩
  have first : whereColumns st.tab.keys 0 = cols := by
    rw [← finds.keys]
    exact first_key key
  obtain ⟨rows, present, member, _⟩ := finds.present
  refine ⟨rows, present, ?_⟩
  rcases outcome with ⟨same, rfl⟩ | ⟨_, st₂, updated, ok, rfl⟩
  · obtain ⟨_, ⟨missing, _⟩ | ⟨_, _, cols', row', _, reads, decoded⟩⟩ := opReadRandom_ok read
    · exact (missing found).elim
    obtain ⟨_, texts, condition, rows', rest, _, _, present', selected⟩ := reads.found
    change later.conn.working later.tab.relation = some rows' at present'
    change pq2cob later.tab.columns row' later.fcd.record = .ok st₁.fcd.record at decoded
    rw [finds.relation, present] at present'
    cases present'
    rw [finds.columns, same] at decoded
    refine Or.inl ⟨kept.working, row', ?_, decoded⟩
    apply List.mem_of_mem_filter
    rw [selected]
    exact List.mem_cons_self
  · obtain ⟨bufs, texts, values, condition, rows', bound, _, conditioned, _, present', rfl⟩ :=
      updateRecord_ok updated ok
    obtain ⟨_, _, sent⟩ := bindParams_ok bound
    have keyTexts : rewriteKeyTexts st₁.tab later.fcd.record =
        cols.map (rewriteTextOf later.tab later.fcd.record) := by
      rw [kept.rewriteKeyTexts, ← first, ← finds.keys]
      rfl
    rw [sent, drop_rewriteTexts] at conditioned
    change st₁.tab.condition env.pg (whereColumns st₁.tab.keys 0)
      (runOn (rewriteKeyTexts st₁.tab later.fcd.record)) = some condition at conditioned
    rw [keyTexts, fits.runOn_rewrite, kept.condition, kept.keys] at conditioned
    change later.tab.condition env.pg (whereColumns later.tab.keys 0)
      (cols.map (rewriteTextOf later.tab later.fcd.record)) = some condition at conditioned
    rw [finds.keys, first] at conditioned
    change st₁.conn.working st₁.tab.relation = some rows' at present'
    have relation : st₁.tab.relation = st.tab.relation := kept.relation.trans finds.relation
    have working : st₁.conn.working = later.conn.working := kept.working
    rw [working, relation, present] at present'
    cases present'
    refine Or.inr ⟨values, condition, (meets_condition_iff conditioned row).mpr ?_, ?_⟩
    · intro i member
      rw [← first] at member
      obtain ⟨value, here, agrees⟩ := agree i member
      exact ⟨value, by rw [finds.rewriteText member, finds.column]; exact agrees.2.2.2, here⟩
    · rw [← relation]
      exact Function.update_self _ _ _

/-- A delete removes the row. -/
theorem Finds.delete (finds : Finds st row later) (agree : KeysAgree env.pg st row)
    (laid : Contiguous 0 st.tab.columns) {later' : State}
    (deleted : opDelete env later = .ok later')
    (status : later'.fcd.status = stOk) :
    ∃ rows, later'.conn.working st.tab.relation = some rows ∧ row ∉ rows := by
  have opened : later.fcd.openMode ≠ 128 := by
    intro closed
    unfold opDelete at deleted
    rw [if_pos closed] at deleted
    cases deleted
    exact absurd status (by decide : stNotOpenedUpdel ≠ stOk)
  obtain ⟨st₁, read, found, kept, deleted⟩ := opDelete_ok deleted status
  obtain ⟨cols, key, keyFits⟩ := opReadRandom_keyFits (by exact opened) read
  have fits : KeyFits later.tab later.fcd.record cols := ⟨keyFits.inside, keyFits.short⟩
  have first : whereColumns st.tab.keys 0 = cols := by
    change later.tab.keys[later.fcd.keyId]? = some cols at key
    rw [finds.keyId] at key
    rw [← finds.keys, first_key key]
  obtain ⟨_, ⟨missing, _⟩ | ⟨_, _, cols', row₁, columns, reads, decoded⟩⟩ := opReadRandom_ok read
  · exact (missing found).elim
  change readColumns later.tab later.fcd.keyId false = .ok cols' at columns
  rw [finds.keyId, finds.prepared, first] at columns
  cases columns
  obtain ⟨_, texts, condition, rows, rest, bound, conditioned, present, selected⟩ := reads.found
  have chosen : row₁ ∈ rows ∧ meets condition row₁ = true := by
    rw [← List.mem_filter, selected]
    exact List.mem_cons_self
  obtain ⟨rows', present', member, typed⟩ := finds.present
  change later.conn.working later.tab.relation = some rows at present
  rw [finds.relation, present'] at present
  cases present
  -- the key columns of the row read have the values of the row
  obtain ⟨_, _, sent⟩ := bindParams_ok bound
  rw [map_checked_key] at sent
  change texts = runOn (cols.map (keyTextOf later.tab later.fcd.record)) at sent
  change later.tab.condition env.pg cols texts = some condition at conditioned
  rw [sent, fits.runOn_key] at conditioned
  have values := (meets_condition_iff conditioned row₁).mp chosen.2
  -- and these are looked for again after the read
  change pq2cob later.tab.columns row₁ later.fcd.record = .ok st₁.fcd.record at decoded
  have size := (pq2cobFrom_room (Nat.zero_le _) decoded).1
  have columns : st₁.tab.columns = later.tab.columns := kept.columns
  have keys : whereColumns st₁.tab.keys 0 = cols := by
    rw [kept.keys, ← first, ← finds.keys]
    rfl
  have fits₁ : KeyFits st₁.tab st₁.fcd.record (whereColumns st₁.tab.keys 0) := by
    rw [keys]
    refine ⟨fun i among => ?_, ?_⟩
    · rw [kept.column, size]
      exact fits.inside i among
    · simp only [kept.column]
      exact fits.short
  obtain ⟨rows', condition', present₁, after, meets', passes⟩ :=
    deleteRecord_rows fits₁ deleted status
  have relation : st₁.tab.relation = st.tab.relation := kept.relation.trans finds.relation
  refine ⟨rows'.filter fun other => !meets condition' other, ?_, fun still => ?_⟩
  · rw [after, ← relation]
    exact Function.update_self _ _ _
  · have remains := (List.mem_filter.mp still).2
    rw [(meets' row).mpr ?_] at remains
    · cases remains
    · intro i among
      obtain ⟨value, here, agrees⟩ := agree i (by rw [first, ← keys]; exact among)
      obtain ⟨value', denoted, here₁⟩ := values i (by rw [← keys]; exact among)
      rw [finds.keyText (by rw [first, ← keys]; exact among), finds.column] at denoted
      obtain rfl := Option.some.inj (agrees.2.1.symm.trans denoted)
      refine ⟨value, ?_, here⟩
      apply denote_keyTextOf_read (by rw [columns, finds.columns]; exact laid) _
        (by rw [columns]; exact decoded) among here₁ (denote_ne_null denoted) (passes i among)
      rw [columns, finds.columns]
      exact typed row₁ chosen.1

end Found

/-- A price of three digits with one decimal, the primary key, and a letter. -/
def prices (record : List Byte) : State where
  conn := ⟨fun _ => some [], fun _ => some [], false, fun _ => none⟩
  pendingCommits := 0
  eofStart := false
  tab := Table.opened 1 1 0 []
    [⟨"preco", .numeric, 3, 1, 0, true, three_digits, one_decimal_of_three⟩,
      ⟨"letra", .character, 1, 0, 3, false, one_digit, no_decimals_of_one⟩]
    [[0]] 0 (clearBuffers 4)
  fcd := openedFcd 0 record

end Pqfh
