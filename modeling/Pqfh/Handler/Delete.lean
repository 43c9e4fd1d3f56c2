import Pqfh.Handler.OpsTotal

/-! # What DELETE removes

`op_delete` reads the record by the key in use and deletes the row with the primary key of
the record it has read. It removes the row with the primary key it was given just when the
read finds that row, or finds none because there is none (`Pqfh.delete_exactly_iff`).
-/

namespace Pqfh

/-- The row has the bytes of the record in the columns of the primary key. -/
def hasKey (tab : Table) (record : List Byte) (row : Row) : Bool :=
  (whereColumns tab.keys 0).all fun i =>
    match row[i]? with
    | some value => decide (Holds (tab.column i) value record)
    | none => false

/-- Two rows have one primary key. -/
def sameKey (tab : Table) (first second : Row) : Bool :=
  (whereColumns tab.keys 0).all fun i => decide (second[i]? = first[i]?)

/-- The row that READ finds by some columns of a record. -/
def selects (pg : Postgres) (tab : Table) (cols : List ℕ) (record : List Byte) (rows : List Row) :
    Option Row :=
  match tab.condition pg cols (cols.map (keyTextOf tab record)) with
  | some condition => rows.find? (meets condition)
  | none => none

/-- A row has the key of a record when each column of the key holds its field. -/
theorem hasKey_iff {tab : Table} {record : List Byte} {row : Row} :
    hasKey tab record row = true ↔ ∀ i ∈ whereColumns tab.keys 0,
      ∃ value, row[i]? = some value ∧ Holds (tab.column i) value record := by
  unfold hasKey
  rw [List.all_eq_true]
  apply forall₂_congr
  intro i _
  cases row[i]? with
  | none => exact iff_of_false Bool.false_ne_true (fun found => nomatch found.choose_spec.1)
  | some value =>
      rw [decide_eq_true_iff]
      constructor
      · intro holds
        exact ⟨value, rfl, holds⟩
      · rintro ⟨_, ⟨⟩, holds⟩
        exact holds

/-- Two rows have the same key when they agree on its columns. -/
theorem sameKey_iff {tab : Table} {first second : Row} :
    sameKey tab first second = true ↔ ∀ i ∈ whereColumns tab.keys 0, second[i]? = first[i]? := by
  unfold sameKey
  rw [List.all_eq_true]
  exact forall₂_congr fun i _ => decide_eq_true_iff

/-! ## Rows with one key -/

/-- Two values of a column that read as the same bytes are the same. -/
theorem eq_of_fieldBytes_eq {col : Column} {first second : Value} {field : List Byte}
    (fits : first.Fits col) (fits' : second.Fits col) (filled : first ≠ .null)
    (filled' : second ≠ .null) (read : fieldBytes col (printValue col first) = .ok field)
    (read' : fieldBytes col (printValue col second) = .ok field) : first = second := by
  cases first with
  | null => exact (filled rfl).elim
  | num number =>
      obtain ⟨numeric, n, rfl, small⟩ := fits
      have digits := dec_lt_of_fieldBytes numeric read
      rw [fieldBytes_num numeric digits small] at read
      cases second with
      | null => exact (filled' rfl).elim
      | num number' =>
          obtain ⟨_, n', rfl, small'⟩ := fits'
          rw [fieldBytes_num numeric digits small'] at read'
          have same := Except.ok.inj (read.trans read'.symm)
          have equal := congrArg fieldInt same
          rw [fieldInt_numericField col.len_pos small,
            fieldInt_numericField col.len_pos small'] at equal
          rw [equal]
      | chr text => cases numeric.symm.trans fits'.1
  | chr text =>
      obtain ⟨character, short, trimmed, _⟩ := fits
      rw [fieldBytes_chr character short] at read
      cases second with
      | null => exact (filled' rfl).elim
      | num number => cases character.symm.trans fits'.1
      | chr text' =>
          obtain ⟨_, short', trimmed', _⟩ := fits'
          rw [fieldBytes_chr character short'] at read'
          have same := congrArg rtrim (Except.ok.inj (read.trans read'.symm))
          unfold blankFill at same
          rw [rtrim_append_blanks, rtrim_append_blanks, trimmed, trimmed'] at same
          rw [same]

section Rows

variable {st : State} {rows : List Row} {row₁ row : Row}

/-- A row of the table has the columns of the key. -/
theorem Content.column_present (content : Content st rows) (ready : OpenTable st)
    (member : row ∈ rows) {i : ℕ} (among : i ∈ whereColumns st.tab.keys 0) :
    ∃ value, row[i]? = some value ∧ value.Fits (st.tab.column i) ∧ value ≠ .null := by
  obtain ⟨key, _, present, first⟩ := ready.first
  have inside := (ready.keys key present).2.2.1 i (first ▸ among)
  have length := (content.fits row member).length_eq
  have here : row[i]? = some row[i] := List.getElem?_eq_getElem (by omega)
  refine ⟨row[i], here, ?_, ?_⟩
  · exact (forall₂_columns_iff length.symm).mp (content.fits row member) i _ here
  · intro null
    rw [null] at here
    exact content.filled row member i among here

/-- Beside a row with the key of a record, the rows with that key are those with the key of
the row. -/
theorem hasKey_eq_sameKey (content : Content st rows) (ready : OpenTable st)
    (member₁ : row₁ ∈ rows) (member : row ∈ rows) {record : List Byte}
    (key : hasKey st.tab record row₁ = true) : hasKey st.tab record row =
    sameKey st.tab row₁ row := by
  rw [Bool.eq_iff_iff, hasKey_iff, sameKey_iff]
  apply forall₂_congr
  intro i among
  obtain ⟨value, here, fits, filled⟩ := content.column_present ready member among
  obtain ⟨value₁, here₁, fits₁, filled₁⟩ := content.column_present ready member₁ among
  obtain ⟨_, here₁', holds₁⟩ := hasKey_iff.mp key i among
  rw [here₁] at here₁'
  cases here₁'
  rw [here, here₁, Option.some.injEq]
  constructor
  · rintro ⟨_, ⟨⟩, holds⟩
    exact eq_of_fieldBytes_eq fits fits₁ filled filled₁ holds holds₁
  · rintro rfl
    exact ⟨value, rfl, holds₁⟩

/-- A row read into the record area has its key there. -/
theorem hasKey_read (content : Content st rows) (ready : OpenTable st) (member : row ∈ rows)
    {record' : List Byte} (read : pq2cob st.tab.columns row st.fcd.record = .ok record') :
    hasKey st.tab record' row = true := by
  rw [hasKey_iff]
  intro i among
  obtain ⟨value, here, _, _⟩ := content.column_present ready member among
  exact ⟨value, here, pq2cob_holds ready.laid (content.fits row member).length_eq.symm read i value
    here⟩

/-! ## The read -/

/-- The row that is found is the first of those that meet the condition. -/
theorem find?_eq_head? {condition : Condition} :
    rows.find? (meets condition) = (rows.filter (meets condition)).head? :=
  List.head?_filter.symm

/-- What a read of an open table has found. -/
theorem opReadRandom_selects {env : Env} {withLock : Bool} {cols : List ℕ} {st' : State}
    (ready : OpenTable st) (grants : Grants env.pg) (content : Content st rows)
    (columns : readColumns st.tab st.fcd.keyId false = .ok cols)
    (read : opReadRandom env false withLock st = .ok st') :
    Kept st st' ∧ Passes st.tab st.fcd.record cols ∧
      ((st'.fcd.status = stRecNotFound ∧ st'.fcd.record = st.fcd.record ∧
          selects env.pg st.tab cols st.fcd.record rows = none) ∨
        (st'.fcd.status = stOk ∧ st'.conn = st.conn ∧ ∃ found ∈ rows,
          selects env.pg st.tab cols st.fcd.record rows = some found ∧
          pq2cob st.tab.columns found st.fcd.record = .ok st'.fcd.record)) := by
  obtain ⟨key, cols', _, member, columns', shape⟩ := ready.readColumns
  rw [columns] at columns'
  cases columns'
  obtain ⟨fits, few⟩ := ready.keyFits member shape
  have passes : ∀ {bufs texts}, bindParams (keyParams st.tab cols) st.fcd.record st.tab.bufs =
      .ok (bufs, texts) → Passes st.tab st.fcd.record cols ∧
        texts = cols.map (keyTextOf st.tab st.fcd.record) := by
    intro bufs texts bound
    obtain ⟨params, _, sent⟩ := bindParams_ok bound
    refine ⟨fun i among => (params _ (List.mem_map_of_mem among)).2, ?_⟩
    rw [sent, map_checked_key, fits.runOn_key]
  have status := opReadRandom_status ready grants content read
  obtain ⟨kept, ⟨missing, record, misses⟩ | ⟨found, conn, cols', row, columns', reads, decoded⟩⟩ :=
    opReadRandom_ok read
  · have notFound := status.resolve_left missing
    obtain ⟨cols', columns', bufs, texts, bound, none⟩ := misses notFound
    rw [columns] at columns'
    cases columns'
    obtain ⟨pass, sent⟩ := passes bound
    refine ⟨kept, pass, Or.inl ⟨notFound, record, ?_⟩⟩
    unfold selects
    rw [← sent]
    split
    · rename_i condition denoted
      rw [find?_eq_head?, none content.running condition rows denoted content.present]
      rfl
    · rfl
  · rw [columns] at columns'
    cases columns'
    obtain ⟨bufs, texts, condition, rows', rest, bound, denoted, present, selected⟩ := reads.found
    rw [content.present] at present
    cases present
    obtain ⟨pass, sent⟩ := passes bound
    refine ⟨kept, pass, Or.inr ⟨found, conn, row, ?_, ?_, decoded⟩⟩
    · apply List.mem_of_mem_filter
      rw [selected]
      exact List.mem_cons_self
    · unfold selects
      rw [← sent, denoted]
      dsimp only
      rw [find?_eq_head?, selected]
      rfl

/-! ## The delete -/

/-- A statement on a table of a running transaction is prepared. -/
theorem prepare_ok {conn : Conn} {relation : ℕ} (running : conn.aborted = false)
    (present : conn.working relation = some rows) : conn.prepare relation = .ok () := by
  unfold Conn.prepare
  rw [running, present]
  rfl

/-- DELETE removes the rows with the key of the row it has read, when the key passes the check
again. -/
theorem deleteRecord_run {env : Env} (st : State) (rows : List Row) (row₁ : Row)
    (grants : Grants env.pg) (running : st.conn.aborted = false)
    (present : st.conn.working st.tab.relation = some rows)
    (fits : KeyFits st.tab st.fcd.record (whereColumns st.tab.keys 0))
    (few : (whereColumns st.tab.keys 0).length ≤ maxComps)
    (size : st.tab.bufs.length = maxCols * rowSize)
    (denotes : Passes st.tab st.fcd.record (whereColumns st.tab.keys 0) →
      ∀ i ∈ whereColumns st.tab.keys 0, ∃ value,
        env.pg.denote (st.tab.column i) (keyTextOf st.tab st.fcd.record i) = some value ∧
          row₁[i]? = some value) :
    (Passes st.tab st.fcd.record (whereColumns st.tab.keys 0) →
      ∃ st', deleteRecord env st = .ok st' ∧ st'.fcd.status = stOk ∧
        st'.conn.working = Function.update st.conn.working st.tab.relation
          (some (rows.filter fun row => !sameKey st.tab row₁ row))) ∧
    (¬ Passes st.tab st.fcd.record (whereColumns st.tab.keys 0) →
      deleteRecord env st = .error .exit) := by
  have bind := bindParams_key fits few size
  constructor
  · intro passes
    obtain ⟨bufs, _, bound⟩ := bind.1 passes
    obtain ⟨condition, conditioned⟩ := exists_condition fun i among =>
      (denotes passes i among).imp fun _ both => both.1
    have executed : st.conn.exec env.pg ((st.tab.condition env.pg (whereColumns st.tab.keys 0)
        ((whereColumns st.tab.keys 0).map (keyTextOf st.tab st.fcd.record))).map
          (.delete st.tab.relation)) =
        ({ st.conn with
          working := Function.update st.conn.working st.tab.relation
            (some (rows.filter fun row => !meets condition row)) }, true) := by
      rw [conditioned, Option.map_some]
      unfold Conn.exec Statement.apply
      simp only [running, Bool.false_eq_true, ↓reduceIte, Statement.relation, present,
        Option.map_some, grants.accepts]
      rfl
    have keys : ∀ row, meets condition row = sameKey st.tab row₁ row := by
      intro row
      rw [Bool.eq_iff_iff, meets_condition_iff conditioned, sameKey_iff]
      apply forall₂_congr
      intro i among
      obtain ⟨value, denoted, here⟩ := denotes passes i among
      rw [denoted, here]
      constructor
      · rintro ⟨_, ⟨⟩, same⟩
        exact same
      · intro same
        exact ⟨value, rfl, same⟩
    unfold deleteRecord
    simp only [prepare_ok running present, ok_bind, ite_self, bound, executed, keys]
    exact ⟨_, rfl, rfl, rfl⟩
  · intro fatal
    unfold deleteRecord
    simp only [prepare_ok running present, ok_bind, ite_self, bind.2 fatal, error_bind]

end Rows

/-! ## op_delete -/

/-- DELETE removes from the table the rows with the primary key of the record, and nothing
else; without such a row it returns 23. -/
def DeletesKey (env : Env) (st : State) (rows : List Row) : Prop :=
  ∃ st', opDelete env st = .ok st' ∧
    st'.conn.working = Function.update st.conn.working st.tab.relation
      (some (rows.filter fun row => !hasKey st.tab st.fcd.record row)) ∧
    st'.fcd.status = if rows.any (hasKey st.tab st.fcd.record) then stOk else stRecNotFound

/-- The row that a read by the key in use finds is the row with the primary key of the record,
and that key passes the check of `valida_comando`. -/
def DeleteSafe (env : Env) (st : State) (rows : List Row) : Prop :=
  ∃ cols, readColumns st.tab st.fcd.keyId false = .ok cols ∧ Passes st.tab st.fcd.record cols ∧
    match selects env.pg st.tab cols st.fcd.record rows with
    | some found => hasKey st.tab st.fcd.record found = true ∧
        Passes st.tab st.fcd.record (whereColumns st.tab.keys 0)
    | none => ∀ row ∈ rows, hasKey st.tab st.fcd.record row = false

/-- Resetting the scan leaves the table open. -/
theorem OpenTable.resetScan {st : State} (ready : OpenTable st) : OpenTable st.resetScan :=
  ⟨ready.opened, ready.laid, ready.whole, ready.size, ready.count, ready.keyId, ready.keys,
    ready.prepared⟩

/-- Resetting the scan leaves the rows as they are. -/
theorem Content.resetScan {st : State} {rows : List Row} (content : Content st rows) :
    Content st.resetScan rows :=
  ⟨content.running, content.present, content.fits, content.readable, content.filled⟩

section Op

variable {env : Env} {st st₁ : State} {rows : List Row}

/-- After a read that found nothing, DELETE returns 23. -/
theorem opDelete_missing (ready : OpenTable st)
    (read : opReadRandom env false false st.resetScan = .ok st₁)
    (missing : st₁.fcd.status = stRecNotFound) :
    opDelete env st = .ok (st₁.setStatus stRecNotFound) := by
  unfold opDelete
  have other : stRecNotFound ≠ stOk := by decide
  rw [if_neg ready.opened, read, ok_bind, missing, if_pos other]
  rfl

/-- After a read that found a row, DELETE removes the rows with its key, or exits. -/
theorem opDelete_found (ready : OpenTable st) (grants : Grants env.pg) (content : Content st rows)
    (read : opReadRandom env false false st.resetScan = .ok st₁) (kept : Kept st.resetScan st₁)
    (ok : st₁.fcd.status = stOk) (conn : st₁.conn = st.conn) {found : Row} (member : found ∈ rows)
    (decoded : pq2cob st.tab.columns found st.fcd.record = .ok st₁.fcd.record) :
    (Passes st.tab st₁.fcd.record (whereColumns st.tab.keys 0) →
      ∃ st', opDelete env st = .ok st' ∧ st'.fcd.status = stOk ∧
        st'.conn.working = Function.update st.conn.working st.tab.relation
          (some (rows.filter fun row => !sameKey st.tab found row))) ∧
    (¬ Passes st.tab st₁.fcd.record (whereColumns st.tab.keys 0) →
      opDelete env st = .error .exit) := by
  obtain ⟨key, here, member', first⟩ := ready.first
  obtain ⟨fits, few⟩ := ready.keyFits member' (Or.inl rfl)
  have keys : whereColumns st₁.tab.keys 0 = whereColumns st.tab.keys 0 := by
    rw [kept.keys]
    rfl
  have relation : st₁.tab.relation = st.tab.relation := kept.relation
  have columns : st₁.tab.columns = st.tab.columns := kept.columns
  have size := (pq2cobFrom_room (Nat.zero_le _) decoded).1
  have fits' : KeyFits st.tab st₁.fcd.record key := ⟨fun i among => by
    rw [size]
    exact fits.inside i among, fits.short⟩
  have fits₁ : KeyFits st₁.tab st₁.fcd.record key :=
    kept.keyFits ⟨fits'.inside, fits'.short⟩
  have same : ∀ row, sameKey st₁.tab found row = sameKey st.tab found row := by
    intro row
    unfold sameKey
    rw [keys]
  have pass : Passes st₁.tab st₁.fcd.record (whereColumns st₁.tab.keys 0) ↔
      Passes st.tab st₁.fcd.record (whereColumns st.tab.keys 0) := by
    unfold Passes
    rw [keys]
    simp only [kept.column, kept.chave]
    exact Iff.rfl
  obtain ⟨kbuf, built⟩ := getkbuf_returns (by rw [kept.keys]; exact here) (by decide) fits₁
  have body : opDelete env st = deleteRecord env st₁ := by
    have stay : ¬ st₁.fcd.status ≠ stOk := not_not.mpr ok
    unfold opDelete
    rw [if_neg ready.opened, read, ok_bind, if_neg stay, built, ok_bind]
  have run := deleteRecord_run st₁ rows found grants
    (by rw [conn]; exact content.running) (by rw [conn, relation]; exact content.present)
    (by rw [keys, first]; exact fits₁) (by rw [keys, first]; exact few)
    (by rw [kept.bufs]; exact ready.size) (by
      intro passes i among
      rw [keys] at among
      obtain ⟨value, present, _, filled⟩ := content.column_present ready member among
      refine ⟨value, ?_, present⟩
      apply denote_keyTextOf_read (by rw [columns]; exact ready.laid)
        (by rw [columns]; exact content.fits found member) (by rw [columns]; exact decoded)
        (by rw [keys]; exact among) present filled
      have checked := passes i (by rw [keys]; exact among)
      rw [chave_of_mem (by rw [keys]; exact among)] at checked
      exact checked)
  rw [pass, relation, conn] at run
  simp only [same] at run
  rw [body]
  exact run

/-- The bytes that a found row and the record have in common pass the check or fail it
together. -/
theorem passes_of_hasKey (ready : OpenTable st) (content : Content st rows) {found : Row}
    {record : List Byte} (member : found ∈ rows)
    (decoded : pq2cob st.tab.columns found st.fcd.record = .ok record)
    (key : hasKey st.tab st.fcd.record found = true) :
    Passes st.tab record (whereColumns st.tab.keys 0) ↔
      Passes st.tab st.fcd.record (whereColumns st.tab.keys 0) := by
  have read := hasKey_read content ready member decoded
  apply forall₂_congr
  intro i among
  obtain ⟨value, here, holds⟩ := hasKey_iff.mp key i among
  obtain ⟨_, here', holds'⟩ := hasKey_iff.mp read i among
  rw [here] at here'
  cases here'
  rw [Except.ok.inj (holds.symm.trans holds')]

/-- A DELETE that takes away the row of its key meets the condition. -/
theorem deleteSafe_of_deletesKey (ready : OpenTable st) (grants : Grants env.pg)
    (content : Content st rows) (deletes : DeletesKey env st rows) : DeleteSafe env st rows := by
  obtain ⟨_, cols, _, _, columns, _⟩ := ready.readColumns
  obtain ⟨st', deleted, working, _⟩ := deletes
  have opened : ¬ st.fcd.openMode = 128 := ready.opened
  have steps := deleted
  unfold opDelete at steps
  rw [if_neg opened] at steps
  obtain ⟨st₁, read, steps⟩ := bind_eq_ok.mp steps
  obtain ⟨kept, passes, ⟨missing, _, none⟩ | ⟨ok, conn, found, member, selected, decoded⟩⟩ :=
    opReadRandom_selects ready.resetScan grants content.resetScan columns read
  · change selects env.pg st.tab cols st.fcd.record rows = Option.none at none
    refine ⟨cols, columns, passes, ?_⟩
    rw [none]
    rw [opDelete_missing ready read missing] at deleted
    cases deleted
    have after := congrFun working st.tab.relation
    rw [Function.update_self, show (st₁.setStatus stRecNotFound).conn.working =
      st.conn.working from kept.working, content.present] at after
    intro row member
    have all := List.filter_eq_self.mp (Option.some.inj after).symm row member
    simpa using all
  · change selects env.pg st.tab cols st.fcd.record rows = some found at selected
    refine ⟨cols, columns, passes, ?_⟩
    rw [selected]
    obtain ⟨returns, exits⟩ :=
      opDelete_found ready grants content read kept ok conn member decoded
    by_cases again : Passes st.tab st₁.fcd.record (whereColumns st.tab.keys 0)
    · obtain ⟨st'', deleted', _, working'⟩ := returns again
      obtain rfl := Except.ok.inj (deleted.symm.trans deleted')
      have removed := congrFun (working.symm.trans working') st.tab.relation
      rw [Function.update_self, Function.update_self] at removed
      have key : hasKey st.tab st.fcd.record found = true := by
        by_contra other
        have stays : found ∈ rows.filter fun row => !sameKey st.tab found row := by
          rw [← Option.some.inj removed]
          exact List.mem_filter.mpr ⟨member, by rw [Bool.eq_false_iff.mpr other]; rfl⟩
        have self : sameKey st.tab found found = true := sameKey_iff.mpr fun _ _ => rfl
        have gone := (List.mem_filter.mp stays).2
        rw [self] at gone
        cases gone
      exact ⟨key, (passes_of_hasKey ready content member decoded key).mp again⟩
    · rw [exits again] at deleted
      cases deleted

/-- Under the condition DELETE takes away the row of its key, and no other one. -/
theorem deletesKey_of_deleteSafe (ready : OpenTable st) (grants : Grants env.pg)
    (content : Content st rows) (safe : DeleteSafe env st rows) : DeletesKey env st rows := by
  obtain ⟨_, cols, _, _, columns, _⟩ := ready.readColumns
  obtain ⟨cols', columns', passes, outcome⟩ := safe
  rw [columns] at columns'
  cases columns'
  obtain ⟨st₁, read⟩ :=
    opReadRandom_returns false ready.resetScan grants content.resetScan columns passes
  obtain ⟨kept, _, ⟨missing, _, none⟩ | ⟨ok, conn, found, member, selected, decoded⟩⟩ :=
    opReadRandom_selects ready.resetScan grants content.resetScan columns read
  · change selects env.pg st.tab cols st.fcd.record rows = Option.none at none
    rw [none] at outcome
    have all : (rows.filter fun row => !hasKey st.tab st.fcd.record row) = rows :=
      List.filter_eq_self.mpr fun row member => by rw [outcome row member]; rfl
    refine ⟨_, opDelete_missing ready read missing, ?_, ?_⟩
    · rw [all, ← content.present, Function.update_eq_self]
      exact kept.working
    · rw [if_neg]
      · rfl
      · intro any
        obtain ⟨row, member, key⟩ := List.any_eq_true.mp any
        rw [outcome row member] at key
        cases key
  · change selects env.pg st.tab cols st.fcd.record rows = some found at selected
    rw [selected] at outcome
    obtain ⟨key, again⟩ := outcome
    obtain ⟨st', deleted, status, working⟩ :=
      (opDelete_found ready grants content read kept ok conn member decoded).1
        ((passes_of_hasKey ready content member decoded key).mpr again)
    refine ⟨st', deleted, ?_, ?_⟩
    · rw [working]
      congr 2
      apply List.filter_congr
      intro row among
      rw [hasKey_eq_sameKey content ready member among key]
    · rw [status, if_pos (List.any_eq_true.mpr ⟨found, member, key⟩)]

end Op

/-- DELETE addresses the primary key just when the read by the key in use finds the row with
that key. -/
theorem delete_exactly_iff (env : Env) (st : State) (rows : List Row) (ready : OpenTable st)
    (grants : Grants env.pg) (content : Content st rows) :
    DeletesKey env st rows ↔ DeleteSafe env st rows :=
  ⟨deleteSafe_of_deletesKey ready grants content, deletesKey_of_deleteSafe ready grants content⟩

/-- People with a code, the primary key, and the letter of a city, an alternate key. -/
def peopleTable : Table :=
  Table.opened 1 1 0 []
    [⟨"codigo", .numeric, 1, 0, 0, true, one_digit, no_decimals_of_one⟩,
      ⟨"cidade", .character, 1, 0, 1, false, one_digit, no_decimals_of_one⟩]
    [[0], [1]] 0 (clearBuffers maxCols)

/-- Two people who live in one city. -/
def neighbours : List Row := [[.num 1, .chr [65]], [.num 2, .chr [65]]]

/-- The table of people, and the second of the neighbours in the record area. -/
def people (keyId : ℕ) : State where
  conn := ⟨fun _ => some neighbours, fun _ => some neighbours, false, fun _ => none⟩
  pendingCommits := 0
  eofStart := false
  tab := peopleTable
  fcd := openedFcd keyId [50, 65]

/-- The table of people is open. -/
theorem people_open {keyId : ℕ} (key : keyId < 2) : OpenTable (people keyId) where
  opened := (by decide : 2 ≠ 128)
  laid := (by decide : Contiguous 0 peopleTable.columns)
  whole := (by decide : totalLen peopleTable.columns ≤ 2)
  size := List.length_replicate
  count := (by decide : peopleTable.keys.length ≤ maxKeys)
  keyId := key
  keys := (by decide : ∀ key ∈ peopleTable.keys, key ≠ [] ∧ key.length ≤ maxComps ∧
    (∀ i ∈ key, i < peopleTable.columns.length) ∧
    (key.map fun i => (peopleTable.column i).len).sum ≤ maxKeyLen)
  prepared := nofun

/-- The table of people has two neighbours. -/
theorem people_content (keyId : ℕ) : Content (people keyId) neighbours where
  running := rfl
  present := rfl
  fits := by
    intro row member
    have letter : (Value.chr [65]).Fits (peopleTable.column 1) :=
      ⟨rfl, by decide, by decide, by decide⟩
    rcases List.mem_cons.mp member with rfl | member
    · exact .cons ⟨rfl, 1, by norm_num, by decide⟩ (.cons letter .nil)
    · rw [List.mem_singleton.mp member]
      exact .cons ⟨rfl, 2, by norm_num, by decide⟩ (.cons letter .nil)
  readable := by
    intro row member
    rcases List.mem_cons.mp member with rfl | member
    · exact ⟨[49, 65], (by decide +kernel : pq2cob peopleTable.columns _ [50, 65] = _)⟩
    · rw [List.mem_singleton.mp member]
      exact ⟨[50, 65], (by decide +kernel : pq2cob peopleTable.columns _ [50, 65] = _)⟩
  filled := (by decide +kernel : ∀ row ∈ neighbours, ∀ i ∈ whereColumns peopleTable.keys 0,
    row[i]? ≠ some .null)

/-- The plain server grants every statement. -/
theorem plainServer_grants : Grants plainServer.pg := ⟨fun _ _ _ => rfl, fun _ _ => rfl⟩

/-- With the primary key in use, DELETE removes the second of the neighbours. -/
theorem delete_exactly_primary : DeletesKey plainServer (people 0) neighbours := by
  apply (delete_exactly_iff plainServer (people 0) neighbours (people_open (by decide))
    plainServer_grants (people_content 0)).mpr
  have found : selects plainServer.pg peopleTable [0] [50, 65] neighbours =
      some [.num 2, .chr [65]] := by decide +kernel
  refine ⟨[0], rfl, (by decide +kernel : Passes peopleTable [50, 65] [0]), ?_⟩
  change match selects plainServer.pg peopleTable [0] [50, 65] neighbours with
    | some found => hasKey peopleTable [50, 65] found = true ∧
        Passes peopleTable [50, 65] (whereColumns peopleTable.keys 0)
    | none => ∀ row ∈ neighbours, hasKey peopleTable [50, 65] row = false
  rw [found]
  exact (by decide +kernel : hasKey peopleTable [50, 65] [.num 2, .chr [65]] = true ∧
    Passes peopleTable [50, 65] (whereColumns peopleTable.keys 0))

/-- With the alternate key in use, DELETE of the second of the neighbours finds the first, whose
primary key is another. -/
theorem delete_exactly_fails_alternate :
    selects plainServer.pg peopleTable [1] [50, 65] neighbours = some [.num 1, .chr [65]] ∧
      hasKey peopleTable [50, 65] [.num 1, .chr [65]] = false ∧
      ¬ DeletesKey plainServer (people 1) neighbours := by
  have found : selects plainServer.pg peopleTable [1] [50, 65] neighbours =
      some [.num 1, .chr [65]] := by decide +kernel
  have other : hasKey peopleTable [50, 65] [.num 1, .chr [65]] = false := by decide +kernel
  refine ⟨found, other, fun deletes => ?_⟩
  obtain ⟨cols, columns, _, outcome⟩ := deleteSafe_of_deletesKey (people_open (by decide))
    plainServer_grants (people_content 1) deletes
  cases columns
  change match selects plainServer.pg peopleTable [1] [50, 65] neighbours with
    | some found => hasKey peopleTable [50, 65] found = true ∧
        Passes peopleTable [50, 65] (whereColumns peopleTable.keys 0)
    | none => ∀ row ∈ neighbours, hasKey peopleTable [50, 65] row = false at outcome
  rw [found] at outcome
  exact absurd outcome.1 (by rw [other]; exact Bool.false_ne_true)

end Pqfh
