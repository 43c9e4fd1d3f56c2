import Pqfh.Handler.Stored

/-! # Records written and read back

A record written by WRITE or REWRITE reads back as the same bytes when each field comes
through its parameter with the value it stands for. Two things can change it on the way:
the minus sign takes the place of the first digit of a negative number, and a text longer
than a row of `tab->bufs` goes on with the text of the next parameter
(`Pqfh.Survives`).
-/

namespace Pqfh

/-! ## Fields that survive -/

/-- The texts that WRITE and REWRITE make of the fields of columns. -/
def writeTexts (record : List Byte) (cols : List Column) : List (List Byte) :=
  cols.map fun col => writeChars col (slice record col.offset col.len)

/-- A field comes through its parameter: its sign takes no digit away and, where its text
outruns its row and there is a next row, what it runs into happens to stand for the same. -/
def FieldSurvives (pg : Postgres) (col : Column) (field : List Byte) (later : List (List Byte)) :
    Prop :=
  if (writeChars col field).length < rowSize ∨ later = [] then col.tp = .numeric → SignFits field
  else pg.store col (runInto (writeChars col field) later) = some (fieldValue col field)

/-- The fields of columns come through as parameters, one after the other; `after` are the
texts of the parameters that follow them. -/
def Survives (pg : Postgres) (record : List Byte) : List Column → List (List Byte) → Prop
  | [], _ => True
  | col :: cols, after =>
      FieldSurvives pg col (slice record col.offset col.len)
          (runOn (writeTexts record cols ++ after)) ∧
        Survives pg record cols after

/-- The fields of a record are those a COBOL program fills. -/
def RecordOk (cols : List Column) (record : List Byte) : Prop :=
  ∀ col ∈ cols, FieldOk col (slice record col.offset col.len)

instance (cols : List Column) (record : List Byte) : Decidable (RecordOk cols record) :=
  inferInstanceAs (Decidable (∀ col ∈ cols, _))

instance (pg : Postgres) (col : Column) (field : List Byte) (later : List (List Byte)) :
    Decidable (FieldSurvives pg col field later) :=
  if fits : (writeChars col field).length < rowSize ∨ later = [] then
    decidable_of_iff (col.tp = .numeric → SignFits field) (by rw [FieldSurvives, if_pos fits])
  else
    decidable_of_iff (pg.store col (runInto (writeChars col field) later) =
      some (fieldValue col field)) (by rw [FieldSurvives, if_neg fits])

instance decidableSurvives (pg : Postgres) (record : List Byte) :
    (cols : List Column) → (after : List (List Byte)) → Decidable (Survives pg record cols after)
  | [], _ => isTrue trivial
  | _ :: cols, after =>
      have := decidableSurvives pg record cols after
      inferInstanceAs (Decidable (_ ∧ _))

theorem store_runInto_iff {pg : Postgres} {col : Column} {field : List Byte}
    {later : List (List Byte)} (wellFormed : FieldOk col field) (full : field.length = col.len) :
    pg.store col (runInto (writeChars col field) later) = some (fieldValue col field) ↔
      FieldSurvives pg col field later := by
  unfold FieldSurvives
  split
  · rename_i fits
    rw [runInto_eq_self fits]
    exact store_writeChars_iff wellFormed full
  · exact Iff.rfl

/-- A column of a record holds what the record has there. -/
def Holds (col : Column) (value : Value) (record : List Byte) : Prop :=
  fieldBytes col (printValue col value) = .ok (slice record col.offset col.len)

instance (col : Column) (value : Value) (record : List Byte) : Decidable (Holds col value record) :=
  inferInstanceAs (Decidable (_ = _))

/-- The record area holds the row that was read into it. -/
theorem pq2cob_holds {tab : Table} {record record' : List Byte} {row : Row}
    (laid : Contiguous 0 tab.columns) (typed : row.length = tab.columns.length)
    (read : pq2cob tab.columns row record = .ok record') :
    ∀ i value, row[i]? = some value → Holds (tab.column i) value record' := by
  have room := (pq2cobFrom_room (Nat.zero_le _) read).2
  obtain ⟨record'', read', _, _, _, fields⟩ :=
    pq2cobFrom_spec laid (pq2cobFrom_printed typed read) room
  obtain rfl := Except.ok.inj (read.symm.trans read')
  exact (forall₂_columns_iff typed).mp fields

/-- What REWRITE makes of a row that its UPDATE selects reads back as the record just when the
fields set survive and the columns not set had the bytes of the record already. -/
def RewriteSurvives (pg : Postgres) (tab : Table) (record : List Byte) (row : Row) : Prop :=
  Survives pg record ((setColumns tab.columns).map tab.column) (rewriteKeyTexts tab record) ∧
    ∀ i value, i ∉ setColumns tab.columns → row[i]? = some value →
      Holds (tab.column i) value record

theorem survives_iff (pg : Postgres) (record : List Byte) :
    ∀ (cols : List Column) (after : List (List Byte)),
      Survives pg record cols after ↔
        Rowwise (fun col => writeChars col (slice record col.offset col.len))
          (fun col => FieldSurvives pg col (slice record col.offset col.len)) cols after
  | [], _ => Iff.rfl
  | _ :: cols, after => and_congr_right fun _ => survives_iff pg record cols after

/-- The fields of a well-formed record are stored as they read when they survive. -/
theorem RecordOk.carries {pg : Postgres} {tab : Table} {record : List Byte}
    (wellFormed : RecordOk tab.columns record) :
    Carries pg tab record (fun col => writeChars col (slice record col.offset col.len))
      (fun col value => Holds col value record)
      (fun col => FieldSurvives pg col (slice record col.offset col.len)) where
  sent i among inside _ := congrArg Prod.fst
    (checked_write (tab.chave i) (wellFormed _ (Table.column_mem among)) (length_slice inside)).1
  stored i among inside := by
    intro later value clean stored
    have fieldOk := wellFormed _ (Table.column_mem among)
    have full := length_slice inside
    obtain ⟨fits, present⟩ := store_fits clean stored
    unfold Holds
    rw [fieldBytes_eq_iff fits present fieldOk full, ← store_runInto_iff fieldOk full,
      ← Option.some.injEq, ← stored]

theorem opWrite_readsBack_iff {env : Env} {st st' : State} (laid : Contiguous 0 st.tab.columns)
    (wellFormed : RecordOk st.tab.columns st.fcd.record) (wrote : opWrite env st = .ok st')
    (status : st'.fcd.status = stOk) :
    ∃ rows row, st.conn.working st.tab.relation = some rows ∧
      st'.conn.working st.tab.relation = some (rows ++ [row]) ∧
      (ReadsBack st.tab.columns row st.fcd.record ↔
        Survives env.pg st.fcd.record st.tab.columns []) := by
  obtain ⟨inside, rows, row, present, after, typed, holds⟩ :=
    opWrite_stores wellFormed.carries wrote status
  have whole := laid.totalLen_le (Nat.zero_le _) inside
  refine ⟨rows, row, present, after, ?_⟩
  rw [readsBack_iff laid typed (by omega), survives_iff]
  exact holds

theorem opRewrite_readsBack_iff {env : Env} {st st' : State} {done : Bool}
    (laid : Contiguous 0 st.tab.columns) (wellFormed : RecordOk st.tab.columns st.fcd.record)
    (rewrote : opRewrite env st = .ok (done, st')) (status : st'.fcd.status = stOk) :
    ∃ rows, st.conn.working st.tab.relation = some rows ∧
      ((st'.conn.working = st.conn.working ∧ ∃ row ∈ rows,
          pq2cob st.tab.columns row st.fcd.record = .ok st.fcd.record) ∨
        ∃ condition change, rewriteCondition env.pg st.tab st.fcd.record = some condition ∧
          st'.conn.working st.tab.relation = some (rows.map change) ∧
          ∀ row, row.length = st.tab.columns.length → if meets condition row then
              (ReadsBack st.tab.columns (change row) st.fcd.record ↔
                RewriteSurvives env.pg st.tab st.fcd.record row)
            else change row = row) := by
  obtain ⟨whole, rows, present, outcome⟩ := opRewrite_stores wellFormed.carries rewrote status
  refine ⟨rows, present, outcome.imp_right fun changed => ?_⟩
  obtain ⟨condition, change, conditioned, after, each⟩ := changed
  refine ⟨condition, change, conditioned, after, fun row typed => ?_⟩
  have here := each row typed
  split
  · rename_i selected
    rw [if_pos selected] at here
    obtain ⟨length, holds⟩ := here
    rw [readsBack_iff laid (length.trans typed) whole]
    refine holds.trans ?_
    unfold RowAfter RewriteSurvives
    rw [survives_iff]
  · rename_i other
    rwa [if_neg other] at here

/-! ## The round trip -/

/-- What WRITE or REWRITE put into the table reads back as the record just when the record
survives. -/
theorem round_trip_iff (env : Env) (st : State) (laid : Contiguous 0 st.tab.columns)
    (wellFormed : RecordOk st.tab.columns st.fcd.record) :
    (∀ st', opWrite env st = .ok st' → st'.fcd.status = stOk →
      ∃ rows row, st.conn.working st.tab.relation = some rows ∧
        st'.conn.working st.tab.relation = some (rows ++ [row]) ∧
        (ReadsBack st.tab.columns row st.fcd.record ↔
          Survives env.pg st.fcd.record st.tab.columns [])) ∧
    ∀ done st', opRewrite env st = .ok (done, st') → st'.fcd.status = stOk →
      ∃ rows, st.conn.working st.tab.relation = some rows ∧
        ((st'.conn.working = st.conn.working ∧ ∃ row ∈ rows,
            pq2cob st.tab.columns row st.fcd.record = .ok st.fcd.record) ∨
          ∃ condition change, rewriteCondition env.pg st.tab st.fcd.record = some condition ∧
            st'.conn.working st.tab.relation = some (rows.map change) ∧
            ∀ row, row.length = st.tab.columns.length → if meets condition row then
                (ReadsBack st.tab.columns (change row) st.fcd.record ↔
                  RewriteSurvives env.pg st.tab st.fcd.record row)
              else change row = row) :=
  ⟨fun _ wrote status => opWrite_readsBack_iff laid wellFormed wrote status,
    fun _ _ rewrote status => opRewrite_readsBack_iff laid wellFormed rewrote status⟩

/-- A server that takes only plain numerals for numbers and refuses nothing. -/
def plainServer : Env where
  pg :=
    { other := fun _ => none
      other_plain := fun _ _ => rfl
      refuses := fun _ _ => false
      refusesDdl := fun _ _ => false
      tryLock := fun _ _ => true
      relation := fun _ => 1
      oid := fun _ => 0
      catalog := fun _ => []
      indexes := fun _ => []
      textLe := fun a b => a ≤ b
      textLe_total := fun a b => by simpa only [decide_eq_true_eq] using le_total a b
      textLe_trans := fun a b c => by simpa only [decide_eq_true_eq] using le_trans
      textLe_antisymm := fun a b => by simpa only [decide_eq_true_eq] using le_antisymm
      arrange := fun le rows => rows.insertionSort fun a b => le a b = true
      arrange_perm := fun _ rows => List.perm_insertionSort _ rows
      arrange_sorted := fun le rows total trans =>
        have : Std.Total fun a b : Row => le a b = true := ⟨total⟩
        have : IsTrans Row fun a b => le a b = true := ⟨trans⟩
        List.pairwise_insertionSort _ rows
      unforeseen := fun _ _ => none }
  mode := .B
  forcePartial := false
  convertida := fun _ => true
  nomeDicionario := fun tabela => tabela

/-- Buffers that are clear, with so many rows for parameters. -/
def clearBuffers (rows : ℕ) : Buffers := ⟨List.replicate (rows * rowSize) 0, [], [], [], []⟩

/-- The fcd of a file opened I-O, with a key in use and a record. -/
def openedFcd (keyId : ℕ) (record : List Byte) : Fcd :=
  ⟨stOk, 2, keyId, record, false, false, false, [], fun _ => 0, 0, true⟩

/-- A code of one digit, the primary key, and a balance of three digits with one decimal. -/
def balanceColumns : List Column :=
  [⟨"codigo", .numeric, 1, 0, 0, true, one_digit, no_decimals_of_one⟩,
    ⟨"saldo", .numeric, 3, 1, 1, false, three_digits, one_decimal_of_three⟩]

/-- The table of balances, just opened, with some rows and a record in the record area. -/
def balances (rows : List Row) (record : List Byte) : State where
  conn := ⟨fun _ => some rows, fun _ => some rows, false, fun _ => none⟩
  pendingCommits := 0
  eofStart := false
  tab := Table.opened 1 1 0 [] balanceColumns [[0]] 0 (clearBuffers 4)
  fcd := openedFcd 0 record

/-- The balance -2.5 survives a WRITE, and a REWRITE of another balance. -/
theorem round_trip_small_negative :
    (∃ st' row, opWrite plainServer (balances [] [49, 48, 50, 117]) = .ok st' ∧
      st'.fcd.status = stOk ∧ st'.conn.working 1 = some [row] ∧
      ReadsBack balanceColumns row [49, 48, 50, 117]) ∧
    ∃ st' row, opRewrite plainServer (balances [[.num 1, .num 7]] [49, 48, 50, 117]) =
      .ok (true, st') ∧ st'.fcd.status = stOk ∧ st'.conn.working 1 = some [row] ∧
      ReadsBack balanceColumns row [49, 48, 50, 117] := by
  have laid : Contiguous 0 balanceColumns := by decide
  have wellFormed : RecordOk balanceColumns [49, 48, 50, 117] := by decide +kernel
  constructor
  · obtain ⟨st', wrote, status⟩ := map_eq_ok.mp (by decide +kernel :
      (fun st : State => st.fcd.status) <$>
        opWrite plainServer (balances [] [49, 48, 50, 117]) = .ok stOk)
    obtain ⟨rows, row, before, after, reads⟩ :=
      (round_trip_iff plainServer (balances [] [49, 48, 50, 117]) laid wellFormed).1 st' wrote
        status
    cases before
    exact ⟨st', row, wrote, status, after, reads.mpr (by decide +kernel)⟩
  · obtain ⟨⟨done, st'⟩, rewrote, result⟩ := map_eq_ok.mp (by decide +kernel :
      (fun result : Bool × State => (result.1, result.2.fcd.status)) <$>
        opRewrite plainServer (balances [[.num 1, .num 7]] [49, 48, 50, 117]) = .ok (true, stOk))
    obtain ⟨done', status⟩ := Prod.mk.inj result
    obtain rfl : done = true := done'
    obtain ⟨rows, before, outcome⟩ := (round_trip_iff plainServer
      (balances [[.num 1, .num 7]] [49, 48, 50, 117]) laid wellFormed).2 true st' rewrote status
    cases before
    rcases outcome with ⟨_, row, member, same⟩ | ⟨condition, change, conditioned, after, each⟩
    · obtain rfl := List.mem_singleton.mp member
      exact absurd same (by decide +kernel)
    · have key : rewriteCondition plainServer.pg (balances [] []).tab [49, 48, 50, 117] =
          some [(0, .num 1)] := by decide +kernel
      obtain rfl := Option.some.inj (conditioned.symm.trans key)
      have here := each [.num 1, .num 7] rfl
      rw [if_pos (by decide +kernel)] at here
      refine ⟨st', change [.num 1, .num 7], rewrote, status, after,
        here.mpr ⟨by decide +kernel, ?_⟩⟩
      intro i value unset present
      match i with
      | 0 =>
          cases present
          decide +kernel
      | 1 => exact absurd (by decide +kernel) unset
      | i + 2 => cases present

/-- The balance -12.5 is stored as -2.5. -/
theorem round_trip_loses_digit :
    RecordOk balanceColumns [49, 49, 50, 117] ∧
    ∃ st' row, opWrite plainServer (balances [] [49, 49, 50, 117]) = .ok st' ∧
      st'.fcd.status = stOk ∧ st'.conn.working 1 = some [row] ∧
      pq2cob balanceColumns row [49, 49, 50, 117] = .ok [49, 48, 50, 117] ∧
      ¬ ReadsBack balanceColumns row [49, 49, 50, 117] := by
  refine ⟨by decide +kernel, ?_⟩
  obtain ⟨st', wrote, result⟩ := map_eq_ok.mp (by decide +kernel :
    (fun st : State => (st.fcd.status, st.conn.working 1)) <$>
      opWrite plainServer (balances [] [49, 49, 50, 117]) =
    .ok (stOk, some [[.num 1, .num (-5 / 2)]]))
  obtain ⟨status, after⟩ := Prod.mk.inj result
  have read : pq2cob balanceColumns [.num 1, .num (-5 / 2)] [49, 49, 50, 117] =
      .ok [49, 48, 50, 117] := by decide +kernel
  refine ⟨st', _, wrote, status, after, read, ?_⟩
  intro reads
  obtain ⟨area, read', same⟩ := reads [49, 49, 50, 117] (by decide +kernel)
  obtain rfl := Except.ok.inj (read.symm.trans read')
  have saldo :=
    same ⟨"saldo", .numeric, 3, 1, 1, false, three_digits, one_decimal_of_three⟩ (by decide +kernel)
  exact absurd saldo (by decide +kernel)

end Pqfh
