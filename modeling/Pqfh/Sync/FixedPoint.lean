import Pqfh.Sync.Settle

/-! # Whether SYNC comes to rest

After SYNC has written a record of the ISAM file, the next CMP should find nothing to report
about it. `Pqfh.sync_settles_iff`: it does just when each field comes back as `reccmp` takes it
(`Pqfh.RecordSettles`).
-/

namespace Pqfh

/-- Reading a row back and comparing it with a record of the ISAM file shows no difference. -/
def Settles (cols : List Column) (row : Row) (record : List Byte) : Prop :=
  ∀ area : List Byte, totalLen cols ≤ area.length →
    ∃ area', pq2cob cols row area = .ok area' ∧ reccmp area' record cols = .eq

/-- The fields of columns come back as `reccmp` takes them; `after` are the texts of the
parameters that follow them. -/
def RecordSettles (pg : Postgres) (record : List Byte) (cols : List Column)
    (after : List (List Byte)) : Prop :=
  Rowwise (fun col => sentText col (slice record col.offset col.len))
    (fun col => FieldSettles pg col (slice record col.offset col.len)) cols after

instance (pg : Postgres) (record : List Byte) (cols : List Column) (after : List (List Byte)) :
    Decidable (RecordSettles pg record cols after) :=
  inferInstanceAs (Decidable (Rowwise _ _ _ _))

/-- A row comes back as `reccmp` takes the record when REWRITE has updated it: the fields set do,
and the columns not set agreed with the record already. -/
def RowSettles (pg : Postgres) (tab : Table) (record : List Byte) (row : Row) : Prop :=
  RecordSettles pg record ((setColumns tab.columns).map tab.column) (rewriteKeyTexts tab record) ∧
    ∀ i value, i ∉ setColumns tab.columns → row[i]? = some value →
      Agrees (tab.column i) value (slice record (tab.column i).offset (tab.column i).len)

/-! ## Comparing column by column -/

theorem colcmp_eq_iff {col : Column} {recbd recisam : List Byte} :
    colcmp col recbd recisam = .eq ↔
      slice recisam col.offset col.len = slice recbd col.offset col.len ∨
        isamField col (slice recisam col.offset col.len) = slice recbd col.offset col.len := by
  unfold colcmp
  simp only [memcmp_eq_iff]
  split
  · rename_i same
    exact iff_of_true rfl (Or.inl same)
  · rename_i differ
    rw [memcmp_eq_iff, or_iff_right differ]
    rfl

theorem reccmp_eq_iff {recbd recisam : List Byte} :
    ∀ {cols : List Column},
      reccmp recbd recisam cols = .eq ↔ ∀ col ∈ cols, colcmp col recbd recisam = .eq := by
  intro cols
  induction cols with
  | nil => exact iff_of_true rfl nofun
  | cons col cols ih =>
      unfold reccmp
      rw [List.forall_mem_cons, ← ih]
      split
      · rename_i differ
        exact iff_of_false differ fun both => differ both.1
      · rename_i same
        rw [and_iff_right (not_not.mp same)]

/-- A row shows no difference just when each of its columns agrees. -/
theorem settles_iff {cols : List Column} {row : Row} {record : List Byte}
    (laid : Contiguous 0 cols) (length : row.length = cols.length) :
    Settles cols row record ↔ List.Forall₂ (fun col value =>
      Agrees col value (slice record col.offset col.len)) cols row := by
  constructor
  · intro settles
    obtain ⟨area, read, same⟩ := settles (List.replicate (totalLen cols) 0)
      (by rw [List.length_replicate])
    obtain ⟨area', read', _, _, _, fields⟩ := pq2cobFrom_spec laid (pq2cobFrom_printed length read)
      (by rw [Nat.zero_add, List.length_replicate] :
        0 + totalLen cols ≤ (List.replicate (totalLen cols) (0 : Byte)).length)
    obtain rfl := Except.ok.inj (read.symm.trans read')
    rw [List.forall₂_iff_zip] at fields ⊢
    refine ⟨length.symm, fun {col value} member => ?_⟩
    have here := reccmp_eq_iff.mp same col (List.of_mem_zip member).1
    exact ⟨_, fields.2 member, colcmp_eq_iff.mp here⟩
  · intro columns area room
    have printed : List.Forall₂ (fun col value => ∃ field,
        fieldBytes col (printValue col value) = .ok field ∧ field.length = col.len) cols row :=
      columns.imp fun col value agrees => by
        obtain ⟨bytes, read, _⟩ := agrees
        exact ⟨bytes, read, length_fieldBytes read⟩
    obtain ⟨area', read, _, _, _, fields⟩ := pq2cobFrom_spec laid printed
      (by omega : 0 + totalLen cols ≤ area.length)
    refine ⟨area', read, reccmp_eq_iff.mpr fun col member => colcmp_eq_iff.mpr ?_⟩
    rw [← List.map_fst_zip length.ge] at member
    obtain ⟨pair, paired, rfl⟩ := List.mem_map.mp member
    obtain ⟨bytes, bytes', same⟩ := (List.forall₂_iff_zip.mp columns).2 paired
    have here := (List.forall₂_iff_zip.mp fields).2 paired
    obtain rfl := Except.ok.inj (here.symm.trans bytes')
    exact same

/-! ## What SYNC writes -/

theorem settling_carries (pg : Postgres) (tab : Table) (record : List Byte) :
    Carries pg tab record (fun col => sentText col (slice record col.offset col.len))
      (fun col value => Agrees col value (slice record col.offset col.len))
      (fun col => FieldSettles pg col (slice record col.offset col.len)) where
  sent _ _ _ passes := checked_sentText passes
  stored _ _ inside := by
    intro later value clean stored
    exact field_settles_iff (length_slice inside) clean stored

/-- When SYNC has written a record, a row shows no difference just when its fields come back as
`reccmp` takes them; and when it has rewritten one, when the UPDATE selected the row and its
fields do, or the row showed none before. -/
theorem sync_settles_iff (env : Env) (st : State) (laid : Contiguous 0 st.tab.columns)
    (record : List Byte) :
    (∀ st', (Updates.handler env).write (st.setRecord record) = .ok st' →
      st'.fcd.status = stOk →
      ∃ rows row, st.conn.working st.tab.relation = some rows ∧
        st'.conn.working st.tab.relation = some (rows ++ [row]) ∧
        (Settles st.tab.columns row record ↔ RecordSettles env.pg record st.tab.columns [])) ∧
    ∀ st', (Updates.handler env).rewrite (st.setRecord record) = .ok st' →
      st'.fcd.status = stOk →
      ∃ rows, st.conn.working st.tab.relation = some rows ∧
        ((st'.conn.working = st.conn.working ∧
            ∃ row ∈ rows, pq2cob st.tab.columns row record = .ok record) ∨
          ∃ condition change, rewriteCondition env.pg st.tab record = some condition ∧
            st'.conn.working st.tab.relation = some (rows.map change) ∧
            ∀ row, row.length = st.tab.columns.length →
              (Settles st.tab.columns (change row) record ↔
                if meets condition row then RowSettles env.pg st.tab record row
                else Settles st.tab.columns row record)) := by
  have carries : Carries env.pg (st.setRecord record).tab (st.setRecord record).fcd.record _ _ _ :=
    settling_carries env.pg st.tab record
  constructor
  · intro st' wrote status
    obtain ⟨_, rows, row, present, after, typed, agrees⟩ := opWrite_stores carries wrote status
    refine ⟨rows, row, present, after, ?_⟩
    rw [settles_iff laid typed]
    exact agrees
  · intro st' rewrote status
    obtain ⟨⟨done, st₁⟩, updated, rfl⟩ := map_eq_ok.mp rewrote
    obtain ⟨_, rows, present, outcome⟩ := opRewrite_stores carries updated status
    refine ⟨rows, present, outcome.imp_right fun changed => ?_⟩
    obtain ⟨condition, change, conditioned, after, each⟩ := changed
    refine ⟨condition, change, conditioned, after, fun row typed => ?_⟩
    have here := each row typed
    split
    · rename_i selected
      rw [if_pos selected] at here
      rw [settles_iff laid (here.1.trans typed)]
      exact here.2
    · rename_i other
      rw [if_neg other] at here
      rw [here]

/-- A code of one digit, the primary key, a balance of three digits with one decimal, and a
label. -/
def accountColumns : List Column :=
  [⟨"codigo", .numeric, 1, 0, 0, true, one_digit, no_decimals_of_one⟩,
    ⟨"saldo", .numeric, 3, 1, 1, false, three_digits, one_decimal_of_three⟩,
    ⟨"rotulo", .character, 3, 0, 4, false, three_digits, no_decimals_of_three⟩]

/-- The table of accounts, just opened, with some rows. -/
def accounts (rows : List Row) : State where
  conn := ⟨fun _ => some rows, fun _ => some rows, false, fun _ => none⟩
  pendingCommits := 0
  eofStart := false
  tab := Table.opened 1 1 0 [] accountColumns [[0]] 0 (clearBuffers 5)
  fcd := openedFcd 0 (List.replicate 7 32)

/-- The number of a field of blanks and NULs and a text that ends in them, written and
rewritten, show no difference. -/
theorem sync_settles_blanks :
    (∃ st' row, (Updates.handler plainServer).write
        ((accounts []).setRecord [49, 32, 50, 117, 65, 0, 32]) = .ok st' ∧
      st'.fcd.status = stOk ∧ st'.conn.working 1 = some [row] ∧
      Settles accountColumns row [49, 32, 50, 117, 65, 0, 32]) ∧
    ∃ st' row, (Updates.handler plainServer).rewrite
        ((accounts [[.num 1, .num 7, .chr [66]]]).setRecord [49, 32, 50, 117, 65, 0, 32]) =
        .ok st' ∧
      st'.fcd.status = stOk ∧ st'.conn.working 1 = some [row] ∧
      Settles accountColumns row [49, 32, 50, 117, 65, 0, 32] := by
  have laid : Contiguous 0 accountColumns := by decide
  constructor
  · obtain ⟨st', wrote, status⟩ := map_eq_ok.mp (by decide +kernel :
      (fun st : State => st.fcd.status) <$> (Updates.handler plainServer).write
        ((accounts []).setRecord [49, 32, 50, 117, 65, 0, 32]) = .ok stOk)
    obtain ⟨rows, row, before, after, settles⟩ :=
      (sync_settles_iff plainServer (accounts []) laid _).1 st' wrote status
    cases before
    exact ⟨st', row, wrote, status, after, settles.mpr (by decide +kernel)⟩
  · obtain ⟨st', rewrote, status⟩ := map_eq_ok.mp (by decide +kernel :
      (fun st : State => st.fcd.status) <$> (Updates.handler plainServer).rewrite
        ((accounts [[.num 1, .num 7, .chr [66]]]).setRecord [49, 32, 50, 117, 65, 0, 32]) =
      .ok stOk)
    obtain ⟨rows, before, outcome⟩ := (sync_settles_iff plainServer
      (accounts [[.num 1, .num 7, .chr [66]]]) laid _).2 st' rewrote status
    cases before
    rcases outcome with ⟨_, row, member, same⟩ | ⟨condition, change, conditioned, after, each⟩
    · obtain rfl := List.mem_singleton.mp member
      exact absurd same (by decide +kernel)
    · have key : rewriteCondition plainServer.pg (accounts []).tab [49, 32, 50, 117, 65, 0, 32] =
          some [(0, .num 1)] := by decide +kernel
      obtain rfl := Option.some.inj (conditioned.symm.trans key)
      have here := each [.num 1, .num 7, .chr [66]] rfl
      rw [if_pos (by decide +kernel)] at here
      refine ⟨st', change [.num 1, .num 7, .chr [66]], rewrote, status, after,
        here.mpr ⟨by decide +kernel, ?_⟩⟩
      intro i value unset present
      match i with
      | 0 =>
          cases present
          exact ⟨[49], by decide +kernel, Or.inl rfl⟩
      | 1 => exact absurd (by decide +kernel) unset
      | 2 => exact absurd (by decide +kernel) unset
      | i + 3 => cases present

/-- A text with a letter after a NUL is written without it, so that CMP still reports the
record. -/
theorem sync_cuts_text :
    ∃ st' row, (Updates.handler plainServer).write
        ((accounts []).setRecord [49, 48, 50, 53, 65, 0, 66]) = .ok st' ∧
      st'.fcd.status = stOk ∧ st'.conn.working 1 = some [row] ∧
      pq2cob accountColumns row [49, 48, 50, 53, 65, 0, 66] = .ok [49, 48, 50, 53, 65, 32, 32] ∧
      reccmp [49, 48, 50, 53, 65, 32, 32] [49, 48, 50, 53, 65, 0, 66] accountColumns ≠ .eq ∧
      ¬ Settles accountColumns row [49, 48, 50, 53, 65, 0, 66] := by
  obtain ⟨st', wrote, result⟩ := map_eq_ok.mp (by decide +kernel :
    (fun st : State => (st.fcd.status, st.conn.working 1)) <$> (Updates.handler plainServer).write
      ((accounts []).setRecord [49, 48, 50, 53, 65, 0, 66]) =
    .ok (stOk, some [[.num 1, .num (5 / 2), .chr [65]]]))
  obtain ⟨status, after⟩ := Prod.mk.inj result
  have read : pq2cob accountColumns [.num 1, .num (5 / 2), .chr [65]] [49, 48, 50, 53, 65, 0, 66] =
      .ok [49, 48, 50, 53, 65, 32, 32] := by decide +kernel
  have differ : reccmp [49, 48, 50, 53, 65, 32, 32] [49, 48, 50, 53, 65, 0, 66] accountColumns ≠
      .eq := by decide +kernel
  refine ⟨st', _, wrote, status, after, read, differ, ?_⟩
  intro settles
  obtain ⟨area, read', same⟩ := settles [49, 48, 50, 53, 65, 0, 66] (by decide +kernel)
  obtain rfl := Except.ok.inj (read.symm.trans read')
  exact differ same

end Pqfh
