import Pqfh.Handler.OpsSpec
import Pqfh.Handler.Texts

/-! # What WRITE and REWRITE store

A field of the record becomes the text of a parameter, the text a value of a column. A text
longer than a row of `tab->bufs` goes on with the text of the next parameter, so what is stored
for a column depends on the fields after it too.

What is asked of the values stored differs from one use to another. `Pqfh.Carries` says what is
asked and what answers for it field by field; `Pqfh.opWrite_stores` and `Pqfh.opRewrite_stores`
then give it for rows.
-/

namespace Pqfh

/-! ## Texts that run on -/

/-- The text that a row gives when the later rows give the texts `later`. -/
def runInto (text : List Byte) : List (List Byte) → List Byte
  | [] => text
  | next :: _ => if text.length < rowSize then text else text.take rowSize ++ next

/-- The first text runs into the rows behind it. -/
theorem runOn_cons (text : List Byte) (rest : List (List Byte)) :
    runOn (text :: rest) = runInto text (runOn rest) :: runOn rest := by
  cases rest with
  | nil => rfl
  | cons next rest =>
      cases rest with
      | nil => rfl
      | cons _ _ => rfl

/-- Texts without NUL run on without NUL. -/
theorem runOn_clean {texts : List (List Byte)} (clean : ∀ text ∈ texts, 0 ∉ text) :
    ∀ text ∈ runOn texts, 0 ∉ text := by
  induction texts with
  | nil => exact nofun
  | cons text rest ih =>
      have later := ih fun other member => clean other (List.mem_cons_of_mem _ member)
      have here : 0 ∉ runInto text (runOn rest) := by
        have own := clean text List.mem_cons_self
        cases follows : runOn rest with
        | nil => exact own
        | cons next more =>
            simp only [runInto]
            split
            · exact own
            · intro member
              rcases List.mem_append.mp member with member | member
              · exact own (List.mem_of_mem_take member)
              · exact later next (follows ▸ List.mem_cons_self) member
      rw [runOn_cons]
      intro other member
      rcases List.mem_cons.mp member with rfl | member
      · exact here
      · exact later other member

/-- A text that fits its row, or is the last one, is left as it is. -/
theorem runInto_eq_self {text : List Byte} {later : List (List Byte)}
    (fits : text.length < rowSize ∨ later = []) : runInto text later = text := by
  cases later with
  | nil => rfl
  | cons next _ =>
      have short := fits.resolve_right (List.cons_ne_nil _ _)
      simp only [runInto, short, ↓reduceIte]

/-! ## Columns of a table -/

/-- The column at a place of the table. -/
theorem Table.getElem?_columns {tab : Table} {i : ℕ} (inside : i < tab.columns.length) :
    tab.columns[i]? = some (tab.column i) := by
  unfold Table.column
  rw [List.getD_eq_getElem?_getD, List.getElem?_eq_getElem inside, Option.getD_some]

/-- The columns of a table, one place after the other. -/
theorem Table.map_column (tab : Table) :
    (List.range tab.columns.length).map tab.column = tab.columns := by
  apply List.ext_getElem?
  intro i
  rw [List.getElem?_map]
  by_cases inside : i < tab.columns.length
  · rw [List.getElem?_range inside, Option.map_some, Table.getElem?_columns inside]
  · rw [List.getElem?_eq_none (Nat.le_of_not_lt inside), List.getElem?_eq_none (by
      rw [List.length_range]
      exact Nat.le_of_not_lt inside)]
    rfl

/-- A column at a place of the table is one of its columns. -/
theorem Table.column_mem {tab : Table} {i : ℕ} (inside : i < tab.columns.length) :
    tab.column i ∈ tab.columns :=
  List.mem_of_getElem? (Table.getElem?_columns inside)

/-- Columns that all lie in the record lie in it together. -/
theorem Contiguous.totalLen_le {record : List Byte} :
    ∀ {cols : List Column} {offset : ℕ}, Contiguous offset cols → offset ≤ record.length →
      (∀ col ∈ cols, col.offset + col.len ≤ record.length) →
      offset + totalLen cols ≤ record.length := by
  intro cols
  induction cols with
  | nil => intro offset _ start _; exact start
  | cons col cols ih =>
      intro offset laid start inside
      have first := inside col List.mem_cons_self
      have place := laid.1
      have rest := ih laid.2 (by omega) fun other member =>
        inside other (List.mem_cons_of_mem _ member)
      rw [totalLen_cons]
      omega

/-! ## The parameters of REWRITE -/

/-- The texts of the key columns that follow those of the columns set. -/
def rewriteKeyTexts (tab : Table) (record : List Byte) : List (List Byte) :=
  (whereColumns tab.keys 0).map fun i => ((Param.rewrite (tab.column i) (tab.chave i)).checked
    (slice record (tab.column i).offset (tab.column i).len)).1

/-- The condition of the UPDATE that REWRITE executes for a record. -/
def rewriteCondition (pg : Postgres) (tab : Table) (record : List Byte) : Option Condition :=
  tab.condition pg (whereColumns tab.keys 0) (runOn (rewriteKeyTexts tab record))

/-- What runs on behind some texts does not depend on them. -/
theorem runOn_append_drop (front back : List (List Byte)) :
    (runOn (front ++ back)).drop front.length = runOn back := by
  induction front with
  | nil => rfl
  | cons text rest ih =>
      rw [List.cons_append, runOn_cons, List.length_cons, List.drop_succ_cons, ih]

/-- The texts of the UPDATE after those of the columns set. -/
theorem drop_rewriteTexts (tab : Table) (record : List Byte) :
    (runOn ((rewriteParams tab).map fun param =>
        (param.checked (slice record param.col.offset param.col.len)).1)).drop
      (setColumns tab.columns).length = runOn (rewriteKeyTexts tab record) := by
  have keys : (((whereColumns tab.keys 0).map fun i =>
      Param.rewrite (tab.column i) (tab.chave i)).map fun param =>
        (param.checked (slice record param.col.offset param.col.len)).1) =
      rewriteKeyTexts tab record := by
    rw [List.map_map]
    rfl
  have front := runOn_append_drop (((setColumns tab.columns).map fun i =>
    Param.write (tab.column i) (tab.chave i)).map fun param =>
      (param.checked (slice record param.col.offset param.col.len)).1) (rewriteKeyTexts tab record)
  rw [List.length_map, List.length_map] at front
  rw [rewriteParams, List.map_append, keys]
  exact front

/-- The columns that are set are columns of the table. -/
theorem setColumns_lt {cols : List Column} {i : ℕ} (member : i ∈ setColumns cols) :
    i < cols.length :=
  List.mem_range.mp (List.mem_of_mem_filter member)

/-- No column is set twice. -/
theorem nodup_setColumns (cols : List Column) : (setColumns cols).Nodup :=
  List.nodup_range.filter _

/-- A row column by column. -/
theorem forall₂_columns_iff {tab : Table} {row : Row} {R : Column → Value → Prop}
    (typed : row.length = tab.columns.length) :
    List.Forall₂ R tab.columns row ↔ ∀ i value, row[i]? = some value → R (tab.column i) value := by
  rw [List.forall₂_iff_get]
  have col : ∀ i (inside : i < tab.columns.length),
      tab.columns.get ⟨i, inside⟩ = tab.column i := by
    intro i inside
    have found := Table.getElem?_columns inside
    rw [List.getElem?_eq_getElem inside] at found
    exact Option.some.inj found
  constructor
  · intro columns i value present
    obtain ⟨inside, rfl⟩ := List.getElem?_eq_some_iff.mp present
    have here := columns.2 i (typed ▸ inside) inside
    rw [col] at here
    exact here
  · intro columns
    refine ⟨typed.symm, fun i inside inside' => ?_⟩
    rw [col]
    exact columns i _ (List.getElem?_eq_getElem inside')

/-- The texts of the key are the same in a table that was kept. -/
theorem Kept.rewriteKeyTexts {st st' : State} (kept : Kept st st') (record : List Byte) :
    rewriteKeyTexts st'.tab record = rewriteKeyTexts st.tab record := by
  unfold Pqfh.rewriteKeyTexts Table.chave
  rw [kept.keys]
  simp only [kept.column]

/-- The condition of REWRITE is the same in a table that was kept. -/
theorem Kept.rewriteCondition {st st' : State} (kept : Kept st st') (pg : Postgres)
    (record : List Byte) :
    rewriteCondition pg st'.tab record = rewriteCondition pg st.tab record := by
  unfold Pqfh.rewriteCondition
  rw [kept.condition, kept.keys, kept.rewriteKeyTexts]

/-! ## Fields stored one after the other -/

/-- Something holds of each column and the texts that its own text may run into; `after` are the
texts of the parameters that follow the columns. -/
def Rowwise (text : Column → List Byte) (S : Column → List (List Byte) → Prop) :
    List Column → List (List Byte) → Prop
  | [], _ => True
  | col :: cols, after => S col (runOn (cols.map text ++ after)) ∧ Rowwise text S cols after

instance decidableRowwise (text : Column → List Byte) (S : Column → List (List Byte) → Prop)
    [∀ col later, Decidable (S col later)] :
    (cols : List Column) → (after : List (List Byte)) → Decidable (Rowwise text S cols after)
  | [], _ => isTrue trivial
  | _ :: cols, after =>
      have := decidableRowwise text S cols after
      inferInstanceAs (Decidable (_ ∧ _))

/-- Each field of a record is sent as the text of its column, and the value stored for it is as
`R` asks just when `S` holds of the column and what its text runs into. -/
structure Carries (pg : Postgres) (tab : Table) (record : List Byte) (text : Column → List Byte)
    (R : Column → Value → Prop) (S : Column → List (List Byte) → Prop) : Prop where
  sent : ∀ i < tab.columns.length,
    (tab.column i).offset + (tab.column i).len ≤ record.length →
    ((Param.write (tab.column i) (tab.chave i)).checked
      (slice record (tab.column i).offset (tab.column i).len)).2 = false →
    ((Param.write (tab.column i) (tab.chave i)).checked
      (slice record (tab.column i).offset (tab.column i).len)).1 = text (tab.column i)
  stored : ∀ i < tab.columns.length,
    (tab.column i).offset + (tab.column i).len ≤ record.length → ∀ {later value},
    0 ∉ runInto (text (tab.column i)) later →
    pg.store (tab.column i) (runInto (text (tab.column i)) later) = some value →
    (R (tab.column i) value ↔ S (tab.column i) later)

/-- A table that was kept carries its columns as before. -/
theorem Kept.carries {st st' : State} (kept : Kept st st') {pg : Postgres} {record : List Byte}
    {text : Column → List Byte} {R : Column → Value → Prop} {S : Column → List (List Byte) → Prop}
    (carries : Carries pg st.tab record text R S) : Carries pg st'.tab record text R S := by
  have chave : ∀ i, st'.tab.chave i = st.tab.chave i := by
    intro i
    unfold Table.chave
    rw [kept.keys]
  constructor
  · intro i inside
    rw [kept.column, chave]
    exact carries.sent i (kept.columns ▸ inside)
  · intro i inside
    rw [kept.column]
    exact carries.stored i (kept.columns ▸ inside)

section Carries

variable {pg : Postgres} {tab : Table} {record : List Byte} {text : Column → List Byte}
  {R : Column → Value → Prop} {S : Column → List (List Byte) → Prop}

/-- The texts of columns that WRITE inserts or REWRITE sets. -/
theorem Carries.map_checked (carries : Carries pg tab record text R S) {cols : List ℕ}
    (params : ∀ i ∈ cols, i < tab.columns.length ∧
      (tab.column i).offset + (tab.column i).len ≤ record.length ∧
      ((Param.write (tab.column i) (tab.chave i)).checked
        (slice record (tab.column i).offset (tab.column i).len)).2 = false) :
    (cols.map fun i => Param.write (tab.column i) (tab.chave i)).map (fun param =>
        (param.checked (slice record param.col.offset param.col.len)).1) =
      (cols.map tab.column).map text := by
  rw [List.map_map, List.map_map]
  apply List.map_congr_left
  intro i member
  obtain ⟨among, inside, passes⟩ := params i member
  exact carries.sent i among inside passes

/-- The values assigned are as `R` asks just when `S` holds row by row. -/
theorem Carries.assignment (carries : Carries pg tab record text R S) {after : List (List Byte)} :
    ∀ {cols : List ℕ} {values : List (ℕ × Value)},
      (∀ i ∈ cols, i < tab.columns.length ∧
        (tab.column i).offset + (tab.column i).len ≤ record.length) →
      (∀ t ∈ (cols.map tab.column).map text ++ after, 0 ∉ t) →
      tab.assignment pg cols (runOn ((cols.map tab.column).map text ++ after)) = some values →
      values.map Prod.fst = cols ∧
        ((∀ pair ∈ values, R (tab.column pair.1) pair.2) ↔
          Rowwise text S (cols.map tab.column) after) := by
  intro cols
  induction cols with
  | nil =>
      intro values _ _ assigned
      cases assigned
      exact ⟨rfl, iff_of_true nofun trivial⟩
  | cons i cols ih =>
      intro values inside clean assigned
      obtain ⟨among, fits⟩ := inside i List.mem_cons_self
      have sent := runOn_clean clean
      rw [List.map_cons, List.map_cons, List.cons_append, runOn_cons] at assigned sent
      unfold Table.assignment at assigned
      rw [List.zip_cons_cons, List.mapM_cons] at assigned
      obtain ⟨first, stored, assigned⟩ := Option.bind_eq_some_iff.mp assigned
      obtain ⟨rest, remaining, result⟩ := Option.bind_eq_some_iff.mp assigned
      cases result
      obtain ⟨value, storedValue, rfl⟩ := Option.map_eq_some_iff.mp stored
      obtain ⟨positions, others⟩ :=
        ih (fun j member => inside j (List.mem_cons_of_mem _ member))
          (fun t member => clean t (List.mem_cons_of_mem _ member)) remaining
      have here := carries.stored i among fits (sent _ List.mem_cons_self) storedValue
      refine ⟨by rw [List.map_cons, positions], ?_⟩
      rw [List.forall_mem_cons, here, others]
      rfl

end Carries

/-! ## WRITE -/

/-- WRITE stores in each column the value its text denotes. -/
theorem opWrite_stores {env : Env} {st st' : State} {text : Column → List Byte}
    {R : Column → Value → Prop} {S : Column → List (List Byte) → Prop}
    (carries : Carries env.pg st.tab st.fcd.record text R S) (wrote : opWrite env st = .ok st')
    (status : st'.fcd.status = stOk) :
    (∀ col ∈ st.tab.columns, col.offset + col.len ≤ st.fcd.record.length) ∧
    ∃ rows row, st.conn.working st.tab.relation = some rows ∧
      st'.conn.working st.tab.relation = some (rows ++ [row]) ∧
      row.length = st.tab.columns.length ∧
      (List.Forall₂ R st.tab.columns row ↔ Rowwise text S st.tab.columns []) := by
  obtain ⟨st₁, bufs, texts, values, rows, _, _, _, _, bound, assigned, _, present, rfl⟩ :=
    opWrite_ok wrote status
  obtain ⟨params, _, sent⟩ := bindParams_ok bound
  have fields : ∀ i ∈ List.range st.tab.columns.length, i < st.tab.columns.length ∧
      (st.tab.column i).offset + (st.tab.column i).len ≤ st.fcd.record.length ∧
      ((Param.write (st.tab.column i) (st.tab.chave i)).checked
        (slice st.fcd.record (st.tab.column i).offset (st.tab.column i).len)).2 = false :=
    fun i member => ⟨List.mem_range.mp member, params _ (List.mem_map_of_mem member)⟩
  have texts' := carries.map_checked fields
  have clean : ∀ t ∈ ((List.range st.tab.columns.length).map st.tab.column).map text ++ [],
      0 ∉ t := by
    intro t member
    rw [List.append_nil, ← texts'] at member
    obtain ⟨param, among, rfl⟩ := List.mem_map.mp member
    exact (param.cstr_row (length_slice (params param among).1)).choose_spec.2
  rw [writeParams, texts', ← List.append_nil (List.map text _)] at sent
  rw [sent] at assigned
  obtain ⟨positions, holds⟩ := carries.assignment
    (fun i member => ⟨(fields i member).1, (fields i member).2.1⟩) clean assigned
  rw [st.tab.map_column] at holds
  have columns : values.map (fun pair => st.tab.column pair.1) = st.tab.columns := by
    rw [← st.tab.map_column, ← positions, List.map_map]
    rfl
  refine ⟨?_, rows, values.map Prod.snd, present, Function.update_self _ _ _, ?_, ?_⟩
  · intro col member
    rw [← st.tab.map_column] at member
    obtain ⟨i, among, rfl⟩ := List.mem_map.mp member
    exact (fields i among).2.1
  · rw [List.length_map, ← columns, List.length_map]
  · rw [← holds]
    conv_lhs => rw [← columns]
    rw [List.forall₂_map_left_iff, List.forall₂_map_right_iff, List.forall₂_same]

/-! ## REWRITE -/

/-- A row updated is as `R` asks just when the values set are and the columns not set were
already. -/
theorem forall₂_setRow_iff {tab : Table} {R : Column → Value → Prop} {row : Row}
    {values : List (ℕ × Value)} (typed : row.length = tab.columns.length)
    (positions : values.map Prod.fst = setColumns tab.columns) :
    List.Forall₂ R tab.columns (setRow values row) ↔
      (∀ pair ∈ values, R (tab.column pair.1) pair.2) ∧
      ∀ i value, i ∉ setColumns tab.columns → row[i]? = some value → R (tab.column i) value := by
  have once : (values.map Prod.fst).Nodup := positions ▸ nodup_setColumns tab.columns
  have set : ∀ pair ∈ values, (setRow values row)[pair.1]? = some pair.2 := by
    intro pair member
    apply getElem?_setRow_of_mem once _ member
    rw [typed]
    apply setColumns_lt
    rw [← positions]
    exact List.mem_map_of_mem member
  have unset : ∀ i, i ∉ setColumns tab.columns → (setRow values row)[i]? = row[i]? := by
    intro i absent
    apply getElem?_setRow_of_notMem
    rw [positions]
    exact absent
  rw [forall₂_columns_iff ((length_setRow values row).trans typed)]
  constructor
  · intro columns
    exact ⟨fun pair member => columns pair.1 pair.2 (set pair member),
      fun i value absent present => columns i value (by rw [unset i absent, present])⟩
  · intro both i value present
    by_cases member : i ∈ setColumns tab.columns
    · rw [← positions] at member
      obtain ⟨pair, assigned, rfl⟩ := List.mem_map.mp member
      rw [set pair assigned] at present
      cases present
      exact both.1 pair assigned
    · rw [unset i member] at present
      exact both.2 i value member present

/-- What REWRITE makes of a row that its UPDATE selects is as `R` asks: `S` holds for the columns
set, and the columns not set were as `R` asks already. -/
def RowAfter (tab : Table) (record : List Byte) (text : Column → List Byte)
    (R : Column → Value → Prop) (S : Column → List (List Byte) → Prop) (row : Row) : Prop :=
  Rowwise text S ((setColumns tab.columns).map tab.column) (rewriteKeyTexts tab record) ∧
    ∀ i value, i ∉ setColumns tab.columns → row[i]? = some value → R (tab.column i) value

/-- UPDATE stores in each column that it sets the value its text denotes. -/
theorem updateRecord_stores {env : Env} (st : State) {st' : State} {text : Column → List Byte}
    {R : Column → Value → Prop} {S : Column → List (List Byte) → Prop}
    (carries : Carries env.pg st.tab st.fcd.record text R S)
    (updated : updateRecord env st = .ok st') (status : st'.fcd.status = stOk) :
    ∃ rows condition change, st.conn.working st.tab.relation = some rows ∧
      rewriteCondition env.pg st.tab st.fcd.record = some condition ∧
      st'.conn.working st.tab.relation = some (rows.map change) ∧
      ∀ row, row.length = st.tab.columns.length → if meets condition row then
          (change row).length = row.length ∧ (List.Forall₂ R st.tab.columns (change row) ↔
            RowAfter st.tab st.fcd.record text R S row)
        else change row = row := by
  obtain ⟨bufs, texts, values, condition, rows, bound, assigned, conditioned, _, present, rfl⟩ :=
    updateRecord_ok updated status
  obtain ⟨params, _, sent⟩ := bindParams_ok bound
  have fields : ∀ i ∈ setColumns st.tab.columns, i < st.tab.columns.length ∧
      (st.tab.column i).offset + (st.tab.column i).len ≤ st.fcd.record.length ∧
      ((Param.write (st.tab.column i) (st.tab.chave i)).checked
        (slice st.fcd.record (st.tab.column i).offset (st.tab.column i).len)).2 = false :=
    fun i member => ⟨setColumns_lt member,
      params _ (List.mem_append_left _ (List.mem_map_of_mem member))⟩
  have keys : (((whereColumns st.tab.keys 0).map fun i =>
      Param.rewrite (st.tab.column i) (st.tab.chave i)).map fun param =>
        (param.checked (slice st.fcd.record param.col.offset param.col.len)).1) =
      rewriteKeyTexts st.tab st.fcd.record := by
    rw [List.map_map]
    rfl
  have clean : ∀ t ∈ (rewriteParams st.tab).map (fun param =>
      (param.checked (slice st.fcd.record param.col.offset param.col.len)).1), 0 ∉ t := by
    intro t member
    obtain ⟨param, among, rfl⟩ := List.mem_map.mp member
    exact (param.cstr_row (length_slice (params param among).1)).choose_spec.2
  rw [sent, drop_rewriteTexts] at conditioned
  rw [rewriteParams, List.map_append, carries.map_checked fields, keys] at sent clean
  rw [sent] at assigned
  obtain ⟨positions, holds⟩ := carries.assignment
    (fun i member => ⟨(fields i member).1, (fields i member).2.1⟩) clean assigned
  refine ⟨rows, condition, fun row => if meets condition row then setRow values row else row,
    present, conditioned, Function.update_self _ _ _, fun row typed => ?_⟩
  split
  · rename_i selected
    simp only [selected, ↓reduceIte]
    rw [forall₂_setRow_iff typed positions, holds]
    exact ⟨length_setRow values row, Iff.rfl⟩
  · rename_i other
    simp only [other, Bool.false_eq_true, ↓reduceIte]

/-- The row after an operation is the same in a table that was kept. -/
theorem Kept.rowAfter {st st' : State} (kept : Kept st st') (record : List Byte)
    (text : Column → List Byte) (R : Column → Value → Prop) (S : Column → List (List Byte) → Prop)
    (row : Row) :
    RowAfter st'.tab record text R S row ↔ RowAfter st.tab record text R S row := by
  have column : st'.tab.column = st.tab.column := funext kept.column
  unfold RowAfter
  rw [kept.columns, kept.rewriteKeyTexts, column]

/-- REWRITE stores in each column that it sets the value its text denotes. -/
theorem opRewrite_stores {env : Env} {st st' : State} {done : Bool} {text : Column → List Byte}
    {R : Column → Value → Prop} {S : Column → List (List Byte) → Prop}
    (carries : Carries env.pg st.tab st.fcd.record text R S)
    (rewrote : opRewrite env st = .ok (done, st')) (status : st'.fcd.status = stOk) :
    totalLen st.tab.columns ≤ st.fcd.record.length ∧
    ∃ rows, st.conn.working st.tab.relation = some rows ∧
      ((st'.conn.working = st.conn.working ∧ ∃ row ∈ rows,
          pq2cob st.tab.columns row st.fcd.record = .ok st.fcd.record) ∨
        ∃ condition change, rewriteCondition env.pg st.tab st.fcd.record = some condition ∧
          st'.conn.working st.tab.relation = some (rows.map change) ∧
          ∀ row, row.length = st.tab.columns.length → if meets condition row then
              (change row).length = row.length ∧ (List.Forall₂ R st.tab.columns (change row) ↔
                RowAfter st.tab st.fcd.record text R S row)
            else change row = row) := by
  obtain ⟨st₁, read, found, kept, outcome⟩ := opRewrite_ok rewrote status
  have columns : st₁.tab.columns = st.tab.columns := kept.columns
  have relation : st₁.tab.relation = st.tab.relation := kept.relation
  have working : st₁.conn.working = st.conn.working := kept.working
  obtain ⟨_, ⟨missing, _⟩ | ⟨_, _, cols, row, _, reads, decoded⟩⟩ := opReadRandom_ok read
  · exact (missing found).elim
  obtain ⟨_, texts, condition, rows, rest, _, _, present, first⟩ := reads.found
  change st.conn.working st.tab.relation = some rows at present
  change pq2cob st.tab.columns row st.fcd.record = .ok st₁.fcd.record at decoded
  have whole := (pq2cobFrom_room (Nat.zero_le _) decoded).2
  rw [Nat.zero_add] at whole
  refine ⟨whole, rows, present, ?_⟩
  rcases outcome with ⟨same, rfl⟩ | ⟨_, st₂, updated, ok, rfl⟩
  · rw [same] at decoded
    refine Or.inl ⟨working, row, ?_, decoded⟩
    apply List.mem_of_mem_filter
    rw [first]
    exact List.mem_cons_self
  · have started : Carries env.pg (st.resetScan.setKeyId 0).tab st.fcd.record text R S :=
      ⟨carries.sent, carries.stored⟩
    have result := updateRecord_stores (st₁.setRecord st.fcd.record) (kept.carries started)
      updated ok
    obtain ⟨rows', condition, change, present', conditioned, after, each⟩ := result
    change st₁.conn.working st₁.tab.relation = some rows' at present'
    change rewriteCondition env.pg st₁.tab st.fcd.record = some condition at conditioned
    rw [working, relation, present] at present'
    cases present'
    rw [kept.rewriteCondition] at conditioned
    refine Or.inr ⟨condition, change, conditioned, ?_, fun row typed => ?_⟩
    · rw [← relation]
      exact after
    · have here := each row (columns ▸ typed)
      change if meets condition row then (change row).length = row.length ∧
        (List.Forall₂ R st₁.tab.columns (change row) ↔
          RowAfter st₁.tab st.fcd.record text R S row) else change row = row at here
      rw [columns, kept.rowAfter] at here
      exact here

end Pqfh
