import Mathlib.Algebra.Order.BigOperators.Group.List
import Pqfh.Handler.KeyTexts

/-! # Rows by their key

The conditions that READ, REWRITE and DELETE put on key columns, and the rows that meet
them.
-/

namespace Pqfh

/-! ## Conditions -/

section Conditions

variable {pg : Postgres} {tab : Table} {text : ℕ → List Byte}

/-- The condition of a key begins with that of its first column. -/
theorem condition_cons (i : ℕ) (cols : List ℕ) :
    tab.condition pg (i :: cols) ((i :: cols).map text) =
      (pg.denote (tab.column i) (text i)).bind fun value =>
        (tab.condition pg cols (cols.map text)).map ((i, value) :: ·) := by
  unfold Table.condition
  rw [List.map_cons, List.zip_cons_cons, List.mapM_cons]
  cases pg.denote (tab.column i) (text i) with
  | none => rfl
  | some value =>
      cases List.mapM (fun pair : ℕ × List Byte =>
        (pg.denote (tab.column pair.1) pair.2).map (pair.1, ·)) (cols.zip (cols.map text)) <;> rfl

/-- A row meets a condition when it meets its first part and the others. -/
theorem meets_cons (i : ℕ) (value : Value) (condition : Condition) (row : Row) :
    meets ((i, value) :: condition) row = true ↔
      row[i]? = some value ∧ meets condition row = true := by
  unfold meets
  rw [List.all_cons, Bool.and_eq_true, decide_eq_true_iff]

/-- A row meets the condition on columns when each of them has the value its text stands for. -/
theorem meets_condition_iff {cols : List ℕ} {condition : Condition}
    (denoted : tab.condition pg cols (cols.map text) = some condition) (row : Row) :
    meets condition row = true ↔
      ∀ i ∈ cols, ∃ value, pg.denote (tab.column i) (text i) = some value ∧
        row[i]? = some value := by
  induction cols generalizing condition with
  | nil =>
      cases denoted
      exact iff_of_true rfl nofun
  | cons i cols ih =>
      rw [condition_cons] at denoted
      obtain ⟨value, here, denoted⟩ := Option.bind_eq_some_iff.mp denoted
      obtain ⟨rest, denoted', rfl⟩ := Option.map_eq_some_iff.mp denoted
      rw [meets_cons, ih denoted', List.forall_mem_cons]
      apply and_congr_left
      intro _
      constructor
      · intro present
        exact ⟨value, here, present⟩
      · rintro ⟨value', here', present⟩
        rw [here] at here'
        cases here'
        exact present

/-- Texts that all denote a value make a condition. -/
theorem exists_condition {cols : List ℕ}
    (denoted : ∀ i ∈ cols, ∃ value, pg.denote (tab.column i) (text i) = some value) :
    ∃ condition, tab.condition pg cols (cols.map text) = some condition := by
  induction cols with
  | nil => exact ⟨[], rfl⟩
  | cons i cols ih =>
      obtain ⟨value, here⟩ := denoted i List.mem_cons_self
      obtain ⟨rest, others⟩ := ih fun j member => denoted j (List.mem_cons_of_mem _ member)
      exact ⟨(i, value) :: rest, by rw [condition_cons, here, others]; rfl⟩

end Conditions

/-! ## The texts of a key -/

/-- The text by which READ and DELETE look for a column. -/
def keyTextOf (tab : Table) (record : List Byte) (i : ℕ) : List Byte :=
  ((Param.key (tab.column i) (tab.chave i)).checked
    (slice record (tab.column i).offset (tab.column i).len)).1

/-- The text by which REWRITE looks for a column. -/
def rewriteTextOf (tab : Table) (record : List Byte) (i : ℕ) : List Byte :=
  ((Param.rewrite (tab.column i) (tab.chave i)).checked
    (slice record (tab.column i).offset (tab.column i).len)).1

/-- What is sent of a key is the texts of its columns. -/
theorem map_checked_key (tab : Table) (record : List Byte) (cols : List ℕ) :
    (keyParams tab cols).map (fun param =>
      (param.checked (slice record param.col.offset param.col.len)).1) =
    cols.map (keyTextOf tab record) := by
  unfold keyParams
  rw [List.map_map]
  rfl

/-- A column of the primary key is marked as one. -/
theorem chave_of_mem {tab : Table} {i : ℕ} (member : i ∈ whereColumns tab.keys 0) :
    tab.chave i = true := by
  unfold whereColumns at member
  unfold Table.chave
  cases keys : tab.keys with
  | nil =>
      rw [keys] at member
      cases member
  | cons key rest =>
      rw [keys] at member
      rw [List.any_cons, Bool.or_eq_true]
      exact Or.inl (List.contains_iff_mem.mpr member)

/-- The check of a number makes no text longer than its room. -/
theorem length_validaNumero_le (chave real : Bool) {conteudo : List Byte} {n : ℕ}
    (short : conteudo.length ≤ n) (positive : 0 < n) :
    (validaNumero chave real conteudo).1.length ≤ n := by
  by_cases empty : conteudo = []
  · subst empty
    have one : (validaNumero chave real [48]).1.length = 1 :=
      length_validaNumero chave real (List.cons_ne_nil _ _)
    change (validaNumero chave real [48]).1.length ≤ n
    omega
  · rw [length_validaNumero chave real empty]
    exact short

/-- The text of a key is one byte longer than its column at most. -/
theorem length_cstr_keyBlock_le {col : Column} {field : List Byte}
    (full : field.length = col.len) : (cstr (keyBlock col field)).length ≤ col.len + 1 := by
  have positive := col.len_pos
  unfold keyBlock
  split
  · split
    · change 1 ≤ col.len + 1
      omega
    · rw [cstr_append_nul]
      apply (length_cstr_le _).trans
      rw [length_pointed full]
      split <;> omega
  · rw [cstr_append_nul]
    exact (length_cstr_le _).trans (by omega)

/-- What is sent is no longer than its room. -/
theorem Param.length_checked_le (param : Param) {field : List Byte} {n : ℕ} (positive : 0 < n)
    (short : (cstr (param.block param.col field)).length ≤ n) :
    (param.checked field).1.length ≤ n := by
  unfold Param.checked
  split
  · exact length_validaNumero_le _ _ short positive
  · exact short

/-- A text takes no more than its field and a point. -/
theorem length_keyTextOf_le {tab : Table} {record : List Byte} {i : ℕ}
    (inside : (tab.column i).offset + (tab.column i).len ≤ record.length) :
    (keyTextOf tab record i).length ≤ (tab.column i).len + 1 :=
  Param.length_checked_le _ (Nat.succ_pos _) (length_cstr_keyBlock_le (length_slice inside))

/-- The text of REWRITE is no longer than its column. -/
theorem length_rewriteTextOf_le {tab : Table} {record : List Byte} {i : ℕ}
    (inside : (tab.column i).offset + (tab.column i).len ≤ record.length) :
    (rewriteTextOf tab record i).length ≤ (tab.column i).len := by
  apply Param.length_checked_le _ (tab.column i).len_pos
  unfold Param.rewrite rewriteBlock
  rw [cstr_append_nul]
  exact (length_cstr_le _).trans (length_slice inside).le

/-- The last text has no row to run into. -/
theorem runOn_eq_self_of_dropLast : ∀ {texts : List (List Byte)},
    (∀ text ∈ texts.dropLast, text.length < rowSize) → runOn texts = texts
  | [], _ => rfl
  | [_], _ => rfl
  | text :: next :: rest, short => by
      rw [List.dropLast_cons_cons] at short
      rw [runOn_cons, runOn_eq_self_of_dropLast fun other member =>
        short other (List.mem_cons_of_mem _ member)]
      rw [runInto_eq_self (Or.inl (short text List.mem_cons_self))]

/-- The columns of a key lie in the record and take no more than a key may. -/
structure KeyFits (tab : Table) (record : List Byte) (cols : List ℕ) : Prop where
  inside : ∀ i ∈ cols, (tab.column i).offset + (tab.column i).len ≤ record.length
  short : (cols.map fun i => (tab.column i).len).sum ≤ maxKeyLen

/-- The columns of a key that fits are short enough. -/
theorem KeyFits.len_le {tab : Table} {record : List Byte} {cols : List ℕ}
    (fits : KeyFits tab record cols) {i : ℕ} (member : i ∈ cols) :
    (tab.column i).len ≤ maxKeyLen :=
  (List.single_le_sum (fun _ _ => Nat.zero_le _) _ (List.mem_map_of_mem member)).trans fits.short

/-- The texts of a key that fits do not run into one another. -/
theorem KeyFits.runOn_key {tab : Table} {record : List Byte} {cols : List ℕ}
    (fits : KeyFits tab record cols) :
    runOn (cols.map (keyTextOf tab record)) = cols.map (keyTextOf tab record) := by
  apply runOn_eq_self_of_dropLast
  intro text member
  rw [← List.map_dropLast] at member
  obtain ⟨i, among, rfl⟩ := List.mem_map.mp member
  have length := length_keyTextOf_le (fits.inside i (List.mem_of_mem_dropLast among))
  have short := fits.short
  have nonempty : cols ≠ [] := by
    rintro rfl
    cases among
  rw [← List.dropLast_append_getLast nonempty, List.map_append, List.sum_append,
    List.map_singleton, List.sum_singleton] at short
  have part : (tab.column i).len ≤ (cols.dropLast.map fun i => (tab.column i).len).sum :=
    List.single_le_sum (fun _ _ => Nat.zero_le _) _ (List.mem_map_of_mem among)
  have positive := (tab.column (cols.getLast nonempty)).len_pos
  unfold maxKeyLen at short
  unfold rowSize
  omega

/-- The texts of REWRITE's key do not run into one another either. -/
theorem KeyFits.runOn_rewrite {tab : Table} {record : List Byte} {cols : List ℕ}
    (fits : KeyFits tab record cols) :
    runOn (cols.map (rewriteTextOf tab record)) = cols.map (rewriteTextOf tab record) := by
  apply runOn_eq_self
  intro text member
  obtain ⟨i, among, rfl⟩ := List.mem_map.mp member
  have length := length_rewriteTextOf_le (fits.inside i among)
  have short := fits.len_le among
  unfold maxKeyLen at short
  unfold rowSize
  omega

/-- `getkbuf` succeeds on a key that fits. -/
theorem getkbuf_ok {tab : Table} {keyid : ℕ} {record kbuf : List Byte}
    (built : getkbuf tab keyid record = .ok kbuf) :
    ∃ cols, tab.keys[keyid]? = some cols ∧ KeyFits tab record cols := by
  unfold getkbuf at built
  split at built
  · cases built
  · rename_i cols key
    split at built
    · rename_i fits
      exact ⟨cols, key, fits.2.2, fits.2.1⟩
    · cases built

/-- A read that got past the check of the open mode had a key that fits. -/
theorem opReadRandom_keyFits {env : Env} {weak withLock : Bool} {st st' : State}
    (opened : st.fcd.openMode ≠ 128) (read : opReadRandom env weak withLock st = .ok st') :
    ∃ cols, st.tab.keys[st.fcd.keyId]? = some cols ∧ KeyFits st.tab st.fcd.record cols := by
  cases opReadRandom_iff.mp read with
  | closed closed => exact absurd closed opened
  | locked _ built => exact getkbuf_ok built
  | fetched _ built => exact getkbuf_ok built

/-! ## Deleting by key -/

/-- The first of the keys is the primary one. -/
theorem first_key {keys : List (List ℕ)} {cols : List ℕ} (key : keys[0]? = some cols) :
    whereColumns keys 0 = cols := by
  unfold whereColumns
  rw [List.getD_eq_getElem?_getD, key, Option.getD_some]

/-- No text denotes NULL. -/
theorem denote_ne_null {pg : Postgres} {col : Column} {text : List Byte} {value : Value}
    (denoted : pg.denote col text = some value) : value ≠ .null := by
  unfold Postgres.denote at denoted
  split at denoted
  · obtain ⟨number, _, rfl⟩ := Option.map_eq_some_iff.mp denoted
    exact Value.noConfusion
  · cases denoted
    exact Value.noConfusion

/-- The rows that DELETE removes are those with the key values of the record area. -/
theorem deleteRecord_rows {env : Env} {st st' : State}
    (fits : KeyFits st.tab st.fcd.record (whereColumns st.tab.keys 0))
    (deleted : deleteRecord env st = .ok st') (status : st'.fcd.status = stOk) :
    ∃ rows condition, st.conn.working st.tab.relation = some rows ∧
      st'.conn.working = Function.update st.conn.working st.tab.relation
        (some (rows.filter fun row => !meets condition row)) ∧
      (∀ row, meets condition row = true ↔ ∀ i ∈ whereColumns st.tab.keys 0, ∃ value,
        env.pg.denote (st.tab.column i) (keyTextOf st.tab st.fcd.record i) = some value ∧
          row[i]? = some value) ∧
      ∀ i ∈ whereColumns st.tab.keys 0, ((Param.key (st.tab.column i) true).checked
        (slice st.fcd.record (st.tab.column i).offset (st.tab.column i).len)).2 = false := by
  obtain ⟨bufs, texts, condition, rows, bound, conditioned, _, present, rfl⟩ :=
    deleteRecord_ok deleted status
  obtain ⟨params, _, sent⟩ := bindParams_ok bound
  rw [sent, map_checked_key, fits.runOn_key] at conditioned
  refine ⟨rows, condition, present, rfl, meets_condition_iff conditioned, ?_⟩
  intro i member
  have checked := (params (Param.key (st.tab.column i) (st.tab.chave i))
    (List.mem_map_of_mem member)).2
  rw [chave_of_mem member] at checked
  exact checked

/-- After a read the record area is looked for with the values that were read. -/
theorem denote_keyTextOf_read {pg : Postgres} {tab : Table} {record record' : List Byte}
    {row : Row} (laid : Contiguous 0 tab.columns) (rowFits : RowFits tab.columns row)
    (read : pq2cob tab.columns row record = .ok record') {i : ℕ}
    (member : i ∈ whereColumns tab.keys 0) {value : Value} (present : row[i]? = some value)
    (filled : value ≠ .null)
    (passes : ((Param.key (tab.column i) true).checked
      (slice record' (tab.column i).offset (tab.column i).len)).2 = false) :
    pg.denote (tab.column i) (keyTextOf tab record' i) = some value := by
  have length := rowFits.length_eq.symm
  have fits := (forall₂_columns_iff length).mp rowFits i value present
  unfold keyTextOf
  rw [chave_of_mem member]
  exact key_of_fieldBytes pg fits filled (pq2cob_holds laid length read i value present) passes

end Pqfh
