import Pqfh.Foundation.Interleave
import Pqfh.Handler.KeyAgree
import Pqfh.Replica.Statements

/-! # What the statements of a replica carry

After a statement the row of each of its columns holds the text of the field, as long as it fits.
A statement to the other database that takes the text of each clone from the row of its own column
carries the record, but for quotes in a text and for the point that REWRITE does not put into a key.

`Pqfh.replica_carries` says so of sequences of operations, between which the numbers of the columns
are carried along (`Pqfh.ReplicaOp.places`, `Pqfh.readPlaces`).
-/

namespace Pqfh

open Interleave

/-! ## The rows -/

/-- The field of a column in a record. -/
def Table.fieldAt (tab : Table) (record : List Byte) (i : ℕ) : List Byte :=
  slice record (tab.column i).offset (tab.column i).len

/-- The value of a column in a record, which is what WRITE makes of its field. -/
def Table.valueOf (pg : Postgres) (tab : Table) (record : List Byte) (i : ℕ) : Option Value :=
  pg.denote (tab.column i)
    ((Param.write (tab.column i) (tab.chave i)).checked (tab.fieldAt record i)).1

/-- For a field as a COBOL program fills it, whose first digit is 0 when it is negative, this is the
value of the field. -/
theorem Table.valueOf_field {pg : Postgres} {tab : Table} {record : List Byte} {i : ℕ}
    (wellFormed : FieldOk (tab.column i) (tab.fieldAt record i))
    (full : (tab.fieldAt record i).length = (tab.column i).len)
    (sign : (tab.column i).tp = .numeric → SignFits (tab.fieldAt record i)) :
    tab.valueOf pg record i = some (fieldValue (tab.column i) (tab.fieldAt record i)) := by
  unfold Table.valueOf
  rw [(checked_write (tab.chave i) wellFormed full).1]
  exact denote_writeChars wellFormed full sign

/-- The parameters of the statement of an operation. -/
def ReplicaOp.params (op : ReplicaOp) (tab : Table) : List Param :=
  match op with
  | .write => writeParams tab
  | .rewrite => rewriteParams tab
  | .delete => keyParams tab (whereColumns tab.keys 0)

/-- Whether a position in the statement of an operation is one of its WHERE part. -/
def ReplicaOp.keyed (op : ReplicaOp) (tab : Table) (j : ℕ) : Bool :=
  match op with
  | .write => false
  | .rewrite => (setColumns tab.columns).length ≤ j
  | .delete => true

/-- The parameter for a column at a position. -/
def ReplicaOp.param (op : ReplicaOp) (tab : Table) (j i : ℕ) : Param :=
  if op.keyed tab j then
    if op = .rewrite then Param.rewrite (tab.column i) (tab.chave i)
    else Param.key (tab.column i) (tab.chave i)
  else Param.write (tab.column i) (tab.chave i)

/-- The parameter of a column is of that column. -/
theorem ReplicaOp.param_col (op : ReplicaOp) (tab : Table) (j i : ℕ) :
    (op.param tab j i).col = tab.column i := by
  unfold ReplicaOp.param
  split
  · split <;> rfl
  · rfl

/-- The parameters stand in the order of the columns. -/
theorem ReplicaOp.getElem?_params {op : ReplicaOp} {tab : Table} {j i : ℕ}
    (column : (op.columns tab)[j]? = some i) : (op.params tab)[j]? = some (op.param tab j i) := by
  cases op with
  | write =>
      unfold ReplicaOp.params writeParams
      rw [List.getElem?_map, show (List.range tab.columns.length)[j]? = some i from column]
      rfl
  | rewrite =>
      unfold ReplicaOp.params rewriteParams ReplicaOp.param ReplicaOp.keyed
      simp only [ReplicaOp.columns] at column
      by_cases key : (setColumns tab.columns).length ≤ j
      · rw [List.getElem?_append_right key] at column
        rw [List.getElem?_append_right (by rw [List.length_map]; exact key), List.length_map,
          List.getElem?_map, column]
        simp [key]
      · rw [List.getElem?_append_left (Nat.lt_of_not_le key)] at column
        rw [List.getElem?_append_left (by rw [List.length_map]; exact Nat.lt_of_not_le key),
          List.getElem?_map, column]
        simp [key]
  | delete =>
      unfold ReplicaOp.params keyParams
      rw [List.getElem?_map, show (whereColumns tab.keys 0)[j]? = some i from column]
      rfl

/-- A column of the WHERE part is one of key 0. -/
theorem ReplicaOp.chave_of_keyed {op : ReplicaOp} {tab : Table} {j i : ℕ}
    (column : (op.columns tab)[j]? = some i) (keyed : op.keyed tab j = true) :
    tab.chave i = true := by
  have member : i ∈ whereColumns tab.keys 0 := by
    cases op with
    | write => cases keyed
    | rewrite =>
        simp only [ReplicaOp.columns] at column
        rw [List.getElem?_append_right (of_decide_eq_true keyed)] at column
        exact List.mem_of_getElem? column
    | delete => exact List.mem_of_getElem? column
  unfold whereColumns at member
  rw [List.getD_eq_getElem?_getD] at member
  cases first : tab.keys[0]? with
  | none =>
      rw [first] at member
      cases member
  | some key =>
      rw [first] at member
      exact List.any_eq_true.mpr ⟨key, List.mem_of_getElem? first, List.contains_iff_mem.mpr member⟩

/-- The row at a position holds the text of a column of the record: its own parameter is there,
whose text fits and has no quotes; a key number is not negative and has digits before its point, and
in the WHERE part of an UPDATE it has no point. -/
structure ReplicaOp.Holds (op : ReplicaOp) (tab : Table) (record : List Byte) (i j : ℕ) : Prop where
  column : (op.columns tab)[j]? = some i
  fits : ((op.param tab j i).checked (tab.fieldAt record i)).1.length < rowSize
  plain : (tab.column i).tp = .character → 39 ∉ cstr (tab.fieldAt record i)
  key : op.keyed tab j = true → (tab.column i).tp = .numeric →
    negativeField (tab.fieldAt record i) = false ∧ (tab.column i).dec < (tab.column i).len ∧
      (op = .rewrite → (tab.column i).dec = 0)

/-- WRITE makes the text that READ makes of an unsigned key field with digits before its point. -/
theorem writeText_key {col : Column} {field : List Byte} (numeric : col.tp = .numeric)
    (full : field.length = col.len) (positive : negativeField field = false)
    (digits : col.dec < col.len) : writeText col field = keyText col field := by
  rcases writeText_unsigned numeric full positive with same | ⟨empty, point⟩
  · exact same
  · have chars : writeChars col field = pointed col field := by
      unfold writeChars
      simp only [numeric, positive, Bool.false_eq_true, ↓reduceIte]
    have text : writeText col field = [48] := by
      unfold writeText
      rw [chars, ← cstr_append_nul, cstr_pointed full, empty]
      unfold pointedText
      rw [if_neg fun both => by
        have less := both.2
        rw [List.length_nil] at less
        omega]
      rfl
    rw [text] at point
    cases point

/-- What the row holds is the text that WRITE makes. -/
theorem ReplicaOp.Holds.text {op : ReplicaOp} {tab : Table} {record : List Byte} {i j : ℕ}
    (holds : op.Holds tab record i j) (full : (tab.fieldAt record i).length = (tab.column i).len) :
    ((op.param tab j i).checked (tab.fieldAt record i)).1 =
      ((Param.write (tab.column i) (tab.chave i)).checked (tab.fieldAt record i)).1 := by
  cases keyed : op.keyed tab j with
  | false =>
      unfold ReplicaOp.param
      rw [keyed]
      rfl
  | true =>
      have chave := ReplicaOp.chave_of_keyed holds.column keyed
      unfold ReplicaOp.param
      rw [keyed, chave, if_pos rfl]
      cases type : (tab.column i).tp with
      | character =>
          split <;> simp [Param.checked, Param.rewrite, Param.key, Param.write, type, rewriteBlock,
            keyBlock, writeBlock, writeChars]
      | numeric =>
          obtain ⟨positive, digits, whole⟩ := holds.key keyed type
          have written := writeText_key type full positive digits
          rw [checked_writeText type, written]
          split
          · rename_i rewrites
            rw [checked_rewrite type]
            unfold keyText pointedText orZero
            rw [whole rewrites]
            simp
          · rw [checked_key type full]

/-- A text that the check lets pass has only digits, signs and points. -/
theorem Param.checked_numeralChar {param : Param} {field : List Byte}
    (numeric : param.col.tp = .numeric)
    (passes : (param.checked field).2 = false) :
    (param.checked field).1.all numeralChar = true := by
  unfold Param.checked at passes ⊢
  simp only [numeric] at passes ⊢
  unfold validaNumero at passes ⊢
  generalize (if cstr (param.block param.col field) = [] then [48]
    else cstr (param.block param.col field) : List Byte) = text at passes ⊢
  by_cases valid : scanNumero (0 < param.col.dec) false false text = true
  · simp only [valid, ↓reduceIte]
    exact scanNumero_numeralChar valid
  · cases chave : param.chave with
    | true => simp [valid, chave] at passes
    | false =>
        simp only [valid, Bool.false_eq_true, ↓reduceIte]
        rw [List.all_map, List.all_eq_true]
        intro byte _
        by_cases kept : numberChar byte = true
        · simp only [Function.comp_apply, kept, ↓reduceIte]
          unfold numberChar at kept
          unfold numeralChar
          simp only [Bool.or_eq_true, decide_eq_true_eq] at kept ⊢
          rcases kept with (digit | minus) | point
          · exact .inl (.inl (.inl digit))
          · exact .inl (.inr minus)
          · exact .inr point
        · simp only [Function.comp_apply, kept, Bool.false_eq_true, ↓reduceIte]
          decide

/-- The text in a row. -/
theorem rowText_of_bindParams {params : List Param} {record bufs bufs' : List Byte}
    {texts : List (List Byte)} (bound : bindParams params record bufs = .ok (bufs', texts)) {j : ℕ}
    {param : Param} (present : params[j]? = some param)
    (fits : (param.checked (slice record param.col.offset param.col.len)).1.length < rowSize) :
    rowText bufs' j = (param.checked (slice record param.col.offset param.col.len)).1 ∧
      texts[j]? = some (rowText bufs' j) := by
  have inside : j < params.length := by
    by_contra outside
    rw [List.getElem?_eq_none (Nat.le_of_not_lt outside)] at present
    cases present
  have sent := (bindParams_ok bound).2.2
  have rows : texts = (List.range params.length).map (rowText bufs') := by
    unfold bindParams at bound
    obtain ⟨⟨bufs₁, fatal⟩, _, bound⟩ := bind_eq_ok.mp bound
    cases fatal with
    | true => cases bound
    | false =>
        cases bound
        rfl
  have here : texts[j]? = some (rowText bufs' j) := by
    rw [rows, List.getElem?_map, List.getElem?_range inside]
    rfl
  refine ⟨?_, here⟩
  rw [sent, getElem?_runOn, List.getElem?_map, present, Option.map_some, Option.map_some,
    runInto_eq_self (.inl fits)] at here
  exact (Option.some.inj here).symm

/-! ## What the statements carry -/

/-- A statement carries a record: the literal of each clone that is mapped to a column has the value
of that column. -/
def SentStatement.Carries (pg : Postgres) (tab : Table) (record : List Byte)
    (sent : SentStatement) :
    Prop :=
  ∀ entry ∈ sent.assigned ++ sent.conditions, ∀ i, tab.source entry.1 = some i →
    ∃ value, literalValue entry.2 = some value ∧ tab.valueOf pg record i = some value

/-- Whether a clone is in the statement of an operation. -/
def ReplicaOp.listed (op : ReplicaOp) (clone : Clone) : Bool :=
  match op with
  | .write => true
  | .rewrite => clone.key = 78 || clone.key = 83
  | .delete => clone.key = 83

/-- The lists of a statement have the clones that belong in it. -/
theorem replicaStatements_listed {op : ReplicaOp} {clones : List Clone} {statement : CloneStatement}
    (member : statement ∈ replicaStatements op clones) {clone : Clone}
    (present : clone ∈ statement.assigned ++ statement.conditions) :
    clone ∈ clones ∧ op.listed clone = true := by
  obtain ⟨last, _, rfl⟩ := List.mem_map.mp member
  cases op with
  | write =>
      simp only [cloneStatement, statementOf, List.append_nil] at present
      exact ⟨List.mem_of_mem_filter present, rfl⟩
  | rewrite =>
      simp only [cloneStatement, statementOf, List.mem_append, List.mem_filter] at present
      rcases present with ⟨among, key⟩ | ⟨among, key⟩
      · exact ⟨among.1, Bool.or_eq_true_iff.mpr (.inl key)⟩
      · exact ⟨among.1, Bool.or_eq_true_iff.mpr (.inr key)⟩
  | delete =>
      simp only [cloneStatement, statementOf, List.nil_append, List.mem_filter] at present
      exact ⟨present.1.1, present.2⟩

/-- A literal in a statement that is sent is that of its clone. -/
theorem sendClone_entries {op : ReplicaOp} {tab : Table} {places : Places}
    {statement : CloneStatement}
    {sent : SentStatement} (sends : sendClone op tab places statement = .ok sent)
    {entry : Clone × List Byte} (member : entry ∈ sent.assigned ++ sent.conditions) :
    entry.1 ∈ statement.assigned ++ statement.conditions ∧
      cloneLiteral tab places entry.1 = .ok entry.2 := by
  obtain ⟨assigned, first, sends⟩ := bind_eq_ok.mp sends
  obtain ⟨conditions, second, sends⟩ := bind_eq_ok.mp sends
  dsimp only at sends
  split at sends
  · cases sends
  · cases sends
    rcases List.mem_append.mp member with member | member
    · exact ⟨List.mem_append_left _ (List.of_mem_zip member).1,
        List.forall₂_zip (mapM_eq_ok.mp first) member⟩
    · exact ⟨List.mem_append_right _ (List.of_mem_zip member).1,
        List.forall₂_zip (mapM_eq_ok.mp second) member⟩

/-- The statements sent after an operation carry the record, when the row of each clone holds it. -/
theorem replicate_carries {pg : Postgres} {op : ReplicaOp} {clones : List Clone} {tab : Table}
    {places : Places} {st : State} {sent : List SentStatement} {record bufs : List Byte}
    {texts : List (List Byte)} (sends : replicate op clones places st = .ok sent)
    (columns : st.tab.columns = tab.columns)
    (bound : bindParams (op.params tab) record bufs = .ok (st.tab.bufs, texts))
    (meaning : st.fcd.status = stOk → ∀ (j i : ℕ) (text : List Byte),
    (op.columns tab)[j]? = some i →
      texts[j]? = some text → ∃ value, pg.denote (tab.column i) text = some value)
    (rows : ∀ clone ∈ clones, op.listed clone = true → ∀ i, tab.source clone = some i →
      ∃ j, places i = some j ∧ op.Holds tab record i j) :
    ∀ statement ∈ sent, statement.Carries pg tab record := by
  unfold replicate at sends
  split at sends
  case isFalse =>
    cases sends
    exact nofun
  case isTrue status =>
    intro statement member entry present i source
    obtain ⟨clones', among, sent'⟩ := forall₂_mem_right (mapM_eq_ok.mp sends) member
    obtain ⟨inside, literal⟩ := sendClone_entries sent' present
    obtain ⟨mapped, listed⟩ := replicaStatements_listed among inside
    obtain ⟨j, placed, holds⟩ := rows _ mapped listed i source
    have column : st.tab.column i = tab.column i := by
      unfold Table.column
      rw [columns]
    have param := ReplicaOp.getElem?_params holds.column
    have col := op.param_col tab j i
    have field : slice record (op.param tab j i).col.offset (op.param tab j i).col.len =
        tab.fieldAt record i := by
      rw [col]
      rfl
    obtain ⟨text, received⟩ := rowText_of_bindParams bound param (by rw [field]; exact holds.fits)
    obtain ⟨within, passes⟩ := (bindParams_ok bound).1 _ (List.mem_of_getElem? param)
    rw [field] at text passes
    have full : (tab.fieldAt record i).length = (tab.column i).len := by
      rw [col] at within
      exact length_slice within
    obtain ⟨value, denotes⟩ := meaning status j i _ holds.column received
    rw [text] at denotes
    have literal' : entry.2 = literalOf (tab.column i)
        ((op.param tab j i).checked (tab.fieldAt record i)).1 := by
      have source' : st.tab.source entry.1 = some i := by
        unfold Table.source at source ⊢
        rw [columns]
        exact source
      unfold cloneLiteral at literal
      rw [source'] at literal
      simp only [placed] at literal
      split at literal
      · refine (Except.ok.inj literal).symm.trans ?_
        rw [column, text]
      · cases literal
    refine ⟨value, ?_, ?_⟩
    · rw [literal']
      refine literalValue_literalOf (fun type => ?_) (fun type => ?_) denotes
      · have own : ((op.param tab j i).checked (tab.fieldAt record i)).1 =
            cstr (tab.fieldAt record i) := by
          rw [holds.text full]
          simp [Param.checked, Param.write, type, writeBlock, writeChars, cstr_append_nul]
        rw [own]
        exact holds.plain type
      · exact Param.checked_numeralChar (by rw [col]; exact type) passes
    · unfold Table.valueOf
      rw [← holds.text full]
      exact denotes

/-! ## What a statement that succeeded received -/

/-- A text that can be stored denotes a value. -/
theorem Postgres.denote_of_store {pg : Postgres} {col : Column} {text : List Byte} {value : Value}
    (stored : pg.store col text = some value) : ∃ value, pg.denote col text = some value := by
  unfold Postgres.store at stored
  unfold Postgres.denote
  cases type : col.tp with
  | numeric =>
      simp only [type] at stored ⊢
      cases denoted : pg.numeral text with
      | none => simp [denoted] at stored
      | some number => exact ⟨_, rfl⟩
  | character => exact ⟨_, rfl⟩

/-- Each text of an assignment denotes a value of its column. -/
theorem denote_of_assignment {pg : Postgres} {tab : Table} {cols : List ℕ}
    {texts : List (List Byte)}
    {values : List (ℕ × Value)} (assigned : tab.assignment pg cols texts = some values) {j i : ℕ}
    {text : List Byte} (column : cols[j]? = some i) (received : texts[j]? = some text) :
    ∃ value, pg.denote (tab.column i) text = some value := by
  have pair : (cols.zip texts)[j]? = some (i, text) :=
    List.getElem?_zip_eq_some.mpr ⟨column, received⟩
  obtain ⟨_, stored, _⟩ := mapM_getElem? assigned pair
  obtain ⟨value, stored, _⟩ := Option.map_eq_some_iff.mp stored
  exact Postgres.denote_of_store stored

/-- Each text of a condition denotes a value of its column. -/
theorem denote_of_condition {pg : Postgres} {tab : Table} {cols : List ℕ} {texts : List (List Byte)}
    {condition : Condition} (conditioned : tab.condition pg cols texts = some condition) {j i : ℕ}
    {text : List Byte} (column : cols[j]? = some i) (received : texts[j]? = some text) :
    ∃ value, pg.denote (tab.column i) text = some value := by
  have pair : (cols.zip texts)[j]? = some (i, text) :=
    List.getElem?_zip_eq_some.mpr ⟨column, received⟩
  obtain ⟨_, denoted, _⟩ := mapM_getElem? conditioned pair
  obtain ⟨value, denoted, _⟩ := Option.map_eq_some_iff.mp denoted
  exact ⟨value, denoted⟩

/-- The INSERT of a WRITE that was executed. -/
theorem insertRecord_ok {env : Env} {st st' : State} (inserted : insertRecord env st = .ok st')
    (status : st'.fcd.status = stOk) :
    ∃ texts values, bindParams (writeParams st.tab) st.fcd.record st.tab.bufs =
        .ok (st'.tab.bufs, texts) ∧
      st.tab.assignment env.pg (List.range st.tab.columns.length) texts = some values ∧
      st'.tab.columns = st.tab.columns := by
  unfold insertRecord at inserted
  obtain ⟨inserted, _⟩ := guard_ok inserted
  obtain ⟨⟨bufs, texts⟩, bound, inserted⟩ := bind_eq_ok.mp inserted
  dsimp only at inserted
  generalize executed : st.conn.exec env.pg _ = outcome at inserted
  obtain ⟨conn, done⟩ := outcome
  cases inserted
  cases done with
  | false => exact absurd status (by decide : stError ≠ stOk)
  | true =>
      obtain ⟨_, statement, _, known, _⟩ := Conn.exec_true executed
      obtain ⟨_, assigned, _⟩ := Option.map_eq_some_iff.mp known
      obtain ⟨values, assigned, _⟩ := Option.map_eq_some_iff.mp assigned
      exact ⟨texts, values, bound, assigned, rfl⟩

/-! ## Runs -/

/-- The state in which an operation reads. -/
def ReplicaOp.reads (op : ReplicaOp) (st : State) : State :=
  match op with
  | .write => st.setKeyId 0
  | .rewrite => st.resetScan.setKeyId 0
  | .delete => st.resetScan

/-- The record that an operation is about to replicate, when its read finds that there is something
to do. A DELETE replicates the record that it reads. -/
def ReplicaOp.replicates (op : ReplicaOp) (env : Env) (st : State) : Option (List Byte) :=
  match opReadRandom env false false (op.reads st) with
  | .error _ => none
  | .ok read =>
      match op with
      | .write => if read.fcd.status = stOk then none else some st.fcd.record
      | .rewrite => if read.fcd.status = stOk ∧ st.fcd.record ≠ read.fcd.record then
          some st.fcd.record else none
      | .delete => if read.fcd.status = stOk then some read.fcd.record else none

/-- The rows that the clones point to hold the record that an operation replicates. -/
def ReplicaOp.Current (op : ReplicaOp) (env : Env) (clones : List Clone) (sys : Replicated) :
    Prop :=
  ∀ record ∈ op.replicates env sys.st, ∀ clone ∈ clones, op.listed clone = true →
    ∀ i ∈ sys.st.tab.source clone,
      ∃ j ∈ op.places sys.st.tab (readPlaces (op.reads sys.st) sys.places) i,
        op.Holds sys.st.tab record i j

/-- A statement that keeps the table has its parameters where they were. -/
theorem Kept.places {st st' : State} (kept : Kept st st') (op : ReplicaOp) (places : Places) :
    op.places st'.tab places = op.places st.tab places := by
  have prepared : op.prepared st'.tab = op.prepared st.tab := by
    cases op with
    | write => rfl
    | rewrite => exact kept.updPrepared
    | delete => exact kept.delPrepared
  have columns : op.columns st'.tab = op.columns st.tab := by
    cases op <;> simp only [ReplicaOp.columns, kept.columns, kept.keys]
  rw [ReplicaOp.places, ReplicaOp.places, prepared, columns]

/-- Nothing is sent after a statement that failed. -/
theorem replicate_failed {op : ReplicaOp} {clones : List Clone} {places : Places} {st : State}
    {sent : List SentStatement} (sends : replicate op clones places st = .ok sent)
    (failed : st.fcd.status ≠ stOk) : sent = [] := by
  rw [replicate, if_neg failed] at sends
  exact (Except.ok.inj sends).symm

/-- A replicated WRITE carries the record to each copy. -/
theorem replicaWrite_carries {env : Env} {clones : List Clone} {sys sys' : Replicated}
    {sent : List SentStatement} (wrote : replicaWrite env clones sys = .ok (sent, sys'))
    (current : ReplicaOp.write.Current env clones sys) :
    ∀ statement ∈ sent, statement.Carries env.pg sys.st.tab sys.st.fcd.record := by
  unfold replicaWrite at wrote
  split at wrote
  · cases wrote
    exact nofun
  · obtain ⟨st₁, read, wrote⟩ := bind_eq_ok.mp wrote
    split at wrote
    · cases wrote
      exact nofun
    · rename_i missing
      obtain ⟨st₂, inserted, wrote⟩ := bind_eq_ok.mp wrote
      obtain ⟨_, sends, ended⟩ := bind_eq_ok.mp wrote
      cases ended
      obtain ⟨kept, outcome⟩ := opReadRandom_ok read
      have record : st₁.fcd.record = sys.st.fcd.record := by
        rcases outcome with ⟨_, record, _⟩ | ⟨found, _⟩
        · exact record
        · exact (missing found).elim
      by_cases status : st₂.fcd.status = stOk
      · obtain ⟨texts, values, bound, assigned, columns⟩ := insertRecord_ok inserted status
        rw [kept.writeParams, record] at bound
        rw [kept.columns, kept.assignment] at assigned
        refine replicate_carries sends (columns.trans kept.columns) bound ?_ ?_
        · intro _ j i text column received
          exact denote_of_assignment assigned column received
        · rw [kept.places]
          refine current _ ?_
          unfold ReplicaOp.replicates ReplicaOp.reads
          simp only [read, missing, if_false]
          rfl
      · rw [replicate_failed sends status]
        exact nofun

/-- A replicated REWRITE carries the record to each copy. -/
theorem replicaRewrite_carries {env : Env} {clones : List Clone} {sys sys' : Replicated}
    {sent : List SentStatement} (rewrote : replicaRewrite env clones sys = .ok (sent, sys'))
    (current : ReplicaOp.rewrite.Current env clones sys) :
    ∀ statement ∈ sent, statement.Carries env.pg sys.st.tab sys.st.fcd.record := by
  unfold replicaRewrite at rewrote
  split at rewrote
  · cases rewrote
    exact nofun
  · obtain ⟨st₁, read, rewrote⟩ := bind_eq_ok.mp rewrote
    split at rewrote
    · cases rewrote
      exact nofun
    · rename_i found
      split at rewrote
      · cases rewrote
        exact nofun
      · rename_i changed
        obtain ⟨_, _, rewrote⟩ := bind_eq_ok.mp rewrote
        obtain ⟨st₂, updated, rewrote⟩ := bind_eq_ok.mp rewrote
        obtain ⟨_, sends, ended⟩ := bind_eq_ok.mp rewrote
        cases ended
        have kept := (opReadRandom_ok read).1
        by_cases status : st₂.fcd.status = stOk
        · obtain ⟨bufs, texts, values, condition, _, bound, assigned, conditioned, _, _, rfl⟩ :=
            updateRecord_ok updated status
          change bindParams (rewriteParams st₁.tab) sys.st.fcd.record st₁.tab.bufs = _ at bound
          change st₁.tab.assignment env.pg (setColumns st₁.tab.columns) texts = _ at assigned
          change st₁.tab.condition env.pg (whereColumns st₁.tab.keys 0)
            (texts.drop (setColumns st₁.tab.columns).length) = _ at conditioned
          rw [kept.rewriteParams] at bound
          rw [kept.assignment, kept.columns] at assigned
          rw [kept.condition, kept.columns, kept.keys] at conditioned
          refine replicate_carries sends kept.columns bound ?_ ?_
          · intro _ j i text column received
            simp only [ReplicaOp.columns] at column
            by_cases key : (setColumns sys.st.tab.columns).length ≤ j
            · rw [List.getElem?_append_right key] at column
              refine denote_of_condition conditioned column ?_
              refine (List.getElem?_drop ..).trans ?_
              rw [← received]
              exact congrArg (texts[·]?) (Nat.add_sub_cancel' key)
            · rw [List.getElem?_append_left (Nat.lt_of_not_le key)] at column
              exact denote_of_assignment assigned column received
          · rw [kept.places]
            refine current _ ?_
            unfold ReplicaOp.replicates ReplicaOp.reads
            simp only [read]
            exact if_pos ⟨not_not.mp found, changed⟩
        · rw [replicate_failed sends status]
          exact nofun

/-- A replicated DELETE names the record to each copy. -/
theorem replicaDelete_carries {env : Env} {clones : List Clone} {sys sys' : Replicated}
    {sent : List SentStatement} (deleted : replicaDelete env clones sys = .ok (sent, sys'))
    (current : ReplicaOp.delete.Current env clones sys) :
    ∀ statement ∈ sent, statement.Carries env.pg sys.st.tab sys'.st.fcd.record := by
  unfold replicaDelete at deleted
  split at deleted
  · cases deleted
    exact nofun
  · obtain ⟨st₁, read, deleted⟩ := bind_eq_ok.mp deleted
    split at deleted
    · cases deleted
      exact nofun
    · rename_i found
      obtain ⟨_, _, deleted⟩ := bind_eq_ok.mp deleted
      obtain ⟨st₂, removed, deleted⟩ := bind_eq_ok.mp deleted
      obtain ⟨_, sends, ended⟩ := bind_eq_ok.mp deleted
      cases ended
      have kept := (opReadRandom_ok read).1
      by_cases status : st₂.fcd.status = stOk
      · obtain ⟨bufs, texts, condition, _, bound, conditioned, _, _, rfl⟩ :=
          deleteRecord_ok removed status
        rw [kept.keyParams, kept.keys] at bound
        rw [kept.condition, kept.keys] at conditioned
        refine replicate_carries sends kept.columns bound ?_ ?_
        · intro _ j i text column received
          exact denote_of_condition conditioned column received
        · rw [kept.places]
          refine current _ ?_
          unfold ReplicaOp.replicates ReplicaOp.reads
          simp only [read]
          exact if_pos (not_not.mp found)
      · rw [replicate_failed sends status]
        exact nofun

/-! ## Sequences of operations -/

/-- The operations of a sequence. -/
inductive TableOp where
  | read (withLock : Bool)
  | change (op : ReplicaOp)

/-- A call on the table, with the connection as other calls have left it. -/
structure TableCall where
  op : TableOp
  conn : Conn
  fcd : Fcd

/-- What a call gives back, and what it has sent to the other database. -/
structure Replica where
  fcd : Fcd
  sent : List SentStatement

/-- The table when a call comes to it. -/
def TableCall.on (call : TableCall) (sys : Replicated) : Replicated :=
  ⟨sys.st.between call.conn call.fcd, sys.places⟩

/-- A call on a table with clones. -/
def TableCall.run (call : TableCall) (env : Env) (clones : List Clone) (sys : Replicated) :
    Except Stop (List SentStatement × Replicated) :=
  match call.op with
  | .read withLock => replicaRead env withLock (call.on sys)
  | .change .write => replicaWrite env clones (call.on sys)
  | .change .rewrite => replicaRewrite env clones (call.on sys)
  | .change .delete => replicaDelete env clones (call.on sys)

/-- A call in a sequence. -/
def replicaStep (env : Env) (clones : List Clone) (sys : Replicated) (call : TableCall)
    (answer : Replica) (sys' : Replicated) : Prop :=
  call.run env clones sys = .ok (answer.sent, sys') ∧ answer.fcd = sys'.st.fcd

/-- The record of the operation that is replicated: that of the call, or the one that a DELETE has
read. -/
def TableCall.record (call : TableCall) (answer : Replica) : List Byte :=
  match call.op with
  | .change .delete => answer.fcd.record
  | _ => call.fcd.record

/-- The rows that the clones point to hold the record, whenever a call replicates one. -/
def Pointed (env : Env) (clones : List Clone) (_ : List (TableCall × Replica)) (sys : Replicated)
    (call : TableCall) : Prop :=
  match call.op with
  | .read _ => True
  | .change op => op.Current env clones (call.on sys)

/-- Every statement that a sequence has sent carries the record of its operation. -/
def AllCarry (pg : Postgres) (tab : Table) (trace : List (TableCall × Replica)) : Prop :=
  ∀ entry ∈ trace, ∀ statement ∈ entry.2.sent, statement.Carries pg tab (entry.1.record entry.2)

/-- The columns and the keys of a table stay. -/
structure SameShape (tab tab' : Table) : Prop where
  columns : tab'.columns = tab.columns
  keys : tab'.keys = tab.keys

/-- What a statement carries does not depend on which of two tables of one shape is meant. -/
theorem SameShape.carries {tab tab' : Table} (same : SameShape tab tab') {pg : Postgres}
    {record : List Byte} {statement : SentStatement} (carries : statement.Carries pg tab' record) :
    statement.Carries pg tab record := by
  simpa only [SentStatement.Carries, Table.source, Table.valueOf, Table.fieldAt, Table.column,
    Table.chave, same.columns, same.keys] using carries

/-- An INSERT leaves the shape of the table alone. -/
theorem insertRecord_shape {env : Env} {st st' : State} (inserted : insertRecord env st = .ok st') :
    SameShape st.tab st'.tab := by
  unfold insertRecord at inserted
  obtain ⟨inserted, _⟩ := guard_ok inserted
  obtain ⟨_, _, inserted⟩ := bind_eq_ok.mp inserted
  cases inserted
  exact ⟨rfl, rfl⟩

/-- An UPDATE leaves the shape of the table alone. -/
theorem updateRecord_shape {env : Env} {st st' : State} (updated : updateRecord env st = .ok st') :
    SameShape st.tab st'.tab := by
  unfold updateRecord at updated
  obtain ⟨updated, _⟩ := guard_ok updated
  obtain ⟨_, _, updated⟩ := bind_eq_ok.mp updated
  cases updated
  exact ⟨rfl, rfl⟩

/-- A DELETE leaves the shape of the table alone. -/
theorem deleteRecord_shape {env : Env} {st st' : State} (deleted : deleteRecord env st = .ok st') :
    SameShape st.tab st'.tab := by
  unfold deleteRecord at deleted
  obtain ⟨deleted, _⟩ := guard_ok deleted
  obtain ⟨_, _, deleted⟩ := bind_eq_ok.mp deleted
  cases deleted
  exact ⟨rfl, rfl⟩

/-- Shapes that agree one after the other agree. -/
theorem SameShape.trans {first second third : Table} (one : SameShape first second)
    (two : SameShape second third) : SameShape first third :=
  ⟨two.columns.trans one.columns, two.keys.trans one.keys⟩

/-- WRITE leaves the shape of the table alone. -/
theorem opWrite_shape {env : Env} {st st' : State} (wrote : opWrite env st = .ok st') :
    SameShape st.tab st'.tab := by
  unfold opWrite at wrote
  split at wrote
  · cases wrote
    exact ⟨rfl, rfl⟩
  · obtain ⟨st₁, read, wrote⟩ := bind_eq_ok.mp wrote
    have reads := (opReadRandom_ok read).1
    have kept : SameShape st.tab st₁.tab := ⟨reads.columns, reads.keys⟩
    split at wrote
    · cases wrote
      exact kept
    · obtain ⟨st₂, inserted, ended⟩ := bind_eq_ok.mp wrote
      cases ended
      have changes := insertRecord_shape inserted
      exact kept.trans ⟨changes.columns, changes.keys⟩

/-- REWRITE leaves the shape of the table alone. -/
theorem opRewrite_shape {env : Env} {st st' : State} {done : Bool}
    (rewrote : opRewrite env st = .ok (done, st')) : SameShape st.tab st'.tab := by
  unfold opRewrite at rewrote
  split at rewrote
  · cases rewrote
    exact ⟨rfl, rfl⟩
  · obtain ⟨st₁, read, rewrote⟩ := bind_eq_ok.mp rewrote
    have reads := (opReadRandom_ok read).1
    have kept : SameShape st.tab st₁.tab := ⟨reads.columns, reads.keys⟩
    split at rewrote
    · cases rewrote
      exact kept
    · split at rewrote
      · cases rewrote
        exact kept
      · obtain ⟨_, _, rewrote⟩ := bind_eq_ok.mp rewrote
        obtain ⟨st₂, updated, ended⟩ := bind_eq_ok.mp rewrote
        cases ended
        have changes := updateRecord_shape updated
        exact kept.trans ⟨changes.columns, changes.keys⟩

/-- DELETE leaves the shape of the table alone. -/
theorem opDelete_shape {env : Env} {st st' : State} (deleted : opDelete env st = .ok st') :
    SameShape st.tab st'.tab := by
  unfold opDelete at deleted
  split at deleted
  · cases deleted
    exact ⟨rfl, rfl⟩
  · obtain ⟨st₁, read, deleted⟩ := bind_eq_ok.mp deleted
    have reads := (opReadRandom_ok read).1
    have kept : SameShape st.tab st₁.tab := ⟨reads.columns, reads.keys⟩
    split at deleted
    · cases deleted
      exact kept
    · obtain ⟨_, _, deleted⟩ := bind_eq_ok.mp deleted
      have changes := deleteRecord_shape deleted
      exact kept.trans ⟨changes.columns, changes.keys⟩

/-- A call leaves the shape of its table. -/
theorem TableCall.run_shape {call : TableCall} {env : Env} {clones : List Clone}
    {sys sys' : Replicated} {sent : List SentStatement}
    (ran : call.run env clones sys = .ok (sent, sys')) : SameShape sys.st.tab sys'.st.tab := by
  obtain ⟨op, conn, fcd⟩ := call
  cases op with
  | read withLock =>
      obtain ⟨st, read, ended⟩ := bind_eq_ok.mp ran
      cases ended
      have kept := (opReadRandom_ok read).1
      exact ⟨kept.columns, kept.keys⟩
  | change op =>
      cases op with
      | write =>
          have same := opWrite_shape (replicaWrite_ok ran)
          exact ⟨same.columns, same.keys⟩
      | rewrite =>
          obtain ⟨_, rewrote⟩ := replicaRewrite_ok ran
          have same := opRewrite_shape rewrote
          exact ⟨same.columns, same.keys⟩
      | delete =>
          have same := opDelete_shape (replicaDelete_ok ran)
          exact ⟨same.columns, same.keys⟩

/-- What one call sends carries its record. -/
theorem replicaStep_carries {env : Env} {clones : List Clone} {sys sys' : Replicated}
    {call : TableCall} {answer : Replica} {trace : List (TableCall × Replica)}
    (pointed : Pointed env clones trace sys call)
    (stepped : replicaStep env clones sys call answer sys') :
    ∀ statement ∈ answer.sent, statement.Carries env.pg sys.st.tab (call.record answer) := by
  obtain ⟨op, conn, fcd⟩ := call
  obtain ⟨ran, back⟩ := stepped
  cases op with
  | read withLock =>
      obtain ⟨_, _, ended⟩ := bind_eq_ok.mp ran
      rw [← (Prod.mk.inj (Except.ok.inj ended)).1]
      exact nofun
  | change op =>
      cases op with
      | write => exact replicaWrite_carries ran pointed
      | rewrite => exact replicaRewrite_carries ran pointed
      | delete =>
          have carries := replicaDelete_carries ran pointed
          rw [← back] at carries
          exact carries

/-- In a sequence of operations in which the rows that the clones point to hold the record whenever
one is replicated, every statement carries the record of its operation. -/
theorem replica_carries {env : Env} {clones : List Clone} {initial sys : Replicated}
    {trace : List (TableCall × Replica)}
    (run : Run (replicaStep env clones) (Pointed env clones) initial trace sys) :
    AllCarry env.pg initial.st.tab trace := by
  have both : SameShape initial.st.tab sys.st.tab ∧ AllCarry env.pg initial.st.tab trace := by
    induction run with
    | begin => exact ⟨⟨rfl, rfl⟩, fun _ member => absurd member List.not_mem_nil⟩
    | @called trace sys sys' call answer _ pointed stepped ih =>
        obtain ⟨same, carry⟩ := ih
        refine ⟨same.trans (TableCall.run_shape stepped.1), ?_⟩
        intro entry member
        rcases List.mem_cons.mp member with rfl | earlier
        · intro statement sent
          have carries := replicaStep_carries pointed stepped statement sent
          exact same.carries carries
        · exact carry entry earlier
  exact both.2

/-! ## A table with clones -/

/-- A call as a function. -/
def replicated (env : Env) (clones : List Clone) (sys : Replicated) (call : TableCall) :
    Option (Replica × Replicated) :=
  match call.run env clones sys with
  | .ok (sent, sys') => some (⟨sys'.st.fcd, sent⟩, sys')
  | .error _ => none

/-- A replicated call does what one step of the replica allows. -/
theorem replicated_step {env : Env} {clones : List Clone} (sys : Replicated) (call : TableCall)
    (answer : Replica) (sys' : Replicated)
    (called : replicated env clones sys call = some (answer, sys')) :
    replicaStep env clones sys call answer sys' := by
  unfold replicated at called
  split at called
  · rename_i sent next ran
    cases called
    exact ⟨ran, rfl⟩
  · cases called

instance (op : ReplicaOp) (tab : Table) (record : List Byte) (i j : ℕ) :
    Decidable (op.Holds tab record i j) :=
  decidable_of_iff ((op.columns tab)[j]? = some i ∧
      ((op.param tab j i).checked (tab.fieldAt record i)).1.length < rowSize ∧
      ((tab.column i).tp = .character → 39 ∉ cstr (tab.fieldAt record i)) ∧
      (op.keyed tab j = true → (tab.column i).tp = .numeric →
        negativeField (tab.fieldAt record i) = false ∧ (tab.column i).dec < (tab.column i).len ∧
          (op = .rewrite → (tab.column i).dec = 0)))
    ⟨fun all => ⟨all.1, all.2.1, all.2.2.1, all.2.2.2⟩,
      fun holds => ⟨holds.column, holds.fits, holds.plain, holds.key⟩⟩

instance (op : ReplicaOp) (env : Env) (clones : List Clone) (sys : Replicated) :
    Decidable (op.Current env clones sys) :=
  inferInstanceAs (Decidable (∀ record ∈ op.replicates env sys.st, ∀ clone ∈ clones, _ → ∀ i ∈ _,
    ∃ j ∈ _, _))

instance (env : Env) (clones : List Clone) (trace : List (TableCall × Replica)) (sys : Replicated)
    (call : TableCall) : Decidable (Pointed env clones trace sys call) := by
  obtain ⟨op, conn, fcd⟩ := call
  cases op with
  | read withLock => exact inferInstanceAs (Decidable True)
  | change op => exact inferInstanceAs (Decidable (op.Current env clones _))

/-- The clones of the two columns of the table of balances. -/
def balanceClones : List Clone :=
  [⟨ascii "codigo", ascii "filial", ascii "saldos", ascii "cod", 83, 78⟩,
    ⟨ascii "saldo", ascii "filial", ascii "saldos", ascii "val", 78, 78⟩]

/-- The table of balances, just opened. -/
def openedBalances : Replicated := ⟨balances [] [], fun _ => none⟩

/-- An operation on the table of balances with some rows. -/
def balanceCall (op : ReplicaOp) (rows : List Row) (record : List Byte) : TableCall :=
  ⟨.change op, (balances rows []).conn, openedFcd 0 record⟩

/-- A REWRITE, a WRITE, and the DELETE of the record rewritten. -/
theorem replica_carries_first :
    ∃ trace sys, Run (replicaStep plainServer balanceClones) (Pointed plainServer balanceClones)
        openedBalances trace sys ∧
      (trace.map fun entry => entry.2.sent.length) = [1, 1, 1] ∧
      AllCarry plainServer.pg openedBalances.st.tab trace := by
  obtain ⟨⟨trace, sys⟩, made, sent⟩ := Option.map_eq_some_iff.mp (by decide +kernel :
    (execute (replicated plainServer balanceClones)
      (fun trace sys call => decide (Pointed plainServer balanceClones trace sys call))
      [balanceCall .rewrite [[.num 1, .num 7]] [49, 48, 50, 53],
        balanceCall .write [[.num 1, .num (5 / 2)]] [50, 48, 51, 48],
        balanceCall .delete [[.num 1, .num (5 / 2)], [.num 2, .num 3]] [49, 48, 48, 48]]
      ([], openedBalances)).map (fun result => result.1.map fun entry => entry.2.sent.length) =
      some [1, 1, 1])
  have run := (execute_run _ _ replicated_step (fun _ _ _ allowed => of_decide_eq_true allowed) _
    .begin made).1
  exact ⟨trace, sys, run, sent, replica_carries run⟩

/-- A REWRITE after a WRITE sends the code for the balance, and looks for the balance. -/
theorem replica_rewrite_after_write :
    ¬ ∀ (env : Env) (clones : List Clone) (initial sys : Replicated)
        (trace : List (TableCall × Replica)),
      Run (replicaStep env clones) always initial trace sys →
      AllCarry env.pg initial.st.tab trace := by
  intro claimed
  obtain ⟨⟨trace, sys⟩, made, sent⟩ := Option.map_eq_some_iff.mp (by decide +kernel :
    (execute (replicated plainServer balanceClones) (fun _ _ _ => true)
      [balanceCall .rewrite [[.num 1, .num 7]] [49, 48, 50, 53],
        balanceCall .write [[.num 1, .num (5 / 2)]] [50, 48, 51, 48],
        balanceCall .rewrite [[.num 1, .num (5 / 2)], [.num 2, .num 3]] [49, 48, 52, 48]]
      ([], openedBalances)).map (fun result => (result.1.take 1).flatMap fun entry =>
        entry.2.sent.flatMap fun sent => sent.assigned.map fun pair =>
          (openedBalances.st.tab.source pair.1, literalValue pair.2)) =
      some [(some 1, some (Value.num 1))])
  obtain ⟨run, calls⟩ := execute_run _ _ replicated_step (fun _ _ _ _ => trivial) _ .begin made
  obtain ⟨⟨call, answer⟩, earlier, rfl⟩ := List.exists_cons_of_ne_nil (show trace ≠ [] by
    rintro rfl
    cases calls)
  obtain ⟨rfl, _⟩ := List.cons.inj calls
  have member : (some 1, some (Value.num 1)) ∈ [(some 1, some (Value.num 1))] := List.mem_cons_self
  rw [← sent] at member
  obtain ⟨_, first, member⟩ := List.mem_flatMap.mp member
  obtain rfl := List.mem_singleton.mp first
  obtain ⟨statement, sends, member⟩ := List.mem_flatMap.mp member
  obtain ⟨pair, assigned, values⟩ := List.mem_map.mp member
  obtain ⟨source, literal⟩ := Prod.mk.inj values
  obtain ⟨value, denotes, stored⟩ := claimed _ _ _ _ _ run _ List.mem_cons_self statement sends pair
    (List.mem_append_left _ assigned) 1 source
  have four : openedBalances.st.tab.valueOf plainServer.pg [49, 48, 52, 48] 1 = some (.num 4) := by
    decide +kernel
  obtain rfl := Option.some.inj (literal.symm.trans denotes)
  exact absurd (Option.some.inj (stored.symm.trans four)) (by decide +kernel)

end Pqfh
