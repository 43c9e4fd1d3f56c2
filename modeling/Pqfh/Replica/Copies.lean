import Pqfh.Handler.Keyed
import Pqfh.Replica.Carried

/-! # The other database follows the table

A statement for the clones of a table does to the rows of its table what the operation has done to
the records, when the clones of that table name each of its columns once, those of the key are
mapped to the primary key, and the statement carries the record. So after every run of READ, WRITE,
REWRITE and DELETE each table of the other database holds the records of the table, column by column
as its clones map them (`Pqfh.clones_follow`).
-/

namespace Pqfh

open Interleave KeyedStore

/-! ## What a statement does -/

/-- A row of a table of the other database: the values of its columns, by their names. -/
abbrev CloneRow := List Byte → Option Value

/-- The tables of the other database, by schema and name. -/
abbrev OtherDb := List Byte × List Byte → List CloneRow

/-- What a list of columns and literals gives a column. -/
def literalAt (entries : List (Clone × List Byte)) : CloneRow := fun name =>
  (entries.find? fun entry => entry.1.col2 = name).bind fun entry => literalValue entry.2

/-- Whether a row is one of those that the WHERE part selects. Nothing is equal to null. -/
def SentStatement.selects (sent : SentStatement) (row : CloneRow) : Bool :=
  sent.conditions.all fun entry =>
    (literalValue entry.2).isSome && row entry.1.col2 = literalValue entry.2

/-- What a statement does to the rows of its table. -/
def SentStatement.onRows (sent : SentStatement) (rows : List CloneRow) : List CloneRow :=
  match sent.op with
  | .write => rows ++ [literalAt sent.assigned]
  | .rewrite => rows.map fun row =>
      if sent.selects row then fun name => (literalAt sent.assigned name).or (row name) else row
  | .delete => rows.filter fun row => !sent.selects row

def SentStatement.target (sent : SentStatement) : List Byte × List Byte := (sent.schema, sent.name)

def OtherDb.execute (db : OtherDb) (sent : SentStatement) : OtherDb :=
  Function.update db sent.target (sent.onRows (db sent.target))

/-- The other database after the statements of some calls, the latest first. -/
def OtherDb.after (db : OtherDb) : List (TableCall × Replica) → OtherDb
  | [] => db
  | entry :: earlier => entry.2.sent.foldl OtherDb.execute (db.after earlier)

/-- The rows of a table are changed by the statements for it. -/
theorem foldl_execute (target : List Byte × List Byte) :
    ∀ (sent : List SentStatement) (db : OtherDb),
      sent.foldl OtherDb.execute db target = (sent.filter (·.target = target)).foldl
        (fun rows statement => statement.onRows rows) (db target)
  | [], _ => rfl
  | statement :: sent, db => by
      rw [List.foldl_cons, foldl_execute target sent]
      unfold OtherDb.execute
      by_cases here : statement.target = target
      · rw [List.filter_cons_of_pos (by rw [decide_eq_true_eq]; exact here), List.foldl_cons,
          ← here, Function.update_self]
      · rw [List.filter_cons_of_neg (by rw [decide_eq_true_eq]; exact here),
          Function.update_of_ne (Ne.symm here)]

/-! ## What the clones make of a record -/

/-- The value that a clone takes from a record. -/
def Table.cloneValue (pg : Postgres) (tab : Table) (record : List Byte) (clone : Clone) :
    Option Value :=
  (tab.source clone).bind fun i => tab.valueOf pg record i

/-- The row that the clones of a table of the other database make of a record. -/
def Table.cloneRow (pg : Postgres) (tab : Table) (same : List Clone) (record : List Byte) :
    CloneRow := fun name =>
  (same.find? fun clone => clone.col2 = name).bind fun clone => tab.cloneValue pg record clone

/-- The clones of a table can keep its copies: each of their tables gets one statement, names each
of its columns once, and has the columns of the primary key as its key, and others to set. -/
structure Mapped (tab : Table) (clones : List Clone) : Prop where
  each : OneStatementEach clones
  sourced : ∀ clone ∈ clones, ∃ i, tab.source clone = some i
  names : ∀ clone ∈ clones, ∀ other ∈ clones, other.target = clone.target →
    other.col2 = clone.col2 → other = clone
  flags : ∀ clone ∈ clones, clone.key = 78 ∨ clone.key = 83
  keyed : ∀ clone ∈ clones, ∀ i, tab.source clone = some i →
    (clone.key = 83 ↔ i ∈ whereColumns tab.keys 0)
  whole : ∀ clone ∈ clones, ∀ i ∈ whereColumns tab.keys 0,
    ∃ other ∈ clones, other.target = clone.target ∧ tab.source other = some i
  sets : ∀ clone ∈ clones, ∃ other ∈ clones, other.target = clone.target ∧ other.key = 78

/-- The clones of the table of a clone. -/
def Clone.among (clones : List Clone) (clone : Clone) : List Clone :=
  clones.filter (·.target = clone.target)

section Rows

variable {pg : Postgres} {tab : Table} {clones same : List Clone} {clone : Clone}
  {record stored : List Byte}

/-- The source of a copied column is a column of the table. -/
theorem Table.source_lt {i : ℕ} (source : tab.source clone = some i) : i < tab.columns.length :=
  (List.findIdx?_eq_some_iff_findIdx_eq.mp source).1

/-- The value of a clone lies in the bytes of the columns. -/
theorem cloneValue_take (laid : Contiguous 0 tab.columns) (record : List Byte) (clone : Clone) :
    tab.cloneValue pg (record.take (totalLen tab.columns)) clone = tab.cloneValue pg record clone
    := by
  unfold Table.cloneValue
  cases source : tab.source clone with
  | none => rfl
  | some i =>
      have field := slice_take_totalLen laid record (tab.column_mem (Table.source_lt source))
      change tab.valueOf pg _ i = tab.valueOf pg record i
      unfold Table.valueOf Table.fieldAt
      rw [field]

/-- The row of a copy depends on the columns of the record alone. -/
theorem cloneRow_take (laid : Contiguous 0 tab.columns) (same : List Clone) (record : List Byte) :
    tab.cloneRow pg same (record.take (totalLen tab.columns)) = tab.cloneRow pg same record := by
  unfold Table.cloneRow
  funext name
  congr 1
  funext clone
  exact cloneValue_take laid record clone

/-- A record that the table can keep gives a clone the value of its field. -/
theorem Storable.cloneValue (storable : Storable tab record) (laid : Contiguous 0 tab.columns)
    (room : totalLen tab.columns ≤ record.length) {i : ℕ} (source : tab.source clone = some i) :
    tab.cloneValue pg record clone = some (fieldValue (tab.column i) (tab.fieldAt record i)) := by
  have among := tab.column_mem (Table.source_lt source)
  unfold Table.cloneValue
  rw [source]
  exact Table.valueOf_field (storable.wellFormed _ among)
    (length_slice (laid.inside room among)) (storable.signs _ among)

/-- A column of the row has the value of its clone. -/
theorem cloneRow_col (alone : ∀ other ∈ same, other.col2 = clone.col2 → other = clone)
    (member : clone ∈ same) : tab.cloneRow pg same record clone.col2 =
      tab.cloneValue pg record clone := by
  unfold Table.cloneRow
  cases found : same.find? fun other => other.col2 = clone.col2 with
  | none => exact absurd (decide_eq_true rfl) (List.find?_eq_none.mp found clone member)
  | some other =>
      have named := List.find?_some found
      rw [decide_eq_true_eq] at named
      rw [alone other (List.mem_of_find?_eq_some found) named]
      rfl

/-- What the literals of a statement give a column, when they carry a record. -/
theorem literalAt_cloneRow {entries : List (Clone × List Byte)}
    (carried : ∀ entry ∈ entries, literalValue entry.2 = tab.cloneValue pg record entry.1) :
    literalAt entries = tab.cloneRow pg (entries.map Prod.fst) record := by
  funext name
  unfold literalAt Table.cloneRow
  rw [List.find?_map]
  change _ = ((entries.find? fun entry => entry.1.col2 = name).map Prod.fst).bind _
  cases found : entries.find? fun entry => entry.1.col2 = name with
  | none => rfl
  | some entry => exact carried entry (List.mem_of_find?_eq_some found)

/-- The columns of the primary key are columns of the table. -/
theorem Mapped.inside (mapped : Mapped tab clones) (member : clone ∈ clones) :
    ∀ i ∈ whereColumns tab.keys 0, i < tab.columns.length := by
  intro i key
  obtain ⟨other, _, _, source⟩ := mapped.whole clone member i key
  exact Table.source_lt source

/-- Two records have one key just when they give the clones of the key the same values. -/
theorem Mapped.keyOf_iff (pg : Postgres) (mapped : Mapped tab clones)
    (laid : Contiguous 0 tab.columns) (member : clone ∈ clones) (kept : Storable tab stored)
    (full : totalLen tab.columns ≤ stored.length)
    (storable : Storable tab record) (room : totalLen tab.columns ≤ record.length) :
    tab.keyOf 0 stored = tab.keyOf 0 record ↔ ∀ other ∈ clone.among clones, other.key = 83 →
      tab.cloneValue pg stored other = tab.cloneValue pg record other := by
  rw [keyOf_eq_iff laid (mapped.inside member) full room]
  constructor
  · intro fields other present key
    have among := List.mem_of_mem_filter present
    obtain ⟨i, source⟩ := mapped.sourced other among
    have field : tab.fieldAt stored i = tab.fieldAt record i :=
      fields i ((mapped.keyed other among i source).mp key)
    rw [kept.cloneValue laid full source, storable.cloneValue laid room source, field]
  · intro values i key
    obtain ⟨other, present, target, source⟩ := mapped.whole clone member i key
    have same := values other (List.mem_filter.mpr ⟨present, decide_eq_true target⟩)
      ((mapped.keyed other present i source).mpr key)
    rw [kept.cloneValue laid full source, storable.cloneValue laid room source,
      Option.some_inj] at same
    have among := tab.column_mem (Table.source_lt source)
    exact fieldValue_inj (kept.wellFormed _ among) (length_slice (laid.inside full among))
      (storable.wellFormed _ among) (length_slice (laid.inside room among)) same

end Rows

/-! ## What a statement brings -/

/-- A statement brings a record to the table that some clones belong to. -/
structure SentStatement.Brings (pg : Postgres) (tab : Table) (op : ReplicaOp) (same : List Clone)
    (record : List Byte) (sent : SentStatement) : Prop where
  operation : sent.op = op
  assigned : sent.assigned.map Prod.fst = (statementOf op [] [] same).assigned
  conditions : sent.conditions.map Prod.fst = (statementOf op [] [] same).conditions
  carried : ∀ entry ∈ sent.assigned ++ sent.conditions,
    literalValue entry.2 = tab.cloneValue pg record entry.1

/-- What an operation makes of the records of a table. -/
def ReplicaOp.onRecords (op : ReplicaOp) (tab : Table) (record : List Byte)
    (records : List (List Byte)) : List (List Byte) :=
  match op with
  | .write => records ++ [record.take (totalLen tab.columns)]
  | .rewrite => replace (tab.keyOf 0) (record.take (totalLen tab.columns)) records
  | .delete => remove (tab.keyOf 0) (tab.keyOf 0 record) records

section Brings

variable {pg : Postgres} {tab : Table} {op : ReplicaOp} {clones : List Clone} {clone : Clone}
  {record stored : List Byte} {sent : SentStatement}

/-- A column of a copy has one source. -/
theorem Mapped.alone (mapped : Mapped tab clones) {first other : Clone}
    (member : first ∈ clone.among clones) (present : other ∈ clone.among clones)
    (named : other.col2 = first.col2) : other = first := by
  obtain ⟨among, target⟩ := List.mem_filter.mp member
  obtain ⟨among', target'⟩ := List.mem_filter.mp present
  exact mapped.names first among other among'
    ((of_decide_eq_true target').trans (of_decide_eq_true target).symm) named

/-- The WHERE part by the key selects the rows of the records with the key. -/
theorem SentStatement.Brings.selects (brings : sent.Brings pg tab op (clone.among clones) record)
    (byKey : (statementOf op [] [] (clone.among clones)).conditions =
      (clone.among clones).filter (·.key = 83))
    (mapped : Mapped tab clones) (laid : Contiguous 0 tab.columns) (member : clone ∈ clones)
    (kept : Storable tab stored) (full : totalLen tab.columns ≤ stored.length)
    (storable : Storable tab record) (room : totalLen tab.columns ≤ record.length) :
    sent.selects (tab.cloneRow pg (clone.among clones) stored) =
      decide (tab.keyOf 0 stored = tab.keyOf 0 record) := by
  have conditions := brings.conditions.trans byKey
  rw [Bool.eq_iff_iff, decide_eq_true_iff,
    mapped.keyOf_iff pg laid member kept full storable room]
  unfold SentStatement.selects
  rw [List.all_eq_true]
  constructor
  · intro all other present key
    have inside : other ∈ sent.conditions.map Prod.fst := by
      rw [conditions]
      exact List.mem_filter.mpr ⟨present, decide_eq_true key⟩
    obtain ⟨entry, among, rfl⟩ := List.mem_map.mp inside
    have equal := of_decide_eq_true (Bool.and_eq_true_iff.mp (all entry among)).2
    rw [cloneRow_col (fun _ => mapped.alone present) present] at equal
    exact equal.trans (brings.carried entry (List.mem_append_right _ among))
  · intro values entry among
    have inside : entry.1 ∈ (clone.among clones).filter (·.key = 83) := by
      rw [← conditions]
      exact List.mem_map_of_mem among
    obtain ⟨present, key⟩ := List.mem_filter.mp inside
    have carried := brings.carried entry (List.mem_append_right _ among)
    obtain ⟨i, source⟩ := mapped.sourced entry.1 (List.mem_of_mem_filter present)
    rw [cloneRow_col (fun _ => mapped.alone present) present, carried,
      values entry.1 present (of_decide_eq_true key), storable.cloneValue laid room source]
    rw [Option.isSome_some, Bool.true_and]
    exact decide_eq_true rfl

/-- The SET list and the key make the row of the record. -/
theorem SentStatement.Brings.assigns
    (brings : sent.Brings pg tab .rewrite (clone.among clones) record)
    (mapped : Mapped tab clones) (laid : Contiguous 0 tab.columns) (member : clone ∈ clones)
    (kept : Storable tab stored) (full : totalLen tab.columns ≤ stored.length)
    (storable : Storable tab record) (room : totalLen tab.columns ≤ record.length)
    (key : tab.keyOf 0 stored = tab.keyOf 0 record) :
    (fun name => (literalAt sent.assigned name).or
      (tab.cloneRow pg (clone.among clones) stored name)) =
      tab.cloneRow pg (clone.among clones) record := by
  have values := (mapped.keyOf_iff pg laid member kept full storable room).mp key
  rw [literalAt_cloneRow fun entry among =>
    brings.carried entry (List.mem_append_left _ among), brings.assigned]
  change (fun name => (tab.cloneRow pg ((clone.among clones).filter (·.key = 78)) record name).or
    _) = _
  funext name
  by_cases known : ∃ other ∈ clone.among clones, other.col2 = name
  · obtain ⟨other, present, rfl⟩ := known
    have alone : ∀ next ∈ clone.among clones, next.col2 = other.col2 → next = other :=
      fun _ => mapped.alone present
    rw [cloneRow_col alone present, cloneRow_col alone present]
    by_cases set : other.key = 78
    · obtain ⟨i, source⟩ := mapped.sourced other (List.mem_of_mem_filter present)
      rw [cloneRow_col (fun next among => alone next (List.mem_of_mem_filter among))
        (List.mem_filter.mpr ⟨present, decide_eq_true set⟩), storable.cloneValue laid room source]
      rfl
    · have flag := (mapped.flags other (List.mem_of_mem_filter present)).resolve_left set
      have absent : ((clone.among clones).filter (·.key = 78)).find?
          (fun next => next.col2 = other.col2) = none := by
        rw [List.find?_eq_none]
        intro next among named
        rw [alone next (List.mem_of_mem_filter among) (of_decide_eq_true named)] at among
        exact set (of_decide_eq_true (List.mem_filter.mp among).2)
      unfold Table.cloneRow
      rw [absent]
      exact values other present flag
  · have absent : ∀ list : List Clone, (∀ other ∈ list, other ∈ clone.among clones) →
        ∀ record, tab.cloneRow pg list record name = none := by
      intro list inside record
      unfold Table.cloneRow
      rw [List.find?_eq_none.mpr fun other among named =>
        known ⟨other, inside other among, of_decide_eq_true named⟩]
      rfl
    rw [absent _ fun _ => List.mem_of_mem_filter, absent _ fun _ => id, absent _ fun _ => id]
    rfl

/-- A statement does to the rows of its table what the operation does to the records. -/
theorem SentStatement.Brings.onRows (brings : sent.Brings pg tab op (clone.among clones) record)
    (mapped : Mapped tab clones) (laid : Contiguous 0 tab.columns) (member : clone ∈ clones)
    {records : List (List Byte)}
    (kept : ∀ stored ∈ records, Storable tab stored ∧ totalLen tab.columns ≤ stored.length)
    (storable : Storable tab record) (room : totalLen tab.columns ≤ record.length) :
    sent.onRows (records.map (tab.cloneRow pg (clone.among clones))) =
      (op.onRecords tab record records).map (tab.cloneRow pg (clone.among clones)) := by
  unfold SentStatement.onRows
  rw [brings.operation]
  cases op with
  | write =>
      dsimp only
      unfold ReplicaOp.onRecords
      rw [List.map_append, List.map_singleton, cloneRow_take laid, literalAt_cloneRow
        fun entry among => brings.carried entry (List.mem_append_left _ among), brings.assigned]
      rfl
  | rewrite =>
      dsimp only
      unfold ReplicaOp.onRecords replace
      rw [List.map_map, List.map_map]
      apply List.map_congr_left
      intro stored among
      obtain ⟨own, full⟩ := kept stored among
      simp only [Function.comp_apply]
      rw [brings.selects rfl mapped laid member own full storable room,
        keyOf_take laid (mapped.inside member)]
      by_cases key : tab.keyOf 0 stored = tab.keyOf 0 record
      · rw [if_pos (decide_eq_true key), if_pos key, cloneRow_take laid]
        exact brings.assigns mapped laid member own full storable room key
      · rw [if_neg (by rw [decide_eq_true_eq]; exact key), if_neg key]
  | delete =>
      dsimp only
      unfold ReplicaOp.onRecords remove
      rw [List.filter_map]
      congr 1
      apply List.filter_congr
      intro stored among
      obtain ⟨own, full⟩ := kept stored among
      rw [Function.comp_apply, brings.selects rfl mapped laid member own full storable room]
      exact (decide_not ..).symm

end Brings

/-! ## What a call sends -/

/-- A list that is mapped with answers keeps its order, so that a part of it is mapped to a part of
them. -/
theorem mapM_filter {α β : Type} {f : α → Except Stop β} {p : α → Bool} {q : β → Bool}
    (agree : ∀ a b, f a = .ok b → p a = q b) {list : List α} {results : List β}
    (mapped : list.mapM f = .ok results) : (list.filter p).mapM f = .ok (results.filter q) := by
  rw [mapM_eq_ok] at mapped ⊢
  induction mapped with
  | nil => exact .nil
  | @cons a b list results here _ ih =>
      by_cases part : p a = true
      · rw [List.filter_cons_of_pos part,
          List.filter_cons_of_pos ((agree a b here).symm.trans part)]
        exact .cons here ih
      · rw [List.filter_cons_of_neg part,
          List.filter_cons_of_neg fun other => part ((agree a b here).trans other)]
        exact ih

section Sends

variable {env : Env} {op : ReplicaOp} {clones : List Clone} {clone : Clone} {tab : Table}
  {places : Places} {sent : List SentStatement} {record : List Byte}

/-- The lists of a statement that is sent are those of the statement, with literals. -/
theorem sendClone_ok {statement : CloneStatement} {send : SentStatement}
    (sends : sendClone op tab places statement = .ok send) :
    send.op = op ∧ send.target = statement.target ∧
      send.assigned.map Prod.fst = statement.assigned ∧
      send.conditions.map Prod.fst = statement.conditions := by
  obtain ⟨assigned, first, sends⟩ := bind_eq_ok.mp sends
  obtain ⟨conditions, second, sends⟩ := bind_eq_ok.mp sends
  dsimp only at sends
  split at sends
  · cases sends
  · cases sends
    exact ⟨rfl, rfl, List.map_fst_zip (mapM_eq_ok.mp first).length_eq.le,
      List.map_fst_zip (mapM_eq_ok.mp second).length_eq.le⟩

/-- The table of a clone gets one statement, which brings the record. -/
theorem sends_brings {pg : Postgres} {tab' : Table}
    (sends : (replicaStatements op clones).mapM (sendClone op tab' places) = .ok sent)
    (mapped : Mapped tab clones) (member : clone ∈ clones)
    (carries : ∀ statement ∈ sent, statement.Carries pg tab record) :
    ∃ statement, sent.filter (·.target = clone.target) = [statement] ∧
      statement.Brings pg tab op (clone.among clones) record := by
  have part := mapM_filter (p := fun statement => decide (statement.target = clone.target))
    (q := fun statement => decide (statement.target = clone.target)) (fun statement send sends => by
      rw [(sendClone_ok sends).2.1]) sends
  rw [(mapped.each op).1 clone member] at part
  obtain ⟨statement, here, alone⟩ : ∃ statement, sendClone op tab' places
      (statementOf op clone.schema clone.name (clone.among clones)) = .ok statement ∧
      sent.filter (·.target = clone.target) = [statement] := by
    obtain ⟨statement, rest, here, none_left, alone⟩ :=
      List.forall₂_cons_left_iff.mp (mapM_eq_ok.mp part)
    rw [List.forall₂_nil_left_iff.mp none_left] at alone
    exact ⟨statement, here, alone⟩
  obtain ⟨op', _, assigned, conditions⟩ := sendClone_ok here
  have lists : (statementOf op clone.schema clone.name (clone.among clones)).assigned =
        (statementOf op [] [] (clone.among clones)).assigned ∧
      (statementOf op clone.schema clone.name (clone.among clones)).conditions =
        (statementOf op [] [] (clone.among clones)).conditions := by
    cases op <;> exact ⟨rfl, rfl⟩
  refine ⟨statement, alone, op', assigned.trans lists.1, conditions.trans lists.2, ?_⟩
  intro entry among
  have present : entry.1 ∈ clones := by
    have listed : entry.1 ∈ (statementOf op clone.schema clone.name
        (clone.among clones)).assigned ++ (statementOf op clone.schema clone.name
        (clone.among clones)).conditions := by
      rw [← assigned, ← conditions, ← List.map_append]
      exact List.mem_map_of_mem among
    apply List.mem_of_mem_filter (p := fun other => decide (other.target = clone.target))
    cases op with
    | write => simpa [statementOf, Clone.among] using listed
    | rewrite =>
        simp only [statementOf, List.mem_append] at listed
        exact listed.elim List.mem_of_mem_filter List.mem_of_mem_filter
    | delete => exact List.mem_of_mem_filter listed
  obtain ⟨i, source⟩ := mapped.sourced entry.1 present
  have inSent : statement ∈ sent := by
    apply List.mem_of_mem_filter (p := fun other => decide (other.target = clone.target))
    rw [alone]
    exact List.mem_singleton_self _
  obtain ⟨value, literal, valueOf⟩ := carries statement inSent entry among i source
  rw [literal, Table.cloneValue, source]
  exact valueOf.symm

/-- Statements are sent after an operation that has succeeded, and only then. -/
def SendsFor (op : ReplicaOp) (clones : List Clone) (status : Status)
    (sent : List SentStatement) : Prop :=
  (status = stOk → ∃ tab places,
    (replicaStatements op clones).mapM (sendClone op tab places) = .ok sent) ∧
  (status ≠ stOk → sent = [])

/-- What is sent for an operation goes to each copy of the list. -/
theorem replicate_sendsFor {st : State} (sends : replicate op clones places st = .ok sent) :
    SendsFor op clones st.fcd.status sent := by
  unfold replicate at sends
  by_cases status : st.fcd.status = stOk
  · rw [if_pos status] at sends
    exact ⟨fun _ => ⟨_, _, sends⟩, fun failed => absurd status failed⟩
  · exact ⟨fun done => absurd done status, fun _ => replicate_failed sends status⟩

/-- Nothing is sent for an operation that failed. -/
theorem sendsFor_failed {status : Status} (failed : status ≠ stOk) : SendsFor op clones status [] :=
  ⟨fun done => absurd done failed, fun _ => rfl⟩

variable {sys sys' : Replicated}

/-- WRITE sends to each copy, unless it failed. -/
theorem replicaWrite_sendsFor (wrote : replicaWrite env clones sys = .ok (sent, sys')) :
    SendsFor .write clones sys'.st.fcd.status sent := by
  unfold replicaWrite at wrote
  split at wrote
  · cases wrote
    exact sendsFor_failed (by decide : stNotOpenedWrite ≠ stOk)
  · obtain ⟨st₁, read, wrote⟩ := bind_eq_ok.mp wrote
    split at wrote
    · cases wrote
      exact sendsFor_failed (by decide : stDuplKey ≠ stOk)
    · obtain ⟨st₂, inserted, wrote⟩ := bind_eq_ok.mp wrote
      obtain ⟨_, sends, ended⟩ := bind_eq_ok.mp wrote
      cases ended
      exact replicate_sendsFor sends

/-- DELETE sends to each copy, unless it failed. -/
theorem replicaDelete_sendsFor (deleted : replicaDelete env clones sys = .ok (sent, sys')) :
    SendsFor .delete clones sys'.st.fcd.status sent := by
  unfold replicaDelete at deleted
  split at deleted
  · cases deleted
    exact sendsFor_failed (by decide : stNotOpenedUpdel ≠ stOk)
  · obtain ⟨st₁, read, deleted⟩ := bind_eq_ok.mp deleted
    split at deleted
    · cases deleted
      exact sendsFor_failed (by decide : stRecNotFound ≠ stOk)
    · obtain ⟨_, _, deleted⟩ := bind_eq_ok.mp deleted
      obtain ⟨st₂, removed, deleted⟩ := bind_eq_ok.mp deleted
      obtain ⟨_, sends, ended⟩ := bind_eq_ok.mp deleted
      cases ended
      exact replicate_sendsFor sends

/-- A REWRITE of what the table holds sends nothing. -/
theorem replicaRewrite_sendsFor (rewrote : replicaRewrite env clones sys = .ok (sent, sys')) :
    SendsFor .rewrite clones sys'.st.fcd.status sent ∨
      sent = [] ∧ ∃ st, opReadRandom env false false (sys.st.resetScan.setKeyId 0) = .ok st ∧
        st.fcd.status = stOk ∧ sys.st.fcd.record = st.fcd.record := by
  unfold replicaRewrite at rewrote
  split at rewrote
  · cases rewrote
    exact .inl (sendsFor_failed (by decide : stNotOpenedUpdel ≠ stOk))
  · obtain ⟨st₁, read, rewrote⟩ := bind_eq_ok.mp rewrote
    split at rewrote
    · rename_i missing
      cases rewrote
      exact .inl (sendsFor_failed missing)
    · rename_i found
      split at rewrote
      · rename_i same
        cases rewrote
        exact .inr ⟨rfl, st₁, read, not_not.mp found, same⟩
      · obtain ⟨_, _, rewrote⟩ := bind_eq_ok.mp rewrote
        obtain ⟨st₂, updated, rewrote⟩ := bind_eq_ok.mp rewrote
        obtain ⟨_, sends, ended⟩ := bind_eq_ok.mp rewrote
        cases ended
        exact .inl (replicate_sendsFor sends)

end Sends

/-! ## Runs -/

/-- The record area has a record that the table can keep, or for READ and DELETE the fields of a
key. -/
def TableCall.Fits (call : TableCall) (tab : Table) : Prop :=
  match call.op with
  | .read _ => call.fcd.keyId < tab.keys.length ∧ KeyOk tab call.fcd.keyId call.fcd.record
  | .change .delete => call.fcd.keyId = 0 ∧ KeyOk tab 0 call.fcd.record
  | .change _ => Storable tab call.fcd.record

/-- What is asked of a call: the file is open, and nothing else has changed the rows of the
table. -/
structure TableCall.Proper (call : TableCall) (sys : Replicated) : Prop where
  opened : call.fcd.openMode ≠ 128
  room : totalLen sys.st.tab.columns ≤ call.fcd.record.length
  running : call.conn.aborted = false
  rows : call.conn.working sys.st.tab.relation = sys.st.conn.working sys.st.tab.relation
  area : call.Fits sys.st.tab

/-- The table stands for some records, and each table of the other database has the rows that its
clones make of them. -/
structure Copies (env : Env) (clones : List Clone) (sys : Replicated) (db : OtherDb)
    (records : List (List Byte)) : Prop where
  server : KeyedServer env.pg sys.st.tab.relation sys.st.tab.keys
  mapped : Mapped sys.st.tab clones
  keyed : KeyedState sys.st records
  kept : ∀ record ∈ records, Storable sys.st.tab record
  rows : ∀ clone ∈ clones,
    db clone.target = records.map (sys.st.tab.cloneRow env.pg (clone.among clones))

/-- The row of a copy depends on the shape of the table alone. -/
theorem SameShape.cloneRow {tab tab' : Table} (same : SameShape tab tab') (pg : Postgres)
    (list : List Clone) : tab'.cloneRow pg list = tab.cloneRow pg list := by
  unfold Table.cloneRow Table.cloneValue Table.source Table.valueOf Table.fieldAt Table.column
    Table.chave
  rw [same.columns, same.keys]

/-- A list that maps a table maps each of the same shape. -/
theorem SameShape.mapped {tab tab' : Table} (same : SameShape tab tab') {clones : List Clone}
    (mapped : Mapped tab clones) : Mapped tab' clones := by
  have source : tab'.source = tab.source := by
    unfold Table.source
    rw [same.columns]
  refine ⟨mapped.each, ?_, mapped.names, mapped.flags, ?_, ?_, mapped.sets⟩
  · rw [source]
    exact mapped.sourced
  · rw [source, same.keys]
    exact mapped.keyed
  · rw [source, same.keys]
    exact mapped.whole

/-- The fields of a record are in the bytes of the columns. -/
theorem storable_take_iff {tab : Table} (table : KeyedTable tab) (record : List Byte) :
    Storable tab (record.take (totalLen tab.columns)) ↔ Storable tab record := by
  have field : ∀ col ∈ tab.columns, slice (record.take (totalLen tab.columns)) col.offset col.len =
      slice record col.offset col.len := fun _ among => slice_take_totalLen table.laid record among
  have wellFormed : RecordOk tab.columns (record.take (totalLen tab.columns)) ↔
      RecordOk tab.columns record := by
    apply forall₂_congr
    intro col among
    rw [field col among]
  have keyed : KeyOk tab 0 (record.take (totalLen tab.columns)) ↔ KeyOk tab 0 record := by
    apply forall₂_congr
    intro i key
    rw [field _ (tab.column_mem (table.positions key))]
  have signs : (∀ col ∈ tab.columns, col.tp = .numeric →
        SignFits (slice (record.take (totalLen tab.columns)) col.offset col.len)) ↔
      ∀ col ∈ tab.columns, col.tp = .numeric → SignFits (slice record col.offset col.len) := by
    apply forall₂_congr
    intro col among
    rw [field col among]
  exact ⟨fun all => ⟨wellFormed.mp all.wellFormed, signs.mp all.signs, keyed.mp all.keyed⟩,
    fun all => ⟨wellFormed.mpr all.wellFormed, signs.mpr all.signs, keyed.mpr all.keyed⟩⟩

section Runs

variable {env : Env} {clones : List Clone} {sys : Replicated} {db : OtherDb}
  {records : List (List Byte)} {call : TableCall}

/-- A proper call finds the table with its records. -/
theorem Copies.on (copies : Copies env clones sys db records) (proper : call.Proper sys) :
    KeyedState (call.on sys).st records where
  table := copies.keyed.table
  opened := proper.opened
  room := proper.room
  running := proper.running
  present := proper.rows.trans copies.keyed.present
  recordOf := copies.keyed.recordOf
  distinct := copies.keyed.distinct

/-- The table stands for other records, and the other database has followed. -/
theorem Copies.moves (copies : Copies env clones sys db records) (proper : call.Proper sys)
    {sys' : Replicated} {status : Status} {area : List Byte} {records' : List (List Byte)}
    (moves : Moves (call.on sys).st sys'.st status area
      (records'.map (rowOf sys.st.tab.columns)))
    (room : totalLen sys.st.tab.columns ≤ area.length)
    (recordOf : ∀ record ∈ records', RecordOf sys.st.tab.columns record)
    (distinct : (records'.map (sys.st.tab.keyOf 0)).Nodup)
    (kept : ∀ record ∈ records', Storable sys.st.tab record) {db' : OtherDb}
    (rows : ∀ clone ∈ clones,
      db' clone.target = records'.map (sys.st.tab.cloneRow env.pg (clone.among clones))) :
    Copies env clones sys' db' records' := by
  have same : SameShape sys.st.tab sys'.st.tab := ⟨moves.columns, moves.keys⟩
  exact
    { server := moves.server copies.server
      mapped := same.mapped copies.mapped
      keyed := (copies.on proper).moves moves room recordOf distinct
      kept := fun record member => (kept record member).congr moves.columns moves.keys
      rows := by
        intro clone member
        rw [same.cloneRow]
        exact rows clone member }

/-- A call that sends nothing and leaves the records. -/
theorem Copies.stay (copies : Copies env clones sys db records) (proper : call.Proper sys)
    {sys' : Replicated} {status : Status} {area : List Byte}
    (moves : Moves (call.on sys).st sys'.st status area (records.map (rowOf sys.st.tab.columns)))
    (room : totalLen sys.st.tab.columns ≤ area.length) : Copies env clones sys' db records :=
  copies.moves proper moves room copies.keyed.recordOf copies.keyed.distinct copies.kept copies.rows

/-- The statements of an operation do to the other database what the operation does to the
records. -/
theorem Copies.sent (copies : Copies env clones sys db records) {op : ReplicaOp} {tab : Table}
    {places : Places} {sent : List SentStatement} {record : List Byte}
    (sends : (replicaStatements op clones).mapM (sendClone op tab places) = .ok sent)
    (carries : ∀ statement ∈ sent, statement.Carries env.pg sys.st.tab record)
    (storable : Storable sys.st.tab record) (room : totalLen sys.st.tab.columns ≤ record.length) :
    ∀ clone ∈ clones, sent.foldl OtherDb.execute db clone.target =
      (op.onRecords sys.st.tab record records).map
        (sys.st.tab.cloneRow env.pg (clone.among clones)) := by
  intro clone member
  obtain ⟨statement, alone, brings⟩ := sends_brings sends copies.mapped member carries
  rw [foldl_execute, alone, List.foldl_cons, List.foldl_nil, copies.rows clone member]
  exact brings.onRows copies.mapped copies.keyed.table.laid member
    (fun stored among => ⟨copies.kept stored among, (copies.keyed.recordOf stored among).full.ge⟩)
    storable room

end Runs

section Steps

variable {env : Env} {clones : List Clone} {sys sys' : Replicated} {db : OtherDb}
  {records : List (List Byte)} {conn : Conn} {fcd : Fcd} {sent : List SentStatement}

/-- A record found, put over the record area, is as long as the columns. -/
theorem Copies.area (copies : Copies env clones sys db records) {stored : List Byte}
    (member : stored ∈ records) (rest : List Byte) :
    totalLen sys.st.tab.columns ≤ (stored ++ rest).length ∧
      (stored ++ rest).take (totalLen sys.st.tab.columns) = stored := by
  have full := (copies.keyed.recordOf stored member).full
  refine ⟨?_, List.take_left' full⟩
  rw [List.length_append, full]
  exact Nat.le_add_right ..

/-- READ keeps the copies what they are. -/
theorem Copies.read (copies : Copies env clones sys db records) {withLock : Bool}
    (proper : TableCall.Proper ⟨.read withLock, conn, fcd⟩ sys)
    (ran : replicaRead env withLock ⟨sys.st.between conn fcd, sys.places⟩ = .ok (sent, sys')) :
    Copies env clones sys' (sent.foldl OtherDb.execute db) records := by
  obtain ⟨st, read, ended⟩ := bind_eq_ok.mp ran
  cases ended
  obtain ⟨known, probe⟩ := proper.area
  have server : KeyedServer env.pg (sys.st.between conn fcd).tab.relation
    (sys.st.between conn fcd).tab.keys := copies.server
  obtain ⟨_, read', outcome⟩ :=
    opReadRandom_keyed withLock server (copies.on proper) known probe
  obtain rfl := Except.ok.inj (read.symm.trans read')
  split at outcome
  · rename_i stored found
    exact copies.stay proper outcome (copies.area (mem_of_ofList found).1 _).1
  · exact copies.stay proper outcome proper.room

/-- WRITE keeps each copy the image of its table. -/
theorem Copies.write (copies : Copies env clones sys db records)
    (proper : TableCall.Proper ⟨.change .write, conn, fcd⟩ sys)
    (current : ReplicaOp.write.Current env clones ⟨sys.st.between conn fcd, sys.places⟩)
    (ran : replicaWrite env clones ⟨sys.st.between conn fcd, sys.places⟩ = .ok (sent, sys')) :
    ∃ records', Copies env clones sys' (sent.foldl OtherDb.execute db) records' := by
  have storable : Storable sys.st.tab fcd.record := proper.area
  have table := copies.keyed.table
  have server : KeyedServer env.pg (sys.st.between conn fcd).tab.relation
    (sys.st.between conn fcd).tab.keys := copies.server
  obtain ⟨_, wrote, outcome⟩ := opWrite_keyed server (copies.on proper) storable
  obtain rfl := Except.ok.inj (wrote.symm.trans (replicaWrite_ok ran))
  obtain ⟨sends, silent⟩ := replicaWrite_sendsFor ran
  cases found : ofList ((sys.st.between conn fcd).tab.keyOf 0) records
      ((sys.st.between conn fcd).tab.keyOf 0 (sys.st.between conn fcd).fcd.record) with
  | some stored =>
      rw [found] at outcome
      rw [silent (by rw [outcome.fcd]; exact (by decide : stDuplKey ≠ stOk))]
      exact ⟨records, copies.stay proper outcome (copies.area (mem_of_ofList found).1 _).1⟩
  | none =>
      rw [found] at outcome
      obtain ⟨tab, places, sends⟩ := sends (by rw [outcome.fcd])
      have carries := replicaWrite_carries ran current
      have new := storable.wellFormed.take table.laid proper.room
      have fresh : ofList (sys.st.tab.keyOf 0) records (sys.st.tab.keyOf 0 fcd.record) = none :=
        found
      rw [← table.keyOf_take] at fresh
      refine ⟨_, copies.moves proper outcome proper.room ?_
        (nodup_append _ copies.keyed.distinct fresh) ?_
        (copies.sent sends carries storable proper.room)⟩
      · intro record member
        rcases List.mem_append.mp member with old | added
        · exact copies.keyed.recordOf record old
        · rw [List.mem_singleton.mp added]
          exact new
      · intro record member
        rcases List.mem_append.mp member with old | added
        · exact copies.kept record old
        · rw [List.mem_singleton.mp added]
          exact (storable_take_iff table _).mpr storable

/-- What a REWRITE that sends nothing is asked to write is what the table holds. -/
theorem Copies.unchanged (copies : Copies env clones sys db records)
    (proper : TableCall.Proper ⟨.change .rewrite, conn, fcd⟩ sys)
    (probe : KeyOk sys.st.tab 0 fcd.record) {stored : List Byte}
    (found : ofList (sys.st.tab.keyOf 0) records (sys.st.tab.keyOf 0 fcd.record) = some stored)
    {st : State} (read : opReadRandom env false false
      ((sys.st.between conn fcd).resetScan.setKeyId 0) = .ok st)
    (same : fcd.record = st.fcd.record) :
    fcd.record.take (totalLen sys.st.tab.columns) = stored := by
  have server : KeyedServer env.pg ((sys.st.between conn fcd).resetScan.setKeyId 0).tab.relation
    ((sys.st.between conn fcd).resetScan.setKeyId 0).tab.keys := copies.server
  obtain ⟨_, read', outcome⟩ := opReadRandom_keyed false server
    ((copies.on proper).resetScan.setKeyId 0) copies.keyed.table.primary probe
  obtain rfl := Except.ok.inj (read.symm.trans read')
  have here : ofList
      (((sys.st.between conn fcd).resetScan.setKeyId 0).tab.keyOf
        ((sys.st.between conn fcd).resetScan.setKeyId 0).fcd.keyId) records
      (((sys.st.between conn fcd).resetScan.setKeyId 0).tab.keyOf
        ((sys.st.between conn fcd).resetScan.setKeyId 0).fcd.keyId
        ((sys.st.between conn fcd).resetScan.setKeyId 0).fcd.record) = some stored := found
  rw [here] at outcome
  have area : fcd.record = stored ++ fcd.record.drop (totalLen sys.st.tab.columns) := by
    refine same.trans ?_
    rw [outcome.fcd]
    rfl
  rw [area]
  exact (copies.area (mem_of_ofList found).1 _).2

/-- REWRITE keeps each copy the image of its table. -/
theorem Copies.rewrite (copies : Copies env clones sys db records)
    (proper : TableCall.Proper ⟨.change .rewrite, conn, fcd⟩ sys)
    (current : ReplicaOp.rewrite.Current env clones ⟨sys.st.between conn fcd, sys.places⟩)
    (ran : replicaRewrite env clones ⟨sys.st.between conn fcd, sys.places⟩ = .ok (sent, sys')) :
    ∃ records', Copies env clones sys' (sent.foldl OtherDb.execute db) records' := by
  have storable : Storable sys.st.tab fcd.record := proper.area
  have table := copies.keyed.table
  have server : KeyedServer env.pg (sys.st.between conn fcd).tab.relation
    (sys.st.between conn fcd).tab.keys := copies.server
  obtain ⟨done, _, rewrote, outcome⟩ := opRewrite_keyed server (copies.on proper) storable
  obtain ⟨_, again⟩ := replicaRewrite_ok ran
  obtain ⟨rfl, rfl⟩ := Prod.mk.inj (Except.ok.inj (rewrote.symm.trans again))
  cases found : ofList ((sys.st.between conn fcd).tab.keyOf 0) records
      ((sys.st.between conn fcd).tab.keyOf 0 (sys.st.between conn fcd).fcd.record) with
  | none =>
      rw [found] at outcome
      have quiet : sent = [] := by
        rcases replicaRewrite_sendsFor ran with ⟨_, silent⟩ | ⟨quiet, _⟩
        · exact silent (by rw [outcome.2.fcd]; exact (by decide : stRecNotFound ≠ stOk))
        · exact quiet
      rw [quiet]
      exact ⟨records, copies.stay proper outcome.2 proper.room⟩
  | some stored =>
      rw [found] at outcome
      have new := storable.wellFormed.take table.laid proper.room
      refine ⟨_, copies.moves proper outcome.2 proper.room ?_ ?_ ?_ ?_⟩
      · intro record member
        rcases mem_replace member with rfl | old
        · exact new
        · exact copies.keyed.recordOf record old
      · change ((replace (sys.st.tab.keyOf 0) _ records).map (sys.st.tab.keyOf 0)).Nodup
        rw [map_key_replace]
        exact copies.keyed.distinct
      · intro record member
        rcases mem_replace member with rfl | old
        · exact (storable_take_iff table _).mpr storable
        · exact copies.kept record old
      · rcases replicaRewrite_sendsFor ran with ⟨sends, _⟩ | ⟨quiet, st, read, fine, same⟩
        · obtain ⟨tab, places, sends⟩ := sends (by rw [outcome.2.fcd])
          exact copies.sent sends (replicaRewrite_carries ran current) storable proper.room
        · change ∀ clone ∈ clones, _ = List.map _
            (replace (sys.st.tab.keyOf 0) (fcd.record.take (totalLen sys.st.tab.columns)) records)
          rw [quiet, copies.unchanged proper storable.keyed found read same,
            replace_self copies.keyed.distinct (mem_of_ofList found).1]
          exact copies.rows

/-- DELETE keeps each copy the image of its table. -/
theorem Copies.delete (copies : Copies env clones sys db records)
    (proper : TableCall.Proper ⟨.change .delete, conn, fcd⟩ sys)
    (current : ReplicaOp.delete.Current env clones ⟨sys.st.between conn fcd, sys.places⟩)
    (ran : replicaDelete env clones ⟨sys.st.between conn fcd, sys.places⟩ = .ok (sent, sys')) :
    ∃ records', Copies env clones sys' (sent.foldl OtherDb.execute db) records' := by
  obtain ⟨primary, probe⟩ := proper.area
  have table := copies.keyed.table
  have server : KeyedServer env.pg (sys.st.between conn fcd).tab.relation
    (sys.st.between conn fcd).tab.keys := copies.server
  obtain ⟨_, deleted, outcome⟩ := opDelete_keyed server (copies.on proper) primary probe
  obtain rfl := Except.ok.inj (deleted.symm.trans (replicaDelete_ok ran))
  obtain ⟨sends, silent⟩ := replicaDelete_sendsFor ran
  cases found : ofList ((sys.st.between conn fcd).tab.keyOf 0) records
      ((sys.st.between conn fcd).tab.keyOf 0 (sys.st.between conn fcd).fcd.record) with
  | none =>
      rw [found] at outcome
      rw [silent (by rw [outcome.fcd]; exact (by decide : stRecNotFound ≠ stOk))]
      exact ⟨records, copies.stay proper outcome proper.room⟩
  | some stored =>
      rw [found] at outcome
      obtain ⟨tab, places, sends⟩ := sends (by rw [outcome.fcd])
      obtain ⟨member, key⟩ := mem_of_ofList found
      have key : sys.st.tab.keyOf 0 stored = sys.st.tab.keyOf 0 fcd.record := key
      obtain ⟨room, taken⟩ := copies.area member (fcd.record.drop (totalLen sys.st.tab.columns))
      have carries := replicaDelete_carries ran current
      rw [outcome.fcd] at carries
      change ∀ statement ∈ sent, statement.Carries env.pg sys.st.tab
        (stored ++ fcd.record.drop (totalLen sys.st.tab.columns)) at carries
      have storable : Storable sys.st.tab
          (stored ++ fcd.record.drop (totalLen sys.st.tab.columns)) := by
        rw [← storable_take_iff table, taken]
        exact copies.kept stored member
      have same : sys.st.tab.keyOf 0 (stored ++ fcd.record.drop (totalLen sys.st.tab.columns)) =
          sys.st.tab.keyOf 0 fcd.record := by
        rw [← table.keyOf_take, taken, key]
      have rows := copies.sent sends carries storable room
      unfold ReplicaOp.onRecords at rows
      dsimp only at rows
      rw [same] at rows
      exact ⟨_, copies.moves proper outcome room
        (fun record among => copies.keyed.recordOf record (List.mem_of_mem_filter among))
        (nodup_remove _ copies.keyed.distinct)
        (fun record among => copies.kept record (List.mem_of_mem_filter among)) rows⟩

/-- A call on the table is followed by the other database. -/
theorem Copies.step (copies : Copies env clones sys db records) {call : TableCall}
    {answer : Replica} {trace : List (TableCall × Replica)} (proper : call.Proper sys)
    (pointed : Pointed env clones trace sys call)
    (stepped : replicaStep env clones sys call answer sys') :
    ∃ records', Copies env clones sys' (answer.sent.foldl OtherDb.execute db) records' := by
  obtain ⟨op, conn, fcd⟩ := call
  obtain ⟨ran, _⟩ := stepped
  cases op with
  | read withLock => exact ⟨records, copies.read proper ran⟩
  | change op =>
      cases op with
      | write => exact copies.write proper pointed ran
      | rewrite => exact copies.rewrite proper pointed ran
      | delete => exact copies.delete proper pointed ran

end Steps

/-- After every run of READ, WRITE, REWRITE and DELETE in which the statements of the clones are
those of the record, each table of the other database holds the records of the table as its clones
map them, when it held them before. -/
theorem clones_follow (env : Env) (clones : List Clone) (initial sys : Replicated)
    (trace : List (TableCall × Replica)) (db : OtherDb) (records : List (List Byte))
    (first : Copies env clones initial db records)
    (run : Run (replicaStep env clones)
      (fun trace sys call => Pointed env clones trace sys call ∧ call.Proper sys) initial trace
      sys) :
    ∃ records', Copies env clones sys (db.after trace) records' := by
  induction run with
  | begin => exact ⟨records, first⟩
  | called _ allowed stepped ih =>
      obtain ⟨records', copies⟩ := ih
      exact copies.step allowed.2 allowed.1 stepped

/-! ## The clones of the table of balances -/

instance (tab : Table) : (call : TableCall) → Decidable (call.Fits tab)
  | ⟨.read _, _, fcd⟩ =>
      inferInstanceAs (Decidable (fcd.keyId < tab.keys.length ∧ KeyOk tab fcd.keyId fcd.record))
  | ⟨.change .write, _, fcd⟩ => inferInstanceAs (Decidable (Storable tab fcd.record))
  | ⟨.change .rewrite, _, fcd⟩ => inferInstanceAs (Decidable (Storable tab fcd.record))
  | ⟨.change .delete, _, fcd⟩ =>
      inferInstanceAs (Decidable (fcd.keyId = 0 ∧ KeyOk tab 0 fcd.record))

instance (call : TableCall) (sys : Replicated) : Decidable (call.Proper sys) :=
  decidable_of_iff (call.fcd.openMode ≠ 128 ∧
      totalLen sys.st.tab.columns ≤ call.fcd.record.length ∧ call.conn.aborted = false ∧
      call.conn.working sys.st.tab.relation = sys.st.conn.working sys.st.tab.relation ∧
      call.Fits sys.st.tab)
    ⟨fun ⟨opened, room, running, rows, area⟩ => ⟨opened, room, running, rows, area⟩,
      fun proper => ⟨proper.opened, proper.room, proper.running, proper.rows, proper.area⟩⟩

/-- The table of balances, just opened, with one balance. -/
def clonedBalances : Replicated where
  st := { balances [[.num 1, .num 7]] [49, 48, 48, 48] with
    tab := Table.opened 1 1 0 [] balanceColumns [[0]] 0 (clearBuffers maxCols) }
  places := fun _ => none

/-- The other database, with the same balance. -/
def balanceCopies : OtherDb := fun _ =>
  [clonedBalances.st.tab.cloneRow plainServer.pg balanceClones [49, 48, 55, 48]]

/-- The copies of the balances map their columns. -/
theorem balanceClones_mapped : Mapped clonedBalances.st.tab balanceClones where
  each := oneStatementEach_iff.mpr ⟨by unfold OneSchema; decide +kernel,
    fun _ => rfl, fun member => (List.not_mem_nil member).elim, trivial⟩
  sourced := by
    intro clone member
    rcases List.mem_pair.mp member with rfl | rfl
    · exact ⟨0, by decide +kernel⟩
    · exact ⟨1, by decide +kernel⟩
  names := by decide +kernel
  flags := by decide +kernel
  keyed := by
    intro clone member i source
    rcases List.mem_pair.mp member with rfl | rfl
    · obtain rfl := Option.some.inj
        ((by decide +kernel : clonedBalances.st.tab.source _ = some 0).symm.trans source)
      decide
    · obtain rfl := Option.some.inj
        ((by decide +kernel : clonedBalances.st.tab.source _ = some 1).symm.trans source)
      decide
  whole := by
    intro clone member i key
    obtain rfl := List.mem_singleton.mp key
    refine ⟨balanceClones.head (by decide), by decide, ?_, by decide +kernel⟩
    rcases List.mem_pair.mp member with rfl | rfl <;> rfl
  sets := by decide +kernel

/-- The copies hold what the balances do at the start. -/
theorem balanceCopies_hold : Copies plainServer balanceClones clonedBalances balanceCopies
    [[49, 48, 55, 48]] where
  server := ⟨fun _ _ _ _ _ _ => rfl, fun _ _ => rfl⟩
  mapped := balanceClones_mapped
  keyed :=
    { table :=
        { laid := by decide
          few := by decide
          short := by decide
          size := List.length_replicate
          count := by decide
          primary := by decide
          keys := by decide
          once := by decide
          flags := by decide
          whole := by decide
          prepared := nofun }
      opened := (by decide : 2 ≠ 128)
      room := (by decide : totalLen balanceColumns ≤ 4)
      running := rfl
      present := congrArg some (by decide +kernel : [[Value.num 1, Value.num 7]] =
        [[49, 48, 55, 48]].map (rowOf balanceColumns))
      recordOf := by
        intro record member
        rw [List.mem_singleton.mp member]
        exact ⟨by decide, (by decide +kernel : RecordOk balanceColumns [49, 48, 55, 48])⟩
      distinct := List.nodup_singleton _ }
  kept := by
    intro record member
    rw [List.mem_singleton.mp member]
    exact (by decide +kernel : Storable clonedBalances.st.tab [49, 48, 55, 48])
  rows := by
    intro clone member
    have among : clone.among balanceClones = balanceClones := by
      rcases List.mem_pair.mp member with rfl | rfl <;> decide +kernel
    rw [among]
    rfl

/-- A WRITE and the DELETE of the other record send a statement each. -/
theorem clones_follow_balances : ∃ trace sys records',
    (trace.map fun entry => entry.2.sent.length) = [1, 1] ∧
      Copies plainServer balanceClones sys (balanceCopies.after trace) records' := by
  obtain ⟨⟨trace, sys⟩, made, sent⟩ := Option.map_eq_some_iff.mp (by decide +kernel :
    (execute (replicated plainServer balanceClones)
      (fun trace sys call => decide (Pointed plainServer balanceClones trace sys call ∧
        call.Proper sys))
      [balanceCall .write [[.num 1, .num 7]] [50, 48, 51, 48],
        balanceCall .delete [[.num 1, .num 7], [.num 2, .num 3]] [49, 48, 48, 48]]
      ([], clonedBalances)).map (fun result => result.1.map fun entry => entry.2.sent.length) =
      some [1, 1])
  have run := (execute_run _ _ replicated_step (fun _ _ _ allowed => of_decide_eq_true allowed) _
    .begin made).1
  obtain ⟨records', copies⟩ := clones_follow plainServer balanceClones clonedBalances sys trace
    balanceCopies _ balanceCopies_hold run
  exact ⟨trace, sys, records', sent, copies⟩

end Pqfh
