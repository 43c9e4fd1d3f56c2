import Pqfh.Sync.CmpSpec

/-! # The clones of a table

A table may be replicated to tables of another database. The replica file, an indexed file,
has a record for each column replicated: the table, the column, the schema, the table and the
column of the other database, whether the column is part of the key there, and a flag.
`get_clones` collects the records of a table, and each operation on the table sends one
statement for each run of clones with one table name.

`get_clones` is modelled with the second connection and the replica file open.
-/

namespace Pqfh

/-- `clone_t` -/
structure Clone where
  col1 : List Byte
  schema : List Byte
  name : List Byte
  col2 : List Byte
  key : Byte
  concat : Byte
  deriving Repr, DecidableEq

/-- A name copied from the record area: what stands before the first blank. -/
def copyName (area : List Byte) (pos : ℕ) : Except Stop (List Byte) :=
  if pos + maxNameLen ≤ area.length then
    .ok ((cstr (slice area pos maxNameLen)).takeWhile (· ≠ 32))
  else .error .undefined

/-- `*(fcd.record+pos)` -/
def copyFlag (area : List Byte) (pos : ℕ) : Except Stop Byte :=
  match area[pos]? with
  | some flag => .ok flag
  | none => .error .undefined

/-- The clone that `get_clones` takes from its record area. -/
def readClone (area : List Byte) : Except Stop Clone := do
  let col1 ← copyName area (maxNameLen + 3)
  let schema ← copyName area (maxNameLen + 3 + maxNameLen)
  let name ← copyName area (maxNameLen + 3 + maxNameLen + maxNameLen)
  let col2 ← copyName area (maxNameLen + 3 + maxNameLen + maxNameLen + maxNameLen)
  let key ← copyFlag area (maxNameLen + 3 + maxNameLen + maxNameLen + maxNameLen + maxNameLen)
  let concat ←
    copyFlag area (maxNameLen + 3 + maxNameLen + maxNameLen + maxNameLen + maxNameLen + 1)
  .ok ⟨col1, schema, name, col2, key, concat⟩

variable {σ : Type}

/-- The loop of `get_clones`. The area has one byte more than a record, a NUL; the first
argument bounds the turns of the loop. -/
def cloneLoop (extfh : Extfh σ) : ℕ → σ → Fcd → Except Stop (List Clone)
  | 0, _, _ => .ok []
  | turns + 1, files, fcd =>
      let read := extfh .readNext files fcd
      if read.2.status ≠ stOk then .ok []
      else do
        let clone ← readClone (read.2.record ++ [0])
        let clones ← cloneLoop extfh turns read.1 read.2
        .ok (clone :: clones)

/-- `get_clones`, with the fcd of the replica file. -/
def getClones (extfh : Extfh σ) (turns : ℕ) (files : σ) (fcd : Fcd) (tabname : List Byte) :
    Except Stop (List Clone) := do
  let area ← writeAt (List.replicate 156 0) 0 tabname
  let started := extfh (.start .ge) files { fcd with record := area.take 155 }
  cloneLoop extfh turns started.1 started.2

/-! ## The replica file -/

/-- A name in a record of the replica file. -/
def nameAt (record : List Byte) (pos : ℕ) : List Byte :=
  (cstr (slice record pos 30)).takeWhile (· ≠ 32)

/-- The clone that a record of the replica file describes. -/
def mapping (record : List Byte) : Clone where
  col1 := nameAt record 33
  schema := nameAt record 63
  name := nameAt record 93
  col2 := nameAt record 123
  key := record.getD 153 0
  concat := record.getD 154 0

/-- The clones of a table, in the order of the file. -/
def mappings (records : List (List Byte)) (tabname : List Byte) : List Clone :=
  (records.filter fun record => nameAt record 0 = tabname).map mapping

/-- The key that START looks for: the name, filled with NULs. -/
def probe (tabname : List Byte) : List Byte := (tabname ++ List.replicate 33 0).take 33

/-- The replica file as `EXTFH` serves it: after START with a key, READ NEXT gives the records
whose key is not less, in their order, and then something else than success. -/
structure ReplicaFile (extfh : Extfh σ) (files : σ) (records : List (List Byte)) : Prop where
  lengths : ∀ record ∈ records, record.length = 155
  start : ∀ fcd : Fcd,
    IsamReads extfh (extfh (.start .ge) files fcd).1 (extfh (.start .ge) files fcd).2
      (records.filter fun record => fcd.record.take 33 ≤ record.take 33)

/-- The third name of a record of 155 bytes lies behind the area. -/
theorem readClone_undefined {record : List Byte} (length : record.length = 155) :
    readClone (record ++ [0]) = .error .undefined := by
  have size : (record ++ [0]).length = 156 := by rw [List.length_append, length]; rfl
  have inside (pos : ℕ) (room : pos + 50 ≤ 156) :
      copyName (record ++ [0]) pos = .ok ((cstr (slice (record ++ [0]) pos maxNameLen)).takeWhile
        (· ≠ 32)) := by
    rw [copyName, if_pos (by rw [size]; exact room)]
  have outside : copyName (record ++ [0]) (maxNameLen + 3 + maxNameLen + maxNameLen) =
      .error .undefined := by
    rw [copyName, if_neg (by rw [size]; decide)]
  rw [readClone, inside _ (by decide), ok_bind, inside _ (by decide), ok_bind, outside,
    error_bind]

/-- The loop ends on an empty file, and overruns its buffer at the first record. -/
theorem cloneLoop_eq {extfh : Extfh σ} {records : List (List Byte)}
    (lengths : ∀ record ∈ records, record.length = 155) {files : σ} {fcd : Fcd} {turns : ℕ}
    (reads : IsamReads extfh files fcd records) (enough : records.length < turns) :
    cloneLoop extfh turns files fcd = if records = [] then .ok [] else .error .undefined := by
  obtain ⟨turns, rfl⟩ : ∃ less, turns = less + 1 := ⟨turns - 1, by omega⟩
  cases records with
  | nil =>
      rw [cloneLoop, if_pos rfl]
      exact if_pos reads
  | cons record records =>
      obtain ⟨status, area, -⟩ := reads
      rw [cloneLoop, if_neg (List.cons_ne_nil _ _)]
      simp only [status, ne_eq, not_true_eq_false, ↓reduceIte]
      rw [area, readClone_undefined (lengths record List.mem_cons_self), error_bind]

/-- A record of a table is not before the key that START looks for. -/
theorem probe_le {record tabname : List Byte} (length : record.length = 155)
    (named : nameAt record 0 = tabname) : probe tabname ≤ record.take 33 := by
  have size : tabname.length ≤ 30 := by
    rw [← named]
    refine (List.takeWhile_prefix _).length_le.trans ((length_cstr_le _).trans ?_)
    rw [slice, List.length_take]
    exact Nat.min_le_left _ _
  have front : record.take tabname.length = tabname := by
    have first : tabname <+: record := by
      rw [← named]
      refine (List.takeWhile_prefix _).trans ((List.takeWhile_prefix _).trans ?_)
      rw [slice, List.drop_zero]
      exact List.take_prefix 30 record
    exact (List.prefix_iff_eq_take.mp first).symm
  have split : record.take 33 =
      tabname ++ (record.drop tabname.length).take (33 - tabname.length) := by
    conv_lhs => rw [← List.take_append_drop tabname.length record, front]
    rw [List.take_append, List.take_of_length_le (by omega)]
  have room : ((record.drop tabname.length).take (33 - tabname.length)).length =
      33 - tabname.length := by
    rw [List.length_take, List.length_drop]
    omega
  rw [split, probe, List.take_append, List.take_of_length_le (by omega), List.take_replicate,
    Nat.min_eq_left (by omega)]
  conv_lhs => rw [← room]
  exact append_le_append tabname (replicate_zero_le _)

/-- Records that all stand before the table give it no mapping. -/
theorem mappings_eq_nil {records : List (List Byte)} {tabname : List Byte}
    (lengths : ∀ record ∈ records, record.length = 155)
    (before : ∀ record ∈ records, record.take 33 < probe tabname) :
    mappings records tabname = [] := by
  unfold mappings
  rw [List.map_eq_nil_iff, List.filter_eq_nil_iff]
  intro record member
  rw [decide_eq_true_eq]
  intro named
  exact absurd (probe_le (lengths record member) named) (not_le_of_gt (before record member))

/-- `get_clones` gives the clones of a table exactly when it reads no record. -/
theorem getClones_iff {extfh : Extfh σ} {files : σ} {records : List (List Byte)}
    (file : ReplicaFile extfh files records) {turns : ℕ} (enough : records.length < turns)
    (fcd : Fcd) {tabname : List Byte} (short : tabname.length ≤ 50) :
    getClones extfh turns files fcd tabname = .ok (mappings records tabname) ↔
      ∀ record ∈ records, record.take 33 < probe tabname := by
  have written : writeAt (List.replicate 156 0) 0 tabname =
      .ok (tabname ++ List.replicate (156 - tabname.length) 0) := by
    refine writeAt_eq_ok.mpr ⟨?_, ?_⟩
    · rw [List.length_replicate]
      omega
    · rw [List.take_zero, List.nil_append, List.drop_replicate, Nat.zero_add]
  have key : ((tabname ++ List.replicate (156 - tabname.length) (0 : Byte)).take 155).take 33 =
      probe tabname := by
    rw [List.take_take, Nat.min_eq_left (by decide), probe, List.take_append, List.take_append,
      List.take_replicate, List.take_replicate]
    congr 2
    omega
  have reads := file.start
    { fcd with record := (tabname ++ List.replicate (156 - tabname.length) 0).take 155 }
  simp only [key] at reads
  have few : (records.filter fun record => probe tabname ≤ record.take 33).length < turns :=
    (List.length_filter_le _ _).trans_lt enough
  unfold getClones
  rw [written, ok_bind]
  simp only
  rw [cloneLoop_eq (fun record member => file.lengths record (List.mem_of_mem_filter member))
    reads few]
  have none_read : (records.filter fun record => probe tabname ≤ record.take 33) = [] ↔
      ∀ record ∈ records, record.take 33 < probe tabname := by
    rw [List.filter_eq_nil_iff]
    simp only [decide_eq_true_eq, not_le]
  by_cases empty : (records.filter fun record => probe tabname ≤ record.take 33) = []
  · rw [if_pos empty]
    have before := none_read.mp empty
    rw [mappings_eq_nil file.lengths before]
    exact iff_of_true rfl before
  · rw [if_neg empty]
    exact iff_of_false nofun fun before => empty (none_read.mpr before)

/-! ## The statements of an operation -/

/-- The operations that are replicated. -/
inductive ReplicaOp where
  | write
  | rewrite
  | delete
  deriving DecidableEq

/-- A statement on a table of the other database: the columns of its value or SET list, and
those of its WHERE part. -/
structure CloneStatement where
  schema : List Byte
  name : List Byte
  assigned : List Clone
  conditions : List Clone
  deriving DecidableEq

/-- The clones in the lists of the statement, of those that belong to its table. -/
def statementOf (op : ReplicaOp) (schema name : List Byte) (same : List Clone) :
    CloneStatement :=
  match op with
  | .write => ⟨schema, name, same, []⟩
  | .rewrite => ⟨schema, name, same.filter (·.key = 78), same.filter (·.key = 83)⟩
  | .delete => ⟨schema, name, [], same.filter (·.key = 83)⟩

/-- `write_clone`, `rewrite_clone` and `delete_clone`: the clones are picked by the name. -/
def cloneStatement (op : ReplicaOp) (clones : List Clone) (clone : Clone) : CloneStatement :=
  statementOf op clone.schema clone.name (clones.filter (·.name = clone.name))

/-- The loop of `replica_write`, `replica_rewrite` and `replica_delete`: the clones for which a
statement is sent, `last` being the one before. -/
def replicaLoop : Option Clone → List Clone → List Clone
  | none, [] => []
  | some last, [] => [last]
  | none, clone :: clones => replicaLoop (some clone) clones
  | some last, clone :: clones =>
      if last.name ≠ clone.name then last :: replicaLoop (some clone) clones
      else replicaLoop (some clone) clones

/-- The statements of an operation. -/
def replicaStatements (op : ReplicaOp) (clones : List Clone) : List CloneStatement :=
  (replicaLoop none clones).map (cloneStatement op clones)

/-- The table that a clone stands for. -/
def Clone.target (clone : Clone) : List Byte × List Byte := (clone.schema, clone.name)

def CloneStatement.target (statement : CloneStatement) : List Byte × List Byte :=
  (statement.schema, statement.name)

/-- Every operation sends one statement to every table with clones, with all the clones of
that table, and no other statement. -/
def OneStatementEach (clones : List Clone) : Prop :=
  ∀ op : ReplicaOp,
    (∀ clone ∈ clones, (replicaStatements op clones).filter (·.target = clone.target) =
      [statementOf op clone.schema clone.name (clones.filter (·.target = clone.target))]) ∧
    ∀ statement ∈ replicaStatements op clones, ∃ clone ∈ clones, statement.target = clone.target

/-- A name that comes again comes next. -/
def Grouped : List Clone → Prop
  | [] => True
  | clone :: clones =>
      (clone.name ∈ clones.map (·.name) → clones.head?.map (·.name) = some clone.name) ∧
        Grouped clones

/-- A table name belongs to one schema. -/
def OneSchema (clones : List Clone) : Prop :=
  ∀ clone ∈ clones, ∀ other ∈ clones, other.name = clone.name → other.schema = clone.schema

variable {clones : List Clone} {clone last : Clone} {op : ReplicaOp}

/-- A clone that is replicated to is the last one seen or one of the list. -/
theorem replicaLoop_mem (member : clone ∈ replicaLoop (some last) clones) :
    clone = last ∨ clone ∈ clones := by
  induction clones generalizing last with
  | nil => exact .inl (List.mem_singleton.mp member)
  | cons next clones ih =>
      unfold replicaLoop at member
      have later (found : clone ∈ replicaLoop (some next) clones) : clone ∈ next :: clones :=
        (ih found).elim (fun same => same ▸ List.mem_cons_self) (List.mem_cons_of_mem next)
      split_ifs at member with other
      · rcases List.mem_cons.mp member with same | found
        · exact .inl same
        · exact .inr (later found)
      · exact .inr (later member)

/-- Every name is reached. -/
theorem names_replicaLoop (name : List Byte) :
    name ∈ (replicaLoop (some last) clones).map (·.name) ↔
      name = last.name ∨ name ∈ clones.map (·.name) := by
  induction clones generalizing last with
  | nil =>
      unfold replicaLoop
      simp only [List.map_cons, List.map_nil, List.mem_singleton, List.not_mem_nil, or_false]
  | cons next clones ih =>
      unfold replicaLoop
      by_cases other : last.name ≠ next.name
      · rw [if_pos other, List.map_cons, List.mem_cons, ih, List.map_cons, List.mem_cons]
      · rw [if_neg other, ih, List.map_cons, List.mem_cons, ← not_not.mp other, or_self_left]

/-- A statement is sent once for each name exactly when equal names stand together. -/
theorem nodup_replicaLoop :
    ((replicaLoop (some last) clones).map (·.name)).Nodup ↔ Grouped (last :: clones) := by
  induction clones generalizing last with
  | nil =>
      unfold replicaLoop Grouped Grouped
      simp only [List.map_cons, List.map_nil, List.nodup_cons, List.not_mem_nil,
        not_false_eq_true, List.nodup_nil, and_self, false_implies]
  | cons next clones ih =>
      unfold replicaLoop Grouped
      simp only [List.head?_cons, Option.map_some, Option.some.injEq]
      by_cases other : last.name ≠ next.name
      · rw [if_pos other, List.map_cons, List.nodup_cons, ih, names_replicaLoop, List.map_cons,
          List.mem_cons]
        exact and_congr_left fun _ => ⟨fun absent present => absurd present absent,
          fun comes present => other (comes present).symm⟩
      · rw [if_neg other, ih]
        exact (and_iff_right fun _ => (not_not.mp other).symm).symm

/-- A clone that is replicated to is one of the list. -/
theorem replicaLoop_subset (member : clone ∈ replicaLoop none clones) : clone ∈ clones := by
  cases clones with
  | nil => cases member
  | cons first clones =>
      rcases replicaLoop_mem member with rfl | later
      · exact List.mem_cons_self
      · exact List.mem_cons_of_mem _ later

/-- Each name of the list is replicated to. -/
theorem exists_replicaLoop (member : clone ∈ clones) :
    ∃ last ∈ replicaLoop none clones, last.name = clone.name := by
  cases clones with
  | nil => cases member
  | cons first clones =>
      have named : clone.name ∈ (replicaLoop (some first) clones).map (·.name) := by
        rw [names_replicaLoop]
        rcases List.mem_cons.mp member with rfl | later
        · exact .inl rfl
        · exact .inr (List.mem_map_of_mem later)
      exact List.mem_map.mp named

/-- No name is replicated to twice exactly when the names stand together. -/
theorem grouped_iff_nodup : ((replicaLoop none clones).map (·.name)).Nodup ↔ Grouped clones := by
  cases clones with
  | nil => exact iff_of_true List.nodup_nil trivial
  | cons first clones => exact nodup_replicaLoop

/-- A statement is sent to its schema and name. -/
theorem statementOf_target (schema name : List Byte) (same : List Clone) :
    (statementOf op schema name same).target = (schema, name) := by
  cases op <;> rfl

/-- The statement of a clone is sent to its target. -/
theorem cloneStatement_target : (cloneStatement op clones clone).target = clone.target :=
  statementOf_target _ _ _

/-- In one schema the target is the name. -/
theorem OneSchema.target_iff (one : OneSchema clones) (member : clone ∈ clones) {other : Clone}
    (present : other ∈ clones) : other.target = clone.target ↔ other.name = clone.name := by
  unfold Clone.target
  rw [Prod.mk.injEq]
  exact ⟨fun same => same.2, fun named => ⟨one clone member other present named, named⟩⟩

/-- The statements to a table are those of the clones of it that the loop picks. -/
theorem filter_replicaStatements (target : List Byte × List Byte) :
    (replicaStatements op clones).filter (·.target = target) =
      ((replicaLoop none clones).filter (·.target = target)).map (cloneStatement op clones) := by
  unfold replicaStatements
  rw [List.filter_map]
  congr 1
  apply List.filter_congr
  intro picked _
  simp only [Function.comp_apply, cloneStatement_target]

/-- Without doubles one clone alone has the name. -/
theorem filter_eq_singleton {picked : List Clone} (nodup : (picked.map (·.name)).Nodup)
    (member : last ∈ picked) : picked.filter (·.name = last.name) = [last] := by
  induction picked with
  | nil => cases member
  | cons first picked ih =>
      rw [List.map_cons, List.nodup_cons] at nodup
      rcases List.mem_cons.mp member with rfl | later
      · rw [List.filter_cons_of_pos (by rw [decide_eq_true_eq]), List.filter_eq_nil_iff.mpr]
        intro other present
        rw [decide_eq_true_eq]
        exact fun same => nodup.1 (same ▸ List.mem_map_of_mem present)
      · have other : first.name ≠ last.name := fun same =>
          nodup.1 (same ▸ List.mem_map_of_mem later)
        rw [List.filter_cons_of_neg (by rw [decide_eq_true_eq]; exact other), ih nodup.2 later]

/-- Each table gets its one statement exactly when each table name has one schema and its
clones stand together. -/
theorem oneStatementEach_iff : OneStatementEach clones ↔ OneSchema clones ∧ Grouped clones := by
  constructor
  · intro each
    have one : OneSchema clones := by
      intro clone member other present named
      have sent := (each .write).1 clone member
      rw [filter_replicaStatements] at sent
      obtain ⟨last, rest, picked, statement, -⟩ := List.map_eq_cons_iff.mp sent
      have inside : last ∈ (replicaLoop none clones).filter (·.target = clone.target) :=
        picked ▸ List.mem_cons_self
      have same : last.name = clone.name :=
        congrArg Prod.snd (of_decide_eq_true (List.mem_filter.mp inside).2)
      have assigned := congrArg CloneStatement.assigned statement
      simp only [cloneStatement, statementOf, same] at assigned
      have found : other ∈ clones.filter (·.target = clone.target) :=
        assigned ▸ List.mem_filter.mpr ⟨present, decide_eq_true named⟩
      exact congrArg Prod.fst (of_decide_eq_true (List.mem_filter.mp found).2)
    refine ⟨one, grouped_iff_nodup.mp ?_⟩
    rw [List.nodup_iff_count_le_one]
    intro name
    by_cases known : name ∈ (replicaLoop none clones).map (·.name)
    · obtain ⟨last, picked, rfl⟩ := List.mem_map.mp known
      have member := replicaLoop_subset picked
      have sent := congrArg List.length ((each .write).1 last member)
      rw [filter_replicaStatements, List.length_map, List.length_singleton] at sent
      have sameFilter : (replicaLoop none clones).filter (·.target = last.target) =
          (replicaLoop none clones).filter (·.name = last.name) :=
        List.filter_congr fun other present =>
          decide_eq_decide.mpr (one.target_iff member (replicaLoop_subset present))
      rw [sameFilter] at sent
      rw [List.count, List.countP_map, List.countP_eq_length_filter]
      refine le_of_eq (Eq.trans (congrArg List.length (List.filter_congr fun other _ => ?_)) sent)
      simp only [Function.comp_apply, beq_eq_decide]
    · rw [List.count_eq_zero_of_not_mem known]
      exact Nat.zero_le 1
  · rintro ⟨one, grouped⟩ op
    have nodup := grouped_iff_nodup.mpr grouped
    constructor
    · intro clone member
      obtain ⟨last, picked, named⟩ := exists_replicaLoop member
      have present := replicaLoop_subset picked
      have target : last.target = clone.target := (one.target_iff member present).mpr named
      have sameFilter (list : List Clone) (inside : ∀ other ∈ list, other ∈ clones) :
          list.filter (·.target = clone.target) = list.filter (·.name = last.name) :=
        List.filter_congr fun other found =>
          decide_eq_decide.mpr (named ▸ one.target_iff member (inside other found))
      rw [filter_replicaStatements, sameFilter _ fun _ => replicaLoop_subset,
        filter_eq_singleton nodup picked, sameFilter _ fun _ => id, List.map_singleton,
        cloneStatement]
      rw [show last.schema = clone.schema from congrArg Prod.fst target, named]
    · intro statement sent
      obtain ⟨last, picked, rfl⟩ := List.mem_map.mp sent
      exact ⟨last, replicaLoop_subset picked, cloneStatement_target⟩

/-- The clones of a table are those of the replica file exactly when no record is read, and each
of their tables gets its one statement exactly when its name has one schema and its clones
stand together. -/
theorem clone_list_iff {extfh : Extfh σ} {files : σ} {records : List (List Byte)}
    (file : ReplicaFile extfh files records) {turns : ℕ} (enough : records.length < turns)
    (fcd : Fcd) {tabname : List Byte} (short : tabname.length ≤ 50) (clones : List Clone) :
    (getClones extfh turns files fcd tabname = .ok (mappings records tabname) ↔
      ∀ record ∈ records, record.take 33 < probe tabname) ∧
    (OneStatementEach clones ↔ OneSchema clones ∧ Grouped clones) :=
  ⟨getClones_iff file enough fcd short, oneStatementEach_iff⟩

/-- An indexed file under its first key, with the records that READ NEXT still has to give. -/
structure ReplicaRecords where
  records : List (List Byte)
  next : List (List Byte)

/-- START on a key and READ NEXT of such a file. -/
def servedBy : Extfh ReplicaRecords := fun opcode files fcd =>
  match opcode with
  | .start .ge =>
      let found := files.records.filter fun record => fcd.record.take 33 ≤ record.take 33
      (⟨files.records, found⟩,
        { fcd with status := if found.isEmpty then stRecNotFound else stOk })
  | .readNext =>
      match files.next with
      | [] => (files, { fcd with status := stEof })
      | record :: next =>
          (⟨files.records, next⟩, { fcd with record := record, status := stOk })
  | _ => (files, fcd)

/-- The file that serves records reads them in order. -/
theorem servedBy_reads (records next : List (List Byte)) (fcd : Fcd) :
    IsamReads servedBy ⟨records, next⟩ fcd next := by
  induction next generalizing fcd with
  | nil => exact show ¬ stEof = stOk by decide
  | cons record next ih => exact ⟨rfl, rfl, ih _⟩

/-- The file that serves records is a replica file. -/
theorem servedBy_replicaFile {records : List (List Byte)} (next : List (List Byte))
    (lengths : ∀ record ∈ records, record.length = 155) :
    ReplicaFile servedBy ⟨records, next⟩ records :=
  ⟨lengths, fun _ => servedBy_reads records _ _⟩

/-- The fcd of the replica file, opened. -/
def replicaFcd : Fcd := ⟨stOk, 0, 0, [], false, false, false, [], fun _ => 0, 0, false⟩

/-- A record of the replica file for the table A. -/
def replicaRecord : List Byte := 65 :: List.replicate 154 32

/-- The records have the length of the file. -/
theorem replicaRecord_lengths : ∀ record ∈ [replicaRecord], record.length = 155 := by
  intro record member
  rw [List.mem_singleton.mp member]
  rfl

/-- Two clones of one table. -/
def oneTable : List Clone :=
  [⟨[97], [115], [116], [97], 83, 78⟩, ⟨[98], [115], [116], [98], 78, 78⟩]

/-- A key of two columns that one clone list has in full: both halves of the equivalence are met. -/
theorem clone_list_two_columns :
    getClones servedBy 2 ⟨[replicaRecord], []⟩ replicaFcd [66] =
      .ok (mappings [replicaRecord] [66]) ∧ OneStatementEach oneTable := by
  have settled := clone_list_iff (servedBy_replicaFile [] replicaRecord_lengths)
    (show [replicaRecord].length < 2 by decide) replicaFcd (show [66].length ≤ 50 by decide)
    oneTable
  refine ⟨settled.1.mpr (by decide +kernel), settled.2.mpr ⟨?_, ?_⟩⟩
  · unfold OneSchema
    decide
  · exact ⟨fun _ => rfl, fun later => absurd later List.not_mem_nil, trivial⟩

/-- The record of the table A is read, and its third name lies outside the area; the clones of
one table that do not stand together get two statements. -/
theorem clone_list_fails :
    getClones servedBy 2 ⟨[replicaRecord], []⟩ replicaFcd [65] = .error .undefined ∧
      mappings [replicaRecord] [65] ≠ [] ∧
      ¬ OneStatementEach [⟨[97], [115], [116], [97], 83, 78⟩, ⟨[97], [115], [117], [97], 83, 78⟩,
        ⟨[98], [115], [116], [98], 78, 78⟩] := by
  refine ⟨by decide +kernel, by decide +kernel, fun each => ?_⟩
  have grouped := (oneStatementEach_iff.mp each).2.1
  exact absurd (grouped (by decide)) (by decide)

end Pqfh
