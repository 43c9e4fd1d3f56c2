import Pqfh.Handler.Commits
import Pqfh.Handler.Returns

/-! # Mode W

In mode W a program works with `EXTFH`, and the database follows. What the program sees of a call
is what `EXTFH` returned: the dispatcher puts the status back after an operation in the database,
and the open mode after OPEN and CLOSE.

It does not put the record back, which the reads of `op_write` and `op_delete` write over, nor the
status of DELETE FILE, and nothing keeps an operation in the database from ending the process.
`Pqfh.shadow_transparent_iff` says exactly when a call in mode W is one of `EXTFH` alone.
-/

namespace Pqfh

/-! ## OPEN and DELETE FILE -/

/-- `table_info` can read what the catalog says of a table. -/
structure Described (env : Env) (reclen : ℕ) (kdb : ℕ → Byte) (name : List Byte) : Prop where
  columns : ∀ col ∈ env.pg.catalog (env.pg.relation name),
    col.name.utf8ByteSize ≤ maxNameLen ∧ col.type ≠ .other
  keys : ∀ columns,
    layColumns reclen 0 (env.pg.catalog (env.pg.relation name)) = .ok columns →
      columns ≠ [] → ∃ keyed, getkeys kdb columns = .ok keyed

/-- A converted table that the transaction can see. -/
def Stands (env : Env) (conn : Conn) (name : List Byte) : Prop :=
  env.convertida (env.nomeDicionario name) = true ∧ conn.aborted = false ∧
    (conn.working (env.pg.relation name)).isSome

/-- The columns of a table are laid when each name fits and each type is one that is known. -/
theorem layColumns_iff {reclen : ℕ} :
    ∀ {offset : ℕ} {catalog : List CatalogColumn},
      (∃ columns, layColumns reclen offset catalog = .ok columns) ↔
        ∀ col ∈ catalog, col.name.utf8ByteSize ≤ maxNameLen ∧ col.type ≠ .other := by
  intro offset catalog
  induction catalog generalizing offset with
  | nil => exact ⟨fun _ => nofun, fun _ => ⟨[], rfl⟩⟩
  | cons col rest ih =>
      rw [List.forall_mem_cons]
      constructor
      · rintro ⟨columns, laid⟩
        obtain ⟨short, first, later, made, more, _⟩ := layColumns_cons.mp laid
        exact ⟨⟨short, CatalogColumn.exists_laid.mp ⟨first, made⟩⟩, ih.mp ⟨later, more⟩⟩
      · rintro ⟨⟨short, known⟩, following⟩
        obtain ⟨first, made⟩ := CatalogColumn.exists_laid.mpr known
        obtain ⟨later, more⟩ := (@ih (offset + first.len)).mpr following
        exact ⟨_, layColumns_cons.mpr ⟨short, first, later, made, more, rfl⟩⟩

/-- When `table_info` returns. -/
theorem tableInfo_iff {env : Env} {conn : Conn} {fcd : Fcd} {name : List Byte} :
    (∃ info, tableInfo env conn fcd name = .ok info) ↔
      name.length ≤ maxPrefixo ∧
          (Stands env conn name → Described env fcd.record.length fcd.kdb name) := by
  unfold tableInfo Stands
  by_cases long : maxPrefixo < name.length
  · rw [if_pos long]
    exact ⟨nofun, fun passes => absurd passes.1 (Nat.not_le.mpr long)⟩
  rw [if_neg long]
  cases converted : env.convertida (env.nomeDicionario name) with
  | false => exact ⟨fun _ => ⟨Nat.not_lt.mp long, nofun⟩, fun _ => ⟨_, rfl⟩⟩
  | true =>
      cases aborted : conn.aborted with
      | true => exact ⟨fun _ => ⟨Nat.not_lt.mp long, nofun⟩, fun _ => ⟨_, rfl⟩⟩
      | false =>
          cases present : conn.working (env.pg.relation name) with
          | none => exact ⟨fun _ => ⟨Nat.not_lt.mp long, nofun⟩, fun _ => ⟨_, rfl⟩⟩
          | some rows =>
              simp only [Bool.not_true, Bool.false_eq_true, ↓reduceIte, Option.isNone_some,
                Bool.or_self, Option.isSome_some, and_self, forall_const]
              constructor
              · rintro ⟨info, found⟩
                obtain ⟨columns, laid, found⟩ := bind_eq_ok.mp found
                refine ⟨Nat.not_lt.mp long, layColumns_iff.mp ⟨columns, laid⟩, ?_⟩
                intro columns' laid' some
                rw [laid] at laid'
                cases laid'
                rw [if_neg some] at found
                obtain ⟨keyed, got, _⟩ := bind_eq_ok.mp found
                exact ⟨keyed, got⟩
              · rintro ⟨_, described⟩
                obtain ⟨columns, laid⟩ := layColumns_iff.mpr described.columns
                rw [laid, ok_bind]
                by_cases none : columns = []
                · rw [if_pos none]
                  exact ⟨_, rfl⟩
                · obtain ⟨⟨keyed, keys⟩, got⟩ := described.keys columns laid none
                  rw [if_neg none, got, ok_bind]
                  exact ⟨_, rfl⟩

/-- A statement about relations that succeeded. -/
theorem Conn.execDdl_true {pg : Postgres} {conn : Conn} {ddl : Ddl}
    (done : (conn.execDdl pg ddl).2 = true) :
    conn.aborted = false ∧ ∃ db, ddl.apply conn.working = some db ∧
      pg.refusesDdl ddl conn.working = false ∧
      conn.execDdl pg ddl = ({ conn with working := db }, true) := by
  unfold Conn.execDdl at done ⊢
  cases aborted : conn.aborted with
  | true =>
      rw [aborted] at done
      cases done
  | false =>
      rw [aborted] at done
      cases applied : ddl.apply conn.working with
      | none =>
          rw [applied] at done
          cases done
      | some db =>
          rw [applied] at done
          cases refused : pg.refusesDdl ddl conn.working with
          | true =>
              simp only [refused] at done
              cases done
          | false => exact ⟨rfl, db, rfl, rfl, rfl⟩

/-- After a statement about relations that failed every statement fails. -/
theorem Conn.execDdl_false {pg : Postgres} {conn : Conn} {ddl : Ddl}
    (failed : (conn.execDdl pg ddl).2 = false) : (conn.execDdl pg ddl).1.aborted = true := by
  unfold Conn.execDdl at failed ⊢
  split
  · assumption
  · rename_i running
    rw [if_neg running] at failed
    split
    · rfl
    · rename_i applied
      rw [applied] at failed
      dsimp only at failed
      split
      · rfl
      · rename_i accepted
        rw [if_neg accepted] at failed
        cases failed

/-- The indexes of the dictionary's table can be made for a new one. -/
def Indexed (env : Env) (db : Db) (dictname name : List Byte) : Prop :=
  ∀ index ∈ env.pg.indexes (env.pg.relation dictname), ∃ indexdef,
    renameIndex dictname name index.1 index.2 = .ok indexdef ∧
      env.pg.refusesDdl (.index (env.pg.relation name) indexdef) db = false

/-- The indexes of a new table are made when each of them is. -/
theorem createIndexes_iff {env : Env} {conn conn' : Conn} {dictname name : List Byte}
    {indexes : List (List Byte × List Byte)} (running : conn.aborted = false)
    (present : (conn.working (env.pg.relation name)).isSome) :
    createIndexes env dictname name indexes conn = .ok conn' ↔
      conn' = conn ∧ ∀ index ∈ indexes, ∃ indexdef,
        renameIndex dictname name index.1 index.2 = .ok indexdef ∧
          env.pg.refusesDdl (.index (env.pg.relation name) indexdef) conn.working = false := by
  induction indexes with
  | nil =>
      unfold createIndexes
      simp only [Except.ok.injEq, List.not_mem_nil, false_implies, implies_true, and_true]
      exact eq_comm
  | cons index rest ih =>
      obtain ⟨indexname, indexdef⟩ := index
      unfold createIndexes
      rw [bind_eq_ok, List.forall_mem_cons]
      have answer : ∀ text, conn.execDdl env.pg (.index (env.pg.relation name) text) =
          if env.pg.refusesDdl (.index (env.pg.relation name) text) conn.working then
            (conn.fail, false) else (conn, true) := by
        intro text
        have applied : (Ddl.index (env.pg.relation name) text).apply conn.working =
            some conn.working := if_pos present
        unfold Conn.execDdl
        rw [if_neg (Bool.eq_false_iff.mp running), applied]
      constructor
      · rintro ⟨text, renamed, made⟩
        rw [answer] at made
        cases refused : env.pg.refusesDdl (.index (env.pg.relation name) text) conn.working with
        | true =>
            rw [refused] at made
            cases made
        | false =>
            rw [refused] at made
            obtain ⟨same, others⟩ := ih.mp made
            exact ⟨same, ⟨text, renamed, refused⟩, others⟩
      · rintro ⟨same, ⟨text, renamed, accepted⟩, others⟩
        refine ⟨text, renamed, ?_⟩
        rw [answer, accepted]
        exact ih.mpr ⟨same, others⟩

/-- What the server answers to the CREATE TABLE of an OPEN. -/
def createAnswer (env : Env) (conn : Conn) (name : List Byte) : Conn × Bool :=
  conn.execDdl env.pg
    (.create (env.pg.relation name) (env.pg.relation (env.nomeDicionario name)))

/-- A table is made with its indexes, or the server refuses it. -/
theorem createTable_eq (env : Env) (conn : Conn) (name : List Byte) :
    createTable env conn (env.nomeDicionario name) name =
      if (createAnswer env conn name).2 then do
        let conn ← createIndexes env (env.nomeDicionario name) name
          (env.pg.indexes (env.pg.relation (env.nomeDicionario name)))
          (createAnswer env conn name).1
        return (conn.commit, true)
      else .ok ((createAnswer env conn name).1, false) := by
  unfold createTable createAnswer
  obtain ⟨conn', - | -⟩ := conn.execDdl env.pg
    (.create (env.pg.relation name) (env.pg.relation (env.nomeDicionario name))) <;> rfl

/-- A table that was made was not there before, and is there afterwards. -/
theorem createAnswer_true {env : Env} {conn : Conn} {name : List Byte}
    (made : (createAnswer env conn name).2 = true) :
    conn.aborted = false ∧ conn.working (env.pg.relation name) = none ∧
      (createAnswer env conn name).1.aborted = false ∧
      ((createAnswer env conn name).1.working (env.pg.relation name)).isSome := by
  obtain ⟨running, db, applied, _, answer⟩ := Conn.execDdl_true made
  unfold createAnswer
  rw [answer]
  rw [Ddl.apply] at applied
  split at applied
  · rename_i absent
    cases applied
    refine ⟨running, absent.2, running, ?_⟩
    dsimp only
    rw [Function.update_self]
    rfl
  · cases applied

/-- A table that the server refuses is not there. -/
theorem createTable_refused {env : Env} {conn : Conn} {name : List Byte}
    (refused : (createAnswer env conn name).2 = false) :
    createTable env conn (env.nomeDicionario name) name =
      .ok ((createAnswer env conn name).1, false) := by
  rw [createTable_eq, refused]
  rfl

/-- A table that the server made stands once its indexes do. -/
theorem createTable_made {env : Env} {conn : Conn} {name : List Byte} {result : Conn × Bool}
    (made : (createAnswer env conn name).2 = true) :
    createTable env conn (env.nomeDicionario name) name = .ok result ↔
      result = ((createAnswer env conn name).1.commit, true) ∧
        Indexed env (createAnswer env conn name).1.working (env.nomeDicionario name) name := by
  obtain ⟨_, _, running, present⟩ := createAnswer_true made
  unfold Indexed
  rw [createTable_eq, if_pos made]
  generalize (createAnswer env conn name).1 = conn' at running present ⊢
  rw [bind_eq_ok]
  constructor
  · rintro ⟨_, indexed, ended⟩
    obtain ⟨rfl, indexes⟩ := (createIndexes_iff running present).mp indexed
    cases ended
    exact ⟨rfl, indexes⟩
  · rintro ⟨rfl, indexes⟩
    exact ⟨conn', (createIndexes_iff running present).mpr ⟨rfl, indexes⟩, rfl⟩

/-- What `table_info` says of a table that is not there. -/
theorem tableInfo_missing {env : Env} {conn : Conn} {fcd : Fcd} {name : List Byte}
    (short : name.length ≤ maxPrefixo)
    (converted : env.convertida (env.nomeDicionario name) = true)
    (absent : conn.aborted = true ∨ conn.working (env.pg.relation name) = none) :
    tableInfo env conn fcd name = .ok .missing := by
  unfold tableInfo
  rw [if_neg (Nat.not_lt.mpr short), converted]
  rcases absent with aborted | none
  · rw [aborted]
    rfl
  · rw [none]
    cases conn.aborted <;> rfl

/-- A file whose table was looked for is one that is kept in the database. -/
theorem converted_of_tableInfo {env : Env} {conn : Conn} {fcd : Fcd} {name : List Byte}
    {info : TableInfo} (found : tableInfo env conn fcd name = .ok info) (other : info ≠ .isam) :
    env.convertida (env.nomeDicionario name) = true := by
  unfold tableInfo at found
  split at found
  · cases found
  · cases converted : env.convertida (env.nomeDicionario name) with
    | true => rfl
    | false =>
        rw [converted] at found
        cases found
        exact absurd rfl other

/-- What `table_info` says of a table that is there. -/
theorem tableInfo_found {env : Env} {conn : Conn} {fcd : Fcd} {name : List Byte}
    {columns keyed : List Column} {keys : List (List ℕ)} (short : name.length ≤ maxPrefixo)
    (stands : Stands env conn name)
    (laid : layColumns fcd.record.length 0 (env.pg.catalog (env.pg.relation name)) = .ok columns)
    (some : columns ≠ []) (got : getkeys fcd.kdb columns = .ok (keyed, keys)) :
    tableInfo env conn fcd name = .ok (.found keyed keys) := by
  obtain ⟨converted, running, present⟩ := stands
  have there : (conn.aborted || (conn.working (env.pg.relation name)).isNone) = false := by
    rw [running, Bool.false_or, Option.isNone_eq_false_iff]
    exact present
  unfold tableInfo
  rw [if_neg (Nat.not_lt.mpr short), converted, there, laid]
  simp only [Bool.not_true, Bool.false_eq_true, ↓reduceIte, ok_bind, some, got]
  rfl

/-- A table that is found stands in the database, with the columns laid for its record. -/
theorem tableInfo_eq_found {env : Env} {conn : Conn} {fcd : Fcd} {name : List Byte}
    {keyed : List Column} {keys : List (List ℕ)}
    (found : tableInfo env conn fcd name = .ok (.found keyed keys)) :
    Stands env conn name ∧ ∃ columns,
      layColumns fcd.record.length 0 (env.pg.catalog (env.pg.relation name)) = .ok columns ∧
      columns ≠ [] := by
  have converted := converted_of_tableInfo found nofun
  unfold tableInfo at found
  rw [converted] at found
  split at found
  · cases found
  · simp only [Bool.not_true, Bool.false_eq_true, ↓reduceIte] at found
    split at found
    · cases found
    · rename_i there
      obtain ⟨columns, laid, found⟩ := bind_eq_ok.mp found
      split at found
      · cases found
      · rename_i some
        rw [Bool.not_eq_true, Bool.or_eq_false_iff, Option.isNone_eq_false_iff] at there
        exact ⟨⟨converted, there⟩, columns, laid, some⟩

/-- OPEN I-O returns: `table_info` can read the table when it is there, and a table made for it
gets its indexes and can be read. -/
structure Openable (env : Env) (conn : Conn) (fcd : Fcd) (name : List Byte) : Prop where
  short : name.length ≤ maxPrefixo
  described : Stands env conn name → Described env fcd.record.length fcd.kdb name
  made : env.convertida (env.nomeDicionario name) = true → name ≠ env.nomeDicionario name →
    (createAnswer env conn name).2 = true →
      Indexed env (createAnswer env conn name).1.working (env.nomeDicionario name) name ∧
      Described env fcd.record.length fcd.kdb name

/-- A table that is made is read like one that was there. -/
theorem openMissing_io_iff {env : Env} {buffers : Buffers} {name : List Byte} {proc : Process}
    {fcd : Fcd} (keeps : fcd.isam = false) (short : name.length ≤ maxPrefixo)
    (converted : env.convertida (env.nomeDicionario name) = true) :
    (∃ result, openMissing env .io buffers name proc fcd = .ok result) ↔
      (name ≠ env.nomeDicionario name → (createAnswer env proc.conn name).2 = true →
        Indexed env (createAnswer env proc.conn name).1.working (env.nomeDicionario name) name ∧
        Described env fcd.record.length fcd.kdb name) := by
  unfold openMissing
  dsimp only
  rw [keeps]
  by_cases own : name = env.nomeDicionario name
  · have itself : (!false && decide (OpenKind.io ≠ .input) &&
        decide (name ≠ env.nomeDicionario name)) = false := by simp [← own]
    rw [itself]
    exact ⟨fun _ other => absurd own other, fun _ => ⟨_, rfl⟩⟩
  · have other : (!false && decide (OpenKind.io ≠ .input) &&
        decide (name ≠ env.nomeDicionario name)) = true := by simp [own]
    rw [other, if_pos rfl]
    cases made : (createAnswer env proc.conn name).2 with
    | false =>
        rw [createTable_refused made, ok_bind]
        dsimp only
        have aborted : (createAnswer env proc.conn name).1.aborted = true := Conn.execDdl_false made
        rw [tableInfo_missing short converted (Or.inl aborted), ok_bind]
        exact ⟨fun _ _ => nofun, fun _ => ⟨_, rfl⟩⟩
    | true =>
        obtain ⟨_, _, running, present⟩ := createAnswer_true made
        have stands : Stands env (createAnswer env proc.conn name).1.commit name := by
          unfold Stands Conn.commit
          rw [if_neg (Bool.eq_false_iff.mp running)]
          exact ⟨converted, running, present⟩
        constructor
        · rintro ⟨result, opened⟩ _ _
          obtain ⟨made', creates, opened⟩ := bind_eq_ok.mp opened
          obtain ⟨rfl, indexed⟩ := (createTable_made made).mp creates
          obtain ⟨info, found, _⟩ := bind_eq_ok.mp opened
          exact ⟨indexed, (tableInfo_iff.mp ⟨info, found⟩).2 stands⟩
        · intro can
          obtain ⟨indexed, described⟩ := can own rfl
          rw [(createTable_made made).mpr ⟨rfl, indexed⟩, ok_bind]
          obtain ⟨info, found⟩ : ∃ info, tableInfo env (createAnswer env proc.conn name).1.commit
              { fcd with status := stFileNotFound, isam := false } name = .ok info :=
            tableInfo_iff.mpr ⟨short, fun _ => described⟩
          dsimp only
          rw [found, ok_bind]
          exact ⟨_, rfl⟩

/-- An OPEN for updates comes back unless the table cannot be laid or made. -/
theorem opOpen_io_iff {env : Env} {buffers : Buffers} {proc : Process} {fcd : Fcd}
    (closed : fcd.openMode = 128) (keeps : fcd.isam = false) :
    (∃ result, opOpen env .io buffers proc fcd = .ok result) ↔
      Openable env proc.conn fcd (baseName fcd.fileName) := by
  have keeps₀ : ({ fcd with fileId := proc.free } : Fcd).isam = false := keeps
  unfold opOpen
  rw [if_neg (not_not.mpr closed)]
  dsimp only
  generalize baseName fcd.fileName = name
  by_cases long : maxNameLen < name.length
  · rw [if_pos long]
    refine ⟨nofun, fun can => ?_⟩
    have short := can.short
    unfold maxNameLen at long
    unfold maxPrefixo at short
    omega
  rw [if_neg long]
  constructor
  · rintro ⟨result, opened⟩
    obtain ⟨info, found, opened⟩ := bind_eq_ok.mp opened
    obtain ⟨short, described⟩ := tableInfo_iff.mp ⟨info, found⟩
    refine ⟨short, described, fun converted other made => ?_⟩
    obtain ⟨_, absent, _⟩ := createAnswer_true made
    rw [tableInfo_missing short converted (Or.inr absent)] at found
    cases found
    exact (openMissing_io_iff keeps₀ short converted).mp ⟨result, opened⟩ other made
  · intro can
    obtain ⟨info, found⟩ : ∃ info, tableInfo env proc.conn { fcd with fileId := proc.free } name =
      .ok info := tableInfo_iff.mpr ⟨can.short, can.described⟩
    rw [found, ok_bind]
    cases info with
    | isam => exact ⟨_, rfl⟩
    | missing =>
        have converted := converted_of_tableInfo found nofun
        exact (openMissing_io_iff keeps₀ can.short converted).mpr (can.made converted)
    | found columns keys =>
        dsimp only
        rw [keeps]
        exact ⟨_, rfl⟩

/-- DELETE FILE gives 00: the table is not there, or the server drops it. -/
structure Droppable (env : Env) (conn : Conn) (fcd : Fcd) (name : List Byte) : Prop where
  closed : fcd.openMode = 128
  short : name.length ≤ maxPrefixo
  described : Stands env conn name → Described env fcd.record.length fcd.kdb name
  dropped : Stands env conn name → ∀ columns,
    layColumns fcd.record.length 0 (env.pg.catalog (env.pg.relation name)) = .ok columns →
      columns ≠ [] → (conn.execDdl env.pg (.drop (env.pg.relation name))).2 = true

/-- A table is dropped with status 00 exactly when it can be. -/
theorem opDeleteFile_iff {env : Env} {proc : Process} {fcd : Fcd} :
    (∃ proc' fcd', opDeleteFile env proc fcd = .ok (proc', fcd') ∧ fcd'.status = stOk) ↔
      Droppable env proc.conn fcd (baseName fcd.fileName) := by
  unfold opDeleteFile
  dsimp only
  generalize baseName fcd.fileName = name
  by_cases closed : fcd.openMode = 128
  swap
  · rw [if_pos closed]
    refine ⟨?_, fun can => absurd can.closed closed⟩
    rintro ⟨_, _, ⟨⟩, status⟩
    exact absurd status (by decide : stError ≠ stOk)
  rw [if_neg (not_not.mpr closed)]
  by_cases long : maxNameLen < name.length
  · rw [if_pos long]
    refine ⟨?_, fun can => ?_⟩
    · rintro ⟨_, _, impossible, _⟩
      cases impossible
    · have short := can.short
      unfold maxNameLen at long
      unfold maxPrefixo at short
      omega
  rw [if_neg long]
  constructor
  · rintro ⟨proc', fcd', deleted, status⟩
    obtain ⟨info, found, deleted⟩ := bind_eq_ok.mp deleted
    obtain ⟨short, described⟩ := tableInfo_iff.mp ⟨info, found⟩
    refine ⟨closed, short, described, fun stands columns laid some => ?_⟩
    obtain ⟨⟨keyed, keys⟩, got⟩ := (described stands).keys columns laid some
    have named : tableInfo env proc.conn { fcd with status := stError } name =
        .ok (.found keyed keys) := tableInfo_found short stands laid some got
    rw [named] at found
    cases found
    cases dropped : proc.conn.execDdl env.pg (.drop (env.pg.relation name)) with
    | mk conn done =>
        dsimp only at deleted
        rw [dropped] at deleted
        cases done with
        | true => rfl
        | false =>
            cases deleted
            exact absurd status (by decide : stError ≠ stOk)
  · intro can
    obtain ⟨info, found⟩ : ∃ info, tableInfo env proc.conn { fcd with status := stError } name =
      .ok info := tableInfo_iff.mpr ⟨can.short, can.described⟩
    rw [found, ok_bind]
    cases info with
    | isam => exact ⟨_, _, rfl, rfl⟩
    | missing => exact ⟨_, _, rfl, rfl⟩
    | found columns keys =>
        obtain ⟨stands, laidColumns, laid, some⟩ := tableInfo_eq_found found
        have dropped := can.dropped stands laidColumns laid some
        dsimp only
        generalize proc.conn.execDdl env.pg (.drop (env.pg.relation name)) = answer at dropped ⊢
        obtain ⟨conn, done⟩ := answer
        cases dropped
        exact ⟨_, _, rfl, rfl⟩

/-! ## What the operations on the process leave of the fcd -/

/-- An OPEN of a missing table leaves the record area and the key number alone. -/
theorem openMissing_fcd {env : Env} {kind : OpenKind} {buffers : Buffers} {name : List Byte}
    {proc proc' : Process} {fcd fcd' : Fcd}
    (opened : openMissing env kind buffers name proc fcd = .ok (proc', fcd')) :
    fcd'.record = fcd.record ∧ fcd'.keyId = fcd.keyId := by
  unfold openMissing at opened
  dsimp only at opened
  split at opened
  · obtain ⟨⟨conn, done⟩, _, opened⟩ := bind_eq_ok.mp opened
    obtain ⟨info, _, opened⟩ := bind_eq_ok.mp opened
    cases opened
    cases done <;> exact ⟨rfl, rfl⟩
  · split at opened
    · cases opened
      exact ⟨rfl, rfl⟩
    · cases opened
      exact ⟨rfl, rfl⟩

/-- An OPEN leaves the record area and the key number alone. -/
theorem opOpen_fcd {env : Env} {kind : OpenKind} {buffers : Buffers} {proc proc' : Process}
    {fcd fcd' : Fcd} (opened : opOpen env kind buffers proc fcd = .ok (proc', fcd')) :
    fcd'.record = fcd.record ∧ fcd'.keyId = fcd.keyId := by
  unfold opOpen at opened
  dsimp only at opened
  split at opened
  · cases opened
    exact ⟨rfl, rfl⟩
  · split at opened
    · cases opened
    · obtain ⟨info, _, opened⟩ := bind_eq_ok.mp opened
      cases info with
      | isam =>
          cases opened
          exact ⟨rfl, rfl⟩
      | missing =>
          obtain ⟨record, keyId⟩ := openMissing_fcd opened
          exact ⟨record, keyId⟩
      | found columns keys =>
          dsimp only at opened
          split at opened
          · cases opened
            exact ⟨rfl, rfl⟩
          · cases opened
            exact ⟨rfl, rfl⟩

/-- DELETE FILE gives 00 or 99, and changes nothing else that the program sees. -/
theorem opDeleteFile_fcd {env : Env} {proc proc' : Process} {fcd fcd' : Fcd}
    (deleted : opDeleteFile env proc fcd = .ok (proc', fcd')) :
    (fcd'.status = stOk ∨ fcd'.status = stError) ∧
      fcd'.record = fcd.record ∧ fcd'.keyId = fcd.keyId ∧ fcd'.openMode = fcd.openMode := by
  unfold opDeleteFile at deleted
  dsimp only at deleted
  split at deleted
  · cases deleted
    exact ⟨Or.inr rfl, rfl, rfl, rfl⟩
  · split at deleted
    · cases deleted
    · obtain ⟨info, _, deleted⟩ := bind_eq_ok.mp deleted
      cases info with
      | isam =>
          cases deleted
          exact ⟨Or.inl rfl, rfl, rfl, rfl⟩
      | missing =>
          cases deleted
          exact ⟨Or.inl rfl, rfl, rfl, rfl⟩
      | found columns keys =>
          dsimp only at deleted
          split at deleted
          · cases deleted
            exact ⟨Or.inr rfl, rfl, rfl, rfl⟩
          · cases deleted
            exact ⟨Or.inl rfl, rfl, rfl, rfl⟩

/-! ## The switch in mode W -/

variable {σ : Type}

/-- What the program sees of its fcd. -/
def Fcd.visible (fcd : Fcd) : Status × List Byte × ℕ × ℕ :=
  (fcd.status, fcd.record, fcd.keyId, fcd.openMode)

/-- Two blocks look the same when the status, the record area, the key number and the open mode
agree. -/
theorem Fcd.visible_eq {fcd fcd' : Fcd} : fcd'.visible = fcd.visible ↔
    fcd'.status = fcd.status ∧ fcd'.record = fcd.record ∧ fcd'.keyId = fcd.keyId ∧
      fcd'.openMode = fcd.openMode := by
  unfold Fcd.visible
  simp only [Prod.mk.injEq]

/-- An operation in the database returns, and the program sees nothing of it. -/
def Unseen (sys : Sys σ) (op : Except Stop (Sys σ)) : Prop :=
  ∃ sys', op = .ok sys' ∧ sys'.fcd.visible = sys.fcd.visible

/-- An OPEN is not seen when the shadow can be opened. -/
theorem openShadow_unseen_iff {env : Env} {buffers : Buffers} {sys : Sys σ}
    (kept : sys.fcd.isam = false) :
    Unseen sys (openShadow env buffers .io sys) ↔
      Openable env sys.proc.conn sys.fcd (baseName sys.fcd.fileName) := by
  have same : Openable env sys.proc.conn (sys.setOpenMode 128).fcd (baseName sys.fcd.fileName) ↔
      Openable env sys.proc.conn sys.fcd (baseName sys.fcd.fileName) :=
    ⟨fun can => ⟨can.short, can.described, can.made⟩,
      fun can => ⟨can.short, can.described, can.made⟩⟩
  have returns :
    (∃ result, opOpen env .io buffers sys.proc (sys.setOpenMode 128).fcd = .ok result) ↔
      Openable env sys.proc.conn (sys.setOpenMode 128).fcd (baseName sys.fcd.fileName) :=
    opOpen_io_iff rfl kept
  rw [← same, ← returns]
  unfold Unseen openShadow Sys.onProcess
  rw [if_pos rfl]
  constructor
  · rintro ⟨sys', opened, _⟩
    obtain ⟨_, opened, _⟩ := bind_eq_ok.mp opened
    obtain ⟨result, opened, _⟩ := bind_eq_ok.mp opened
    exact ⟨result, opened⟩
  · rintro ⟨⟨proc, fcd⟩, opened⟩
    obtain ⟨record, keyId⟩ := opOpen_fcd opened
    change ∃ sys', ((opOpen env .io buffers sys.proc (sys.setOpenMode 128).fcd >>= _) >>= _) =
      Except.ok sys' ∧ _
    rw [opened, ok_bind]
    refine ⟨_, rfl, Fcd.visible_eq.mpr ⟨rfl, record, keyId, rfl⟩⟩

/-- A CLOSE is not seen when what it does on the database keeps what is seen. -/
theorem closeBoth_unseen_iff {extfh : Extfh σ} {env : Env} {sys : Sys σ} (mode : env.mode = .W) :
    Unseen sys (closeBoth extfh env sys) ↔ (sys.proc.tables sys.fcd.fileId).isSome := by
  unfold Unseen closeBoth
  rw [mode]
  dsimp only
  have opened : (sys.setOpenMode 2).fcd.openMode ≠ 128 := (by decide : 2 ≠ 128)
  unfold Sys.onProcess opClose
  rw [if_neg opened]
  cases live : sys.proc.tables sys.fcd.fileId with
  | none =>
      have missing : (sys.setOpenMode 2).proc.tables (sys.setOpenMode 2).fcd.fileId = none := live
      rw [missing]
      refine ⟨?_, fun present => absurd present Bool.false_ne_true⟩
      rintro ⟨sys', closed, _⟩
      cases closed
  | some tab =>
      have present : (sys.setOpenMode 2).proc.tables (sys.setOpenMode 2).fcd.fileId = some tab :=
        live
      rw [present]
      exact ⟨fun _ => rfl, fun _ => ⟨_, rfl, rfl⟩⟩

/-- An operation on an open file is the operation on its table. -/
theorem Sys.onTable_run {α : Type} {sys : Sys σ} {op : State → Except Stop (α × State)}
    {tab : Table}
    {result : α} {st : State} (live : sys.proc.tables sys.fcd.fileId = some tab)
    (operated : op (sys.state tab) = .ok (result, st)) :
    sys.onTable op = .ok (result, sys.put st) := by
  unfold Sys.onTable
  rw [live]
  dsimp only
  rw [operated]
  rfl

/-- An operation on an open file is run on its table, and the others stand. -/
theorem Sys.run_open {sys : Sys σ} {closed : Status} {op : State → Except Stop State} {tab : Table}
    {st : State} (opened : sys.fcd.openMode ≠ 128)
    (live : sys.proc.tables sys.fcd.fileId = some tab) (operated : op (sys.state tab) = .ok st) :
    sys.run closed op = .ok (sys.put st) := by
  unfold Sys.run
  rw [if_neg opened, Sys.onTable_run live (map_eq_ok.mpr ⟨st, operated, rfl⟩)]
  rfl

/-- An operation on the open table of which the dispatcher takes back the status. -/
theorem run_unseen_iff {sys : Sys σ} {closed : Status} {op : State → Except Stop State}
    (frame : ∀ st st', op st = .ok st' → st'.fcd.keyId = st.fcd.keyId ∧
      st'.fcd.openMode = st.fcd.openMode) :
    Unseen sys ((Sys.setStatus · sys.fcd.status) <$> sys.run closed op) ↔
      sys.fcd.openMode = 128 ∨ ∃ tab, sys.proc.tables sys.fcd.fileId = some tab ∧
        ∃ st', op (sys.state tab) = .ok st' ∧ st'.fcd.record = sys.fcd.record := by
  constructor
  · rintro ⟨sys', ended, seen⟩
    obtain ⟨_, _, _, _⟩ := Fcd.visible_eq.mp seen
    obtain ⟨ran, run, rfl⟩ := map_eq_ok.mp ended
    rcases Sys.run_ok run with ⟨shut, _⟩ | ⟨_, tab, st, live, operated, rfl⟩
    · exact Or.inl shut
    · exact Or.inr ⟨tab, live, st, operated, (Fcd.visible_eq.mp seen).2.1⟩
  · rintro (shut | ⟨tab, live, st, operated, record⟩)
    · unfold Sys.run
      rw [if_pos shut]
      exact ⟨_, rfl, rfl⟩
    · by_cases shut : sys.fcd.openMode = 128
      · unfold Sys.run
        rw [if_pos shut]
        exact ⟨_, rfl, rfl⟩
      · rw [Sys.run_open shut live operated]
        obtain ⟨keyId, openMode⟩ := frame _ _ operated
        exact ⟨_, rfl, Fcd.visible_eq.mpr ⟨rfl, record, keyId, openMode⟩⟩

/-- A WRITE is not seen on a file that is closed or whose table takes the record. -/
theorem writeBoth_unseen_iff {extfh : Extfh σ} {env : Env} {sys : Sys σ} (mode : env.mode = .W) :
    Unseen sys (writeBoth extfh env sys) ↔
      sys.fcd.openMode = 128 ∨ ∃ tab, sys.proc.tables sys.fcd.fileId = some tab ∧
        WriteKeeps env.pg (sys.state tab) := by
  have asRun : writeBoth extfh env sys =
      (Sys.setStatus · sys.fcd.status) <$> sys.run stNotOpenedWrite (opWrite env) := by
    unfold writeBoth
    rw [mode]
    rfl
  rw [asRun, run_unseen_iff]
  · by_cases shut : sys.fcd.openMode = 128
    · exact ⟨fun _ => Or.inl shut, fun _ => Or.inl shut⟩
    · refine or_congr_right (exists_congr fun tab => and_congr_right fun _ => ?_)
      exact opWrite_keeps_iff mode shut
  · intro st st' wrote
    obtain ⟨_, _, same⟩ := opWrite_fcd wrote
    exact ⟨same.keyId, same.openMode⟩

/-- A DELETE is not seen on a file that is closed or whose table loses the row. -/
theorem deleteBoth_unseen_iff {extfh : Extfh σ} {env : Env} {sys : Sys σ} (mode : env.mode = .W) :
    Unseen sys (deleteBoth extfh env sys) ↔
      sys.fcd.openMode = 128 ∨ ∃ tab, sys.proc.tables sys.fcd.fileId = some tab ∧
        DeleteKeeps env.pg (sys.state tab) := by
  have asRun : deleteBoth extfh env sys =
      (Sys.setStatus · sys.fcd.status) <$> sys.run stNotOpenedUpdel (opDelete env) := by
    unfold deleteBoth
    rw [mode]
    rfl
  rw [asRun, run_unseen_iff]
  · by_cases shut : sys.fcd.openMode = 128
    · exact ⟨fun _ => Or.inl shut, fun _ => Or.inl shut⟩
    · refine or_congr_right (exists_congr fun tab => and_congr_right fun _ => ?_)
      exact opDelete_keeps_iff mode shut
  · intro st st' deleted
    obtain ⟨_, _, same⟩ := opDelete_fcd deleted
    exact ⟨same.keyId, same.openMode⟩

/-- A REWRITE is not seen on a file that is closed or whose table takes the record. -/
theorem rewriteBoth_unseen_iff {extfh : Extfh σ} {env : Env} {undo : List Byte} {sys : Sys σ}
    (mode : env.mode = .W) :
    Unseen sys (rewriteBoth extfh env undo sys) ↔
      sys.fcd.openMode = 128 ∨ ∃ tab, sys.proc.tables sys.fcd.fileId = some tab ∧
        RewriteKeeps env.pg (sys.state tab) := by
  unfold Unseen rewriteBoth Sys.opRewrite
  rw [mode]
  by_cases shut : sys.fcd.openMode = 128
  · rw [if_pos shut]
    exact ⟨fun _ => Or.inl shut, fun _ => ⟨_, rfl, rfl⟩⟩
  rw [if_neg shut]
  constructor
  · rintro ⟨sys', rewrote, _⟩
    obtain ⟨⟨done, ran⟩, operated, _⟩ := bind_eq_ok.mp rewrote
    obtain ⟨tab, st, live, operated, _⟩ := Sys.onTable_ok operated
    exact Or.inr ⟨tab, live, (opRewrite_returns_iff mode shut).mp ⟨_, operated⟩⟩
  · rintro (shut' | ⟨tab, live, keeps⟩)
    · exact absurd shut' shut
    · have opened : (sys.state tab).fcd.openMode ≠ 128 := shut
      obtain ⟨⟨done, st⟩, operated⟩ := (opRewrite_returns_iff mode opened).mpr keeps
      rw [Sys.onTable_run live operated, ok_bind]
      have same := opRewrite_fcd operated
      exact ⟨_, rfl, Fcd.visible_eq.mpr ⟨rfl, same.record, same.keyId, same.openMode⟩⟩

/-- A DELETE FILE is not seen when the table can be dropped. -/
theorem deleteFile_unseen_iff {env : Env} {sys : Sys σ} (fine : sys.fcd.status.1 = 48) :
    Unseen sys (sys.onProcess (opDeleteFile env)) ↔
      sys.fcd.status = stOk ∧
        Droppable env sys.proc.conn sys.fcd (baseName sys.fcd.fileName) := by
  rw [← opDeleteFile_iff]
  unfold Unseen Sys.onProcess
  constructor
  · rintro ⟨sys', ended, seen⟩
    obtain ⟨⟨proc, fcd⟩, deleted, ended⟩ := bind_eq_ok.mp ended
    cases ended
    have status : fcd.status = sys.fcd.status := (Fcd.visible_eq.mp seen).1
    have ok : fcd.status = stOk := by
      rcases (opDeleteFile_fcd deleted).1 with ok | failed
      · exact ok
      · rw [← status, failed] at fine
        exact absurd fine (by decide)
    exact ⟨status.symm.trans ok, proc, fcd, deleted, ok⟩
  · rintro ⟨ok, proc, fcd, deleted, status⟩
    obtain ⟨_, record, keyId, openMode⟩ := opDeleteFile_fcd deleted
    rw [deleted, ok_bind]
    exact ⟨_, rfl, Fcd.visible_eq.mpr ⟨status.trans ok.symm, record, keyId, openMode⟩⟩

/-! ## A call in mode W -/

/-- `EXTFH` does not look at the flag `isam`, which is the handler's own. -/
def IgnoresIsam (extfh : Extfh σ) : Prop :=
  ∀ opcode files fcd isam,
    (extfh opcode files { fcd with isam := isam }).2.visible = (extfh opcode files fcd).2.visible

/-- A call shows the program what `EXTFH` alone would have shown it. -/
def Transparent (others : Opcode → Sys σ → Except Stop (Sys σ)) (extfh : Extfh σ) (env : Env)
    (garbage : Garbage) (opcode : Opcode) (sys : Sys σ) : Prop :=
  ∃ sys', pqfhNamed others extfh env garbage opcode sys = .ok sys' ∧
    sys'.fcd.visible = (extfh opcode sys.files sys.fcd).2.visible

/-- The system as `pqfh` hands it to `EXTFH` in mode W. -/
def Sys.handed (opcode : Opcode) (sys : Sys σ) : Sys σ :=
  let opens := match opcode with | .openFile _ => true | _ => false
  let sys := if opens && sys.fcd.openMode = 128 then sys.setIsam false else sys
  let sys := if opcode = .openFile .io then sys.setIsam false else sys
  if opcode = .commit then sys.pqfhCommit else sys

/-- What the database does after `EXTFH` in mode W is not seen. The condition is on the system as
`EXTFH` leaves it. -/
def KeepsOut (env : Env) (opcode : Opcode) (called : Sys σ) : Prop :=
  match opcode with
  | .openFile .io => Openable env called.proc.conn called.fcd (baseName called.fcd.fileName)
  | .close => (called.proc.tables called.fcd.fileId).isSome
  | .write => called.fcd.openMode = 128 ∨
      ∃ tab, called.proc.tables called.fcd.fileId = some tab ∧ WriteKeeps env.pg (called.state tab)
  | .rewrite => called.fcd.openMode = 128 ∨
      ∃ tab, called.proc.tables called.fcd.fileId = some tab ∧
        RewriteKeeps env.pg (called.state tab)
  | .delete => called.fcd.openMode = 128 ∨
      ∃ tab, called.proc.tables called.fcd.fileId = some tab ∧ DeleteKeeps env.pg (called.state tab)
  | .deleteFile => called.fcd.status = stOk ∧
      Droppable env called.proc.conn called.fcd (baseName called.fcd.fileName)
  | _ => True

/-- What is done on the database after EXTFH is not seen when the operation keeps what is seen. -/
theorem databaseOp_unseen_iff {extfh : Extfh σ} {env : Env} {garbage : Garbage} {opcode : Opcode}
    {called : Sys σ} (mode : env.mode = .W) (fine : called.fcd.status.1 = 48)
    (kept : called.fcd.isam = false) :
    Unseen called (databaseOp extfh env garbage [] opcode called) ↔ KeepsOut env opcode called := by
  have left : ∀ op, Unseen called (unlessShadow env called op) := by
    intro op
    unfold unlessShadow
    rw [if_pos mode]
    exact ⟨called, rfl, rfl⟩
  cases opcode with
  | openFile kind =>
      unfold databaseOp
      dsimp only
      rw [if_pos mode]
      cases kind with
      | io => exact openShadow_unseen_iff kept
      | input => exact ⟨fun _ => trivial, fun _ => ⟨_, rfl, rfl⟩⟩
      | output => exact ⟨fun _ => trivial, fun _ => ⟨_, rfl, rfl⟩⟩
      | extend => exact ⟨fun _ => trivial, fun _ => ⟨_, rfl, rfl⟩⟩
  | close => exact closeBoth_unseen_iff mode
  | start op => exact ⟨fun _ => trivial, fun _ => left _⟩
  | readNext => exact ⟨fun _ => trivial, fun _ => left _⟩
  | readPrevious => exact ⟨fun _ => trivial, fun _ => left _⟩
  | readRandom => exact ⟨fun _ => trivial, fun _ => left _⟩
  | readLock => exact ⟨fun _ => trivial, fun _ => left _⟩
  | unlock => exact ⟨fun _ => trivial, fun _ => left _⟩
  | write => exact writeBoth_unseen_iff mode
  | rewrite => exact rewriteBoth_unseen_iff mode
  | delete => exact deleteBoth_unseen_iff mode
  | deleteFile => exact deleteFile_unseen_iff fine
  | commit => exact ⟨fun _ => trivial, fun _ => ⟨_, rfl, rfl⟩⟩
  | other => exact ⟨fun _ => trivial, fun _ => ⟨_, rfl, rfl⟩⟩

/-- A call is not seen when EXTFH failed or the operation on the database keeps what is seen. -/
theorem shadow_unseen_iff {extfh : Extfh σ} {env : Env} {garbage : Garbage} {isam : Bool}
    {opcode : Opcode} {called : Sys σ} (mode : env.mode = .W) :
    Unseen called (shadow extfh env garbage isam opcode called) ↔
      (called.fcd.status.1 = 48 → called.fcd.isam = false → KeepsOut env opcode called) := by
  unfold shadow
  by_cases fine : called.fcd.status.1 = 48
  swap
  · rw [if_pos fine]
    refine ⟨fun _ reached => absurd reached fine, fun _ => ⟨_, rfl, ?_⟩⟩
    split <;> rfl
  rw [if_neg (not_not.mpr fine)]
  cases kept : called.fcd.isam with
  | true => exact ⟨fun _ _ => nofun, fun _ => ⟨_, rfl, rfl⟩⟩
  | false =>
      rw [if_neg Bool.false_ne_true, databaseOp_unseen_iff mode fine kept]
      exact ⟨fun keeps _ _ => keeps, fun keeps => keeps fine rfl⟩

/-- In mode W a call is the call of EXTFH and what follows on the database. -/
theorem pqfh_shadow (extfh : Extfh σ) {env : Env} (garbage : Garbage) (opcode : Opcode)
    (sys : Sys σ) (mode : env.mode = .W) :
    ∃ isam, pqfh extfh env garbage opcode sys =
      shadow extfh env garbage isam opcode (extfhFirst extfh opcode (sys.handed opcode)) := by
  unfold pqfh Sys.handed
  rw [mode]
  cases opcode with
  | openFile kind => cases kind <;> exact ⟨_, rfl⟩
  | _ => exact ⟨_, rfl⟩

/-- What the program would see of `EXTFH` alone. -/
theorem visible_extfhFirst {extfh : Extfh σ} {opcode : Opcode} {sys : Sys σ}
    (ignores : IgnoresIsam extfh) :
    (extfhFirst extfh opcode (sys.handed opcode)).fcd.visible =
      (extfh opcode sys.files sys.fcd).2.visible := by
  have handed : (sys.handed opcode).files = sys.files ∧
      ∃ isam, (sys.handed opcode).fcd = { sys.fcd with isam := isam } := by
    unfold Sys.handed
    dsimp only
    split_ifs <;> exact ⟨rfl, _, rfl⟩
  obtain ⟨files, isam, fcd⟩ := handed
  have called : (extfhFirst extfh opcode (sys.handed opcode)).fcd =
      (extfh opcode (sys.handed opcode).files (sys.handed opcode).fcd).2 := by
    unfold extfhFirst
    dsimp only
    split <;> rfl
  rw [called, files, fcd]
  exact ignores opcode sys.files sys.fcd isam

/-- `EXTFH` on a file that takes every record. -/
def taking : Extfh Unit := fun _ files fcd => (files, { fcd with status := stOk })

/-- The server of the table of balances, in mode W. -/
def shadowServer : Env := { plainServer with mode := .W }

/-- The commands of the control file, here none that changes anything. -/
def noCommand : Opcode → Sys Unit → Except Stop (Sys Unit) := fun _ sys => .ok sys

end Pqfh
